import Vortex.ErrorPage
import Vortex.World

/-!
# Links and redirects

Where the URLs lead that the scripts print: to a script with a path behind it,
or away from the site. Apache gives the rest of the path to the script; a path
without a script is the directory's index.
-/

namespace Vortex

open Ascii

/-! ## URLs -/

/-- What follows the head, if it is there. -/
def stripText (head x : Bytes) : Option Bytes := if head.isPrefixOf x then some (x.drop head.length) else none

theorem stripText_append (head x : Bytes) : stripText head (head ++ x) = some x := by
  rw [stripText, if_pos (List.isPrefixOf_iff_prefix.mpr (List.prefix_append ..)), List.drop_left]

structure Url where
  host : Bytes
  -- behind a colon; the default may be left out or empty
  port : Bytes
  path : Bytes
  deriving DecidableEq

/-- A URL of the scheme `http`, with a path. -/
def httpUrl (x : Bytes) : Option Url :=
  (stripText (str "http://") x).map fun y =>
    ⟨(y.takeWhile (· != slash)).takeWhile (· != colon), ((y.takeWhile (· != slash)).dropWhile (· != colon)).drop 1,
      y.dropWhile (· != slash)⟩

def siteHost : Bytes := str "www.videovortex.stream"

inductive Target
  | here (path : Bytes)
  | away
  deriving DecidableEq

/-- Where a reference leads from a page of the site; relative paths do not occur. -/
def target (href : Bytes) : Option Target :=
  match httpUrl href with
  | some u => some (if u.host = siteHost && u.port = [] then .here u.path else .away)
  | none =>
    if (str "https://").isPrefixOf href then some .away
    else if href.head? = some slash && href.tail.head? ≠ some slash then some (.here href)
    else none

theorem httpUrl_of {authority x : Bytes} (ha : ∀ c ∈ authority, (c != slash) = true) (h : x.head? = some slash) :
    httpUrl (str "http://" ++ (authority ++ x)) =
      some ⟨authority.takeWhile (· != colon), (authority.dropWhile (· != colon)).drop 1, x⟩ := by
  obtain ⟨y, rfl⟩ : ∃ y, x = slash :: y := by
    cases x with
    | nil => cases h
    | cons c y =>
      cases h
      exact ⟨y, rfl⟩
  have htake : (authority ++ slash :: y).takeWhile (· != slash) = authority := by
    rw [List.takeWhile_append_of_pos ha]
    simp
  have hdrop : (authority ++ slash :: y).dropWhile (· != slash) = slash :: y := by
    rw [List.dropWhile_append_of_pos ha]
    simp
  rw [httpUrl, stripText_append, Option.map_some, htake, hdrop]

theorem target_site {x : Bytes} (h : x.head? = some slash) :
    target (str "http://www.videovortex.stream" ++ x) = some (.here x) := by
  have hlit : str "http://www.videovortex.stream" = str "http://" ++ siteHost := by decide +kernel
  have hhost : ∀ c ∈ siteHost, (c != slash) = true := by decide +kernel
  have hname : siteHost.takeWhile (· != colon) = siteHost := by decide +kernel
  have hport : siteHost.dropWhile (· != colon) = [] := by decide +kernel
  rw [target, hlit, List.append_assoc, httpUrl_of hhost h, hname, hport]
  rfl

/-- Behind a second `http://` the first names the host, with an empty port. -/
theorem target_doubled (x : Bytes) : target (str "http://http://" ++ x) = some .away := by
  have hlit : str "http://http://" = str "http://" ++ (str "http:" ++ [slash, slash]) := by decide +kernel
  have hhost : ∀ c ∈ str "http:", (c != slash) = true := by decide +kernel
  have hname : (str "http:").takeWhile (· != colon) = str "http" := by decide +kernel
  have hne : str "http" ≠ siteHost := by decide +kernel
  rw [target, hlit, List.append_assoc, List.append_assoc, httpUrl_of hhost rfl, hname]
  simp [hne]

/-! ## Scripts -/

/-- The scripts that answer a GET. -/
inductive Script
  | index
  | player
  | error
  | upload
  | live
  deriving DecidableEq

def Script.path : Script → Bytes
  | .index => str "/php/index.php"
  | .player => str "/php/player.php"
  | .error => str "/php/error.php"
  | .upload => str "/php/upload.php"
  | .live => str "/php/live.php"

def Script.all : List Script := [.index, .player, .error, .upload, .live]

/-- The script with the `PATH_INFO` it gets. -/
def route (path : Bytes) : Option (Script × Bytes) :=
  -- DirectoryIndex /php/index.php
  if path = [slash] then some (.index, [])
  else Script.all.findSome? fun s =>
    (stripText s.path path).bind fun info => if info = [] || info.head? = some slash then some (s, info) else none

theorem stripText_other {head lit : Bytes} (h : head.isPrefixOf lit = false) (h' : lit.isPrefixOf head = false)
    (x : Bytes) : stripText head (lit ++ x) = none := by
  rw [stripText, if_neg]
  intro hp
  rcases List.prefix_or_prefix_of_prefix (List.isPrefixOf_iff_prefix.mp hp) (List.prefix_append lit x) with hp | hp
  · rw [← List.isPrefixOf_iff_prefix, h] at hp
    cases hp
  · rw [← List.isPrefixOf_iff_prefix, h'] at hp
    cases hp

theorem route_script (s : Script) {info : Bytes} (h : info = [] ∨ info.head? = some slash) : route (s.path ++ info) = some (s, info) := by
  have hroot : s.path ++ info ≠ [slash] := by
    intro he
    have := congrArg List.length he
    cases s <;> simp [Script.path, str] at this
  have hother : ∀ s s' : Script, s ≠ s' → s.path.isPrefixOf s'.path = false := by
    intro s s' hne
    cases s <;> cases s' <;> first | exact absurd rfl hne | decide +kernel
  have hsame : stripText s.path (s.path ++ info) = some info := stripText_append ..
  have hnone : ∀ s', s' ≠ s → stripText s'.path (s.path ++ info) = none := fun s' hs' =>
    stripText_other (hother s' s hs') (hother s s' hs'.symm) info
  rw [route, if_neg hroot]
  cases s <;> simp [Script.all, hsame, hnone, h]

/-! ## Answers -/

inductive Answer
  | page (html : Bytes)
  | redirect (location : Bytes)

def errorUrl (code : Nat) : Bytes := str "http://www.videovortex.stream/php/error.php/" ++ decimal code

/-- The `Location` of a redirect in `VideoUpload.php` and `video_upload.php`. -/
def Exit.location : Exit → Option Bytes
  | .error code => some (errorUrl code)
  | .player vid => some (str "http://http://www.videovortex.stream/php/player.php/" ++ decimal vid)
  | _ => none

section
variable (other : Bytes → Option (List Row))

/-- The answer of a script for its `PATH_INFO` and `$_GET['More']`. -/
def get (t : Table) (more : Option Bytes) (script : Script) (info : Bytes) : Answer :=
  match script with
  | .index => .page (indexPage (index t more))
  | .player =>
    match (VideoPlayer.player other (some t) info).exit with
    | .play (.page p) => .page (playerPage p)
    | .play (.error code) => .redirect (errorUrl code)
    | .fatal => .page fatalPage
  | .error => .page (errorPage (some info))
  | .upload => .page uploadPage
  | .live => .page (livePage none)

inductive Shown
  | page (path html : Bytes)
  | away
  deriving DecidableEq

/-- Redirects are followed while the browser has patience. -/
def fetch (t : Table) (more : Option Bytes) : Nat → Target → Option Shown
  | _, .away => some .away
  | patience, .here path =>
    match (route path).map fun p => get other t more p.1 p.2 with
    | some (.page html) => some (.page path html)
    | some (.redirect location) =>
      match patience with
      | 0 => none
      | patience + 1 => (target location).bind (fetch t none patience)
    | none => none

end

end Vortex
