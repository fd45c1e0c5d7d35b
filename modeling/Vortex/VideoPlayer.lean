import Vortex.Index
import Vortex.Html

/-!
# VideoPlayer.php

`startPlayer` for a numeric id, and the page `buildPlayer` makes of a row.
-/

namespace Vortex

open Ascii

/-! ## buildPlayer -/

/-- What a branch of the switch on the extension puts into `$mime`. -/
structure Branch where
  indent : Bytes
  base : Bytes
  type : Bytes
  deriving DecidableEq

def branch (ext : Bytes) : Option Branch :=
  if ext = str "mkv" then
    some ⟨str "           ", str "https://s3-us-west-2.amazonaws.com/vortex-bucket/", str "video/webm"⟩
  else if ext = str "mp4" then
    some ⟨str "           ", str "rtmp://www.videovortex.stream:1935/playback/", str "rtmp/" ++ ext⟩
  else if ext = str "flv" then
    some ⟨str "           ", str "rtmp://www.videovortex.stream:1935/playback/", str "rtmp/" ++ ext⟩
  else if ext = str "avi" then
    some ⟨str "\t    \t", str "https://s3-us-west-2.amazonaws.com/vortex-bucket/", str "video/" ++ ext⟩
  else if ext = str "mov" then
    some ⟨str "\t    \t", str "https://s3-us-west-2.amazonaws.com/vortex-bucket/", str "video/quicktime"⟩
  else if ext = str "ogg" then
    some ⟨str "\t    \t", str "https://s3-us-west-2.amazonaws.com/vortex-bucket/", str "video/" ++ ext⟩
  else none

/-- `$uuid . "." . $ext`. -/
def mediaName (r : Row) : Bytes := r.uuid ++ str "." ++ r.ext

def mime (r : Row) (b : Branch) : Bytes :=
  b.indent ++ str "<source src=\"" ++ (b.base ++ mediaName r) ++ str "\"" ++ str " type='" ++ b.type

/-- `$v . $v_1`, up to the title and after it. -/
def heading (title : Bytes) : Bytes :=
  str "<div class=\"container\">" ++ (str "\n<h2>" ++ title ++ str "</h2>\n")

def attributeTable (duration fname bitrate : Bytes) : Bytes :=
  str "\n" ++ str "\t<table style=\"border: 1px solid black; width:75%\">" ++ str "\n\t    <tr>\n\t       <th>" ++
    str "Duration</th>\n\t\t   <th>File Name</th>\n   \t       <th>Bitrate (kbs)</th>\n\t     </tr>" ++
    (str "\n\t     <tr>\n\t       <td>" ++ duration ++ str "</td>\n\t       <td>" ++ fname ++ str "</td>\n") ++
    (str "\t       <td>" ++ bitrate ++ str "</td>\n\t     </tr>\n      </table>\n")

/-- `$v_2 . $uuid . $v_3 . $v_4 . $v_5 . $v_6`. -/
def videoTag (uuid : Bytes) : Bytes :=
  str "         <video id=\"" ++ uuid ++
    str "\" class=\"video-js vjs-default-skin\" controls preload=\"auto\" width=\"860\" height=\"420\"" ++
    str "data-setup='\x7b" ++ str "\"Dispay_option\":true\x7d" ++ str "'>"

def descript (des : Bytes) : Bytes :=
  str "<div class=\"container col-md-7 col-md-offset-2 text-left\">" ++
    (str "     <h3>" ++ des ++ str "</h3><br><br><br>\n") ++ str "\n" ++ str "</div>\n"

structure Player where
  source : Bytes
  html : Bytes
  deriving DecidableEq

def buildPlayer (r : Row) : Option Player :=
  match branch r.ext with
  | none => none
  | some b =>
    some {
      source := b.base ++ mediaName r
      html := heading r.title ++ attributeTable (timeText r.duration) r.name (decimal r.bitrate) ++ str "\n" ++
        videoTag r.uuid ++ str "\n" ++ mime r b ++ str "'>" ++ str "\"" ++ str "\n" ++ str "        </video><br><br>" ++
        str "\n</div>" ++ str "\n" ++ descript r.description }

/-! ## startPlayer -/

inductive Play
  | error (code : Nat)
  | page (p : Player)

/-- `startPlayer` with an id that the query reads as this number. -/
def startPlayer (t : Table) (id : Nat) : Play :=
  match t.byId id with
  | none => .error 41
  | some r =>
    match buildPlayer r with
    | none => .error 61
    | some p => .page p

/-! ## The branches -/

theorem buildPlayer_some {r : Row} {p : Player} (h : buildPlayer r = some p) :
    ∃ b, branch r.ext = some b ∧ p.source = b.base ++ mediaName r := by
  unfold buildPlayer at h
  split at h
  · cases h
  · rename_i b hb
    exact ⟨b, hb, by rw [← Option.some.inj h]⟩

def supported : List Bytes := [str "mkv", str "mp4", str "flv", str "avi", str "mov", str "ogg"]

theorem branch_isSome {ext : Bytes} : (branch ext).isSome ↔ ext ∈ supported := by
  constructor
  · intro h
    unfold branch at h
    repeat' split at h
    · rename_i he; rw [he]; decide
    · rename_i he; rw [he]; decide
    · rename_i he; rw [he]; decide
    · rename_i he; rw [he]; decide
    · rename_i he; rw [he]; decide
    · rename_i he; rw [he]; decide
    · cases h
  · intro h
    simp only [supported, List.mem_cons, List.not_mem_nil, or_false] at h
    rcases h with rfl | rfl | rfl | rfl | rfl | rfl <;> decide

end Vortex
