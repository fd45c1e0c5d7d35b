import Vortex.Links
import Vortex.OwnVideo
import Vortex.Paging
import Vortex.PlayerId
import Vortex.Routes
import Vortex.Simulation
import Vortex.SqlShape

/-!
# A visitor on the site

A visitor types addresses of the scripts and goes from page to page by what
stands in the bytes of the pages, while uploads go on. No link leads to an
error that the visitor did not ask for: only to a page that is meant, or to
the message that a video cannot be played. PHP's own message about a fatal
error is shown only for an id that was typed.
-/

namespace Vortex

open Ascii

attribute [local irreducible] insertText

variable (other : Bytes → Option (List Row))

/-! ## Where the site's own URLs lead -/

/-- The redirects that a browser follows. -/
def patience : Nat := 20

def Script.shown (s : Script) (info html : Bytes) : Shown := .page (s.path ++ info) html

/-- The page that plays the row, or the one that says it cannot be played. -/
def rowPage (r : Row) : Shown :=
  match buildPlayer r with
  | some p => Script.player.shown (slash :: decimal r.id) (playerPage p)
  | none => Script.error.shown (slash :: decimal 61) (errorPage (some (slash :: decimal 61)))

theorem fetch_front (t : Table) (more : Option Bytes) (n : Nat) :
    fetch other t more n (.here [slash]) = some (.page [slash] (indexPage (index t more))) := by
  have hroute : route [slash] = some (.index, []) := rfl
  unfold fetch
  rw [hroute]
  rfl

theorem fetch_page {s : Script} {info html : Bytes} {t : Table} {more : Option Bytes} (hi : info = [] ∨ info.head? = some slash)
    (h : get other t more s info = .page html) (n : Nat) :
    fetch other t more n (.here (s.path ++ info)) = some (s.shown info html) := by
  unfold fetch
  rw [route_script s hi, Option.map_some, h]
  rfl

theorem fetch_redirect {s : Script} {info location : Bytes} {t : Table} {more : Option Bytes}
    (hi : info = [] ∨ info.head? = some slash) (h : get other t more s info = .redirect location) (n : Nat) :
    fetch other t more (n + 1) (.here (s.path ++ info)) = (target location).bind (fetch other t none n) := by
  rw [fetch, route_script s hi, Option.map_some, h]

theorem target_errorUrl (code : Nat) : target (errorUrl code) = some (.here (Script.error.path ++ slash :: decimal code)) := by
  have hsplit : errorUrl code = str "http://www.videovortex.stream" ++ (Script.error.path ++ slash :: decimal code) := by
    have hlit : str "http://www.videovortex.stream/php/error.php/" =
        str "http://www.videovortex.stream" ++ (str "/php/error.php" ++ [slash]) := by decide +kernel
    rw [errorUrl, hlit, Script.path]
    simp only [List.append_assoc, List.singleton_append]
  rw [hsplit, target_site rfl]

theorem target_playerUrl (r : Row) : target (playerUrl r) = some (.here (Script.player.path ++ slash :: decimal r.id)) := by
  have hsplit : playerUrl r = str "http://www.videovortex.stream" ++ (Script.player.path ++ slash :: decimal r.id) := by
    have hlit : str "http://www.videovortex.stream/php/player.php/" =
        str "http://www.videovortex.stream" ++ (str "/php/player.php" ++ [slash]) := by decide +kernel
    rw [playerUrl, hlit, Script.path]
    simp only [List.append_assoc, List.singleton_append]
  rw [hsplit, target_site rfl]

theorem fetch_error (t : Table) (code n : Nat) : (target (errorUrl code)).bind (fetch other t none n) =
    some (Script.error.shown (slash :: decimal code) (errorPage (some (slash :: decimal code)))) := by
  rw [target_errorUrl, Option.bind_some]
  exact fetch_page other (.inr rfl) rfl n

theorem fetch_row {t : Table} {r : Row} (hr : r ∈ t.rows) (n : Nat) :
    (target (playerUrl r)).bind (fetch other t none (n + 1)) = some (rowPage r) := by
  have hexit : (VideoPlayer.player other (some t) (slash :: decimal r.id)).exit = .play (startPlayer t r.id) := by
    rw [player_decimal]
  rw [target_playerUrl, Option.bind_some, rowPage]
  cases hp : buildPlayer r with
  | some p =>
    have hplay : startPlayer t r.id = .page p := by rw [startPlayer, t.byId_of_mem hr]; simp only [hp]
    refine fetch_page other (.inr rfl) ?_ (n + 1)
    rw [get, hexit, hplay]
  | none =>
    have hplay : startPlayer t r.id = .error 61 := by rw [startPlayer, t.byId_of_mem hr]; simp only [hp]
    have hget : get other t none .player (slash :: decimal r.id) = .redirect (errorUrl 61) := by
      rw [get, hexit, hplay]
    rw [fetch_redirect other (.inr rfl) hget, fetch_error]

/-! ## Where the redirects of an upload lead -/

/-- An error of a code that `error.php` has a message for. -/
def Exit.Known : Exit → Prop
  | .error code => ∃ m ∈ errorMsg, m.1 = decimal code
  | _ => True

theorem error_known : ∀ code ∈ [11, 21, 31, 41, 61], (Exit.error code).Known := by
  have h : ∀ code ∈ [11, 21, 31, 41, 61], ∃ m ∈ errorMsg, m.1 = decimal code := by decide +kernel
  exact h

theorem Effect.known {thumbOf : Bytes → Bytes} {q : Request} {w w' : World} {l l' : Local} {out : Outcome}
    (h : Effect thumbOf q w l out w' l') {e : Exit} (he : l'.exit = some e) : e.Known := by
  cases h with
  | refused e' out hcode | dropped path e' out hcode =>
    cases he
    rcases hcode with rfl | rfl
    · exact error_known 11 (by decide)
    · trivial
  | unmoved o e' out hcode =>
    cases he
    rcases hcode with rfl | rfl
    · exact error_known 21 (by decide)
    · trivial
  | killed =>
    cases he
    trivial
  | leaves =>
    cases he
    exact error_known 11 (by decide)
  | smuggled o zero after =>
    cases zero with
    | true => cases he
    | false =>
      cases he
      exact error_known 11 (by decide)
  | found =>
    cases he
    trivial
  | quit o stage e' out hexit =>
    cases he
    have hcodes : ∀ stage : Stage, ∀ e ∈ stage.exits, e = .exception ∨ e = .fatal ∨ e = .stopped ∨
        ∃ code ∈ [11, 21, 31, 41, 61], e = .error code := by
      intro stage
      cases stage <;> decide
    rcases hcodes stage e hexit with rfl | rfl | rfl | ⟨code, hcode, rfl⟩
    · trivial
    · trivial
    · trivial
    · exact error_known code hcode
  | _ => cases he

/-- Each error redirect of an upload shows the message of its own code, never
the unspecified one. The redirect to the player leads away: its URL names the
host `http`. -/
theorem redirects_lead {thumbOf : Bytes → Bytes} {ι : Type*} [DecidableEq ι] {requests : ι → Request} {w : World}
    {s : Site ι} {es : List (ι × Outcome)} (h : (site thumbOf requests).run (.opening w) es = some s) {i : ι} {e : Exit}
    (he : (s.locals i).exit = some e) :
    (∀ code, e = .error code → ∃ m ∈ errorMsg, m.1 = decimal code ∧
      (e.location.bind target).bind (fetch other s.world.db none patience) =
        some (Script.error.shown (slash :: decimal code) (errorFrame m.2))) ∧
    ∀ v, e = .player v → (e.location.bind target).bind (fetch other s.world.db none patience) = some .away := by
  let I := fun s : Site ι => ∀ i e, (s.locals i).exit = some e → e.Known
  have h₀ : I (.opening w) := nofun
  have hstep : ∀ s e s', I s → (site thumbOf requests).step s e = some s' → I s' := by
    intro s e s' hs hst i x hx
    obtain ⟨heff, hother⟩ := site_step hst
    by_cases hi : i = e.1
    · subst hi
      exact heff.known hx
    · rw [hother i hi] at hx
      exact hs i x hx
  have hknown := Machine.run_invariant hstep h₀ h i e he
  constructor
  · rintro code rfl
    obtain ⟨m, hm, hcode⟩ := hknown
    refine ⟨m, hm, hcode, ?_⟩
    have hpage : errorPage (some (slash :: decimal code)) = errorFrame m.2 := by
      apply errorPage_of_shownFor
      refine ⟨hm, .inl ?_⟩
      rw [hcode]
      exact trimSlashes_decimal code
    rw [Exit.location, Option.bind_some, fetch_error, hpage]
  · rintro v rfl
    have hlit : str "http://http://www.videovortex.stream/php/player.php/" =
        str "http://http://" ++ str "www.videovortex.stream/php/player.php/" := by decide +kernel
    rw [Exit.location, Option.bind_some, hlit, List.append_assoc, target_doubled]
    rfl

/-- One upload goes through, and of one the type of the video is not read. -/
theorem sample_redirects_lead : ∃ s : Site Bool,
    (s.locals true).exit = some (.player 58) ∧
    ((Exit.player 58).location.bind target).bind (fetch (fun _ => none) s.world.db none patience) = some .away ∧
    (s.locals false).exit = some (.error 11) ∧ ∃ m ∈ errorMsg, m.1 = decimal 11 ∧
      ((Exit.error 11).location.bind target).bind (fetch (fun _ => none) s.world.db none patience) =
        some (Script.error.shown (slash :: decimal 11) (errorFrame m.2)) := by
  have hrun : ((site sampleThumb fun _ => sampleRequest).run (.opening sampleWorld)
      (((sampleEvents sampleTmpName sampleAttributes).map fun out => (true, out)) ++
        [(false, .received laterTmpName), (false, .fail)])).map
          (fun s => ((s.locals true).exit, (s.locals false).exit)) = some (some (.player 58), some (.error 11)) := by
    decide +kernel
  obtain ⟨s, hs, he⟩ := Option.map_eq_some_iff.mp hrun
  obtain ⟨hplayer, herror⟩ := Prod.mk.inj he
  exact ⟨s, hplayer, (redirects_lead (fun _ => none) hs hplayer).2 58 rfl, herror,
    (redirects_lead (fun _ => none) hs herror).1 11 rfl⟩

/-! ## The visit -/

inductive TourEvent (ι : Type*)
  -- any address of the site is typed, and any `More` that leaves the listing its query
  | typed (path : Bytes) (more : Option Bytes)
  | link (k : Nat)
  | more
  -- an upload goes on
  | call (e : ι × Outcome)

def TourEvent.address {ι : Type*} : TourEvent ι := .typed [slash] none

structure Tour (ι : Type*) where
  site : Site ι
  shown : Shown

variable (thumbOf : Bytes → Bytes) {ι : Type*} [DecidableEq ι] (requests : ι → Request)

def Tour.table (s : Tour ι) : Table := s.site.world.db

def tour : Machine (Tour ι) (TourEvent ι) where
  step s
    | .typed path more =>
      if listingMore more then (fetch other s.table more patience (.here path)).map fun shown => { s with shown := shown }
      else none
    | .link k =>
      match s.shown with
      | .away => none
      | .page _ html =>
        (((links html)[k]?.bind target).bind (fetch other s.table none patience)).map fun shown => { s with shown := shown }
    | .more =>
      match s.shown with
      | .away => none
      | .page path html =>
        ((buttons html).head?.bind fun v => fetch other s.table (some v) patience (.here path)).map fun shown =>
          { s with shown := shown }
    | .call e => ((site thumbOf requests).step s.site e).map fun site => { s with site := site }

def Tour.opening (w : World) : Tour ι := ⟨.opening w, .away⟩

/-- The INSERT of the call, if it is one, stores the request's own decoded texts. -/
def StoresOwn (s : Site ι) (e : ι × Outcome) : Prop :=
  ∀ o ∈ s.inserting e, ∃ v, ((requests e.1).values o.attrs).Decodes v

/-- The calls store what they are meant to, and a command hidden in a name
leaves the bucket and the table alone. -/
def TourStoresOwn (s : Tour ι) : TourEvent ι → Prop
  | .call e => StoresOwn requests s.site e ∧ e.2.tame s.site.world
  | _ => True

/-- The pages of the site, each at an address of its script. -/
inductive Meant (t : Table) : Shown → Prop
  | away : Meant t .away
  -- from the table as it was when the page was sent
  | front {path info : Bytes} (t' : Table) (more : Option Bytes) : route path = some (.index, info) → t'.rows <+: t.rows →
      Meant t (.page path (indexPage (index t' more)))
  | row {path info : Bytes} (r : Row) (p : Player) : route path = some (.player, info) → r ∈ t.rows →
      buildPlayer r = some p → Meant t (.page path (playerPage p))
  -- only where the id was typed: the decimal ids of the links are not refused
  | fatal {path info : Bytes} : route path = some (.player, info) → IdRefused (trimSlashes info) →
      Meant t (.page path fatalPage)
  | error {path info : Bytes} : route path = some (.error, info) → Meant t (.page path (errorPage (some info)))
  | upload {path info : Bytes} : route path = some (.upload, info) → Meant t (.page path uploadPage)
  | live {path info : Bytes} : route path = some (.live, info) → Meant t (.page path (livePage none))

section
variable {t t' : Table} {path html : Bytes} {shown : Shown}

theorem Meant.grow (h : Meant t shown) (ht : t.rows <+: t'.rows) : Meant t' shown := by
  cases h with
  | away => exact .away
  | front t₀ more hroute hp => exact .front t₀ more hroute (hp.trans ht)
  | row r p hroute hr hp => exact .row r p hroute (ht.subset hr) hp
  | fatal hroute hid => exact .fatal hroute hid
  | error hroute => exact .error hroute
  | upload hroute => exact .upload hroute
  | live hroute => exact .live hroute

/-- A numeric id never asks for more than rows of the table. -/
theorem player_page {info : Bytes} {p : Player} (h : (VideoPlayer.player other (some t) info).exit = .play (.page p)) :
    ∃ r ∈ t.rows, buildPlayer r = some p := by
  rw [VideoPlayer.player] at h
  cases hn : phpNumber (trimSlashes info) with
  | none =>
    have hnot : isNumeric (trimSlashes info) = false := by
      rw [isNumeric, hn]
      rfl
    rw [startPlayer_of_not_numeric hnot] at h
    cases h
  | some number =>
    obtain ⟨negative, n⟩ := number
    have hop := readOperand_of_phpNumber hn
    rw [startPlayer_of_isNumeric (isNumeric_of hn)] at h
    by_cases hu : hasUpperPrefix (trimSlashes info) = true
    · rw [if_pos hu] at hop
      rw [query_word hop] at h
      cases h
    · rw [if_neg hu] at hop
      rw [query_literal hop] at h
      by_cases ho : n.overflows = true
      · rw [if_pos ho] at h
        cases h
      · rw [if_neg ho] at h
        cases hrows : (t.rows.filter fun r => (r.id : ℚ) = signed negative n.sqlNumber).head? with
        | none => simp [hrows, playRow] at h
        | some r =>
          have hr := List.mem_of_mem_filter (List.mem_of_head? hrows)
          cases hp : buildPlayer r with
          | none => simp [hrows, playRow, hp] at h
          | some p' =>
            simp only [hrows, playRow, hp, PlayerExit.play.injEq, Play.page.injEq] at h
            exact ⟨r, hr, by rw [hp, h]⟩

theorem fetch_meant {more : Option Bytes} {n : Nat} (h : fetch other t more n (.here path) = some shown) : Meant t shown := by
  rw [fetch] at h
  cases hroute : route path with
  | none => simp [hroute] at h
  | some s =>
    obtain ⟨script, info⟩ := s
    rw [hroute, Option.map_some] at h
    cases script with
    | index =>
      cases h
      exact .front t more hroute (List.prefix_refl _)
    | error =>
      cases h
      exact .error hroute
    | upload =>
      cases h
      exact .upload hroute
    | live =>
      cases h
      exact .live hroute
    | player =>
      cases hexit : (VideoPlayer.player other (some t) info).exit with
      | fatal =>
        simp only [get, hexit, Option.some.injEq] at h
        rw [← h]
        exact .fatal hroute ((player_fatal_iff other t info).mp hexit)
      | play play =>
        cases play with
        | page p =>
          simp only [get, hexit, Option.some.injEq] at h
          obtain ⟨r, hr, hp⟩ := player_page other hexit
          rw [← h]
          exact .row r p hroute hr hp
        | error code =>
          cases n with
          | zero => simp [get, hexit] at h
          | succ n =>
            have herror : route (Script.error.path ++ slash :: decimal code) = some (.error, slash :: decimal code) :=
              route_script .error (.inr rfl)
            simp only [get, hexit] at h
            rw [fetch_error] at h
            cases h
            exact .error herror

theorem index_next (t : Table) (more : Option Bytes) : ∃ m, (index t more).next = decimal m := by
  unfold index
  by_cases h : ((t.execSelect (selectText (startingRow more))).getD []).length < 15
  · exact ⟨0, by simp [h, str_zero]⟩
  · exact ⟨phpInt (startingRow more) + 15, by simp only [h, if_false]⟩

/-- What an image or a player of a page of the site is loaded from. -/
inductive MediaOf (t : Table) : Bytes → Prop
  | image {r : Row} : r ∈ t.rows → MediaOf t (imageUrl r)
  | source {r : Row} {p : Player} : r ∈ t.rows → buildPlayer r = some p → MediaOf t p.source

/-- A page of the site has the links of its frame and of its rows, and shows
and plays media of rows only; PHP's message has nothing. -/
theorem Meant.offers (h : Meant t (.page path html)) (hp : ∀ r ∈ t.rows, r.Plain) :
    ∃ (frame : List Bytes) (rows : List Row) (bs ms : List Bytes),
      (frame = navigation ∨ (frame = [] ∧ rows = [] ∧ html = fatalPage)) ∧ (∀ r ∈ rows, r ∈ t.rows) ∧
      (∀ u ∈ ms, MediaOf t u) ∧ Offers html (frame ++ rows.map playerUrl) bs ms := by
  cases h with
  | front t' more hroute hpre =>
    obtain ⟨m, hnext⟩ := index_next t' more
    have hsub : ∀ r ∈ (index t' more).rows, r ∈ t.rows := fun r hr => hpre.subset (mem_of_index hr)
    refine ⟨_, _, _, _, .inl rfl, hsub, fun u hu => ?_, indexPage_offers (fun r hr => hp r (hsub r hr)) hnext⟩
    obtain ⟨r, hr, rfl⟩ := List.mem_map.mp hu
    exact .image (hsub r hr)
  | row r p hroute hr hbuild =>
    refine ⟨_, [], [], [p.source], .inl rfl, nofun, fun u hu => ?_, playerPage_offers (hp r hr) hbuild⟩
    rw [List.mem_singleton.mp hu]
    exact .source hr hbuild
  | fatal => exact ⟨[], [], [], [], .inr ⟨rfl, rfl, rfl⟩, nofun, nofun, fatalPage_offers⟩
  | error => exact ⟨_, [], [], [], .inl rfl, nofun, nofun, errorPage_offers _⟩
  | upload => exact ⟨_, [], [], [], .inl rfl, nofun, nofun, uploadPage_offers⟩
  | live => exact ⟨_, [], [], [], .inl rfl, nofun, nofun, livePage_offers⟩

/-- Every such link leads to a page of the site, or away. -/
theorem follow_meant {rows : List Row} (hrows : ∀ r ∈ rows, r ∈ t.rows) :
    ∀ l ∈ navigation ++ rows.map playerUrl, ∃ shown, (target l).bind (fetch other t none patience) = some shown := by
  intro l hl
  rcases List.mem_append.mp hl with hl | hl
  · simp only [navigation, List.mem_cons, List.not_mem_nil, or_false] at hl
    rcases hl with rfl | rfl | rfl | rfl
    · have ht : target (str "/php/upload.php") = some (.here (Script.upload.path ++ [])) := by decide +kernel
      exact ⟨_, by rw [ht]; exact fetch_page other (.inl rfl) rfl _⟩
    · have ht : target (str "/php/live.php") = some (.here (Script.live.path ++ [])) := by decide +kernel
      exact ⟨_, by rw [ht]; exact fetch_page other (.inl rfl) rfl _⟩
    · have ht : target (str "https://github.com/ngduser/vortex-video/blob/master/README.md") = some .away := by
        decide +kernel
      exact ⟨_, by rw [ht]; rfl⟩
    · have ht : target (str "http://www.denig.me/") = some .away := by decide +kernel
      exact ⟨_, by rw [ht]; rfl⟩
  · obtain ⟨r, hr, rfl⟩ := List.mem_map.mp hl
    exact ⟨rowPage r, fetch_row other (hrows r hr) _⟩

theorem target_meant {l : Bytes} {more : Option Bytes} {n : Nat} (h : (target l).bind (fetch other t more n) = some shown) :
    Meant t shown := by
  obtain ⟨place, -, hf⟩ := Option.bind_eq_some_iff.mp h
  cases place with
  | here path => exact fetch_meant other hf
  | away =>
    rw [fetch] at hf
    cases hf
    exact .away

end

/-! ## One step, every visit -/

/-- What a visit keeps. -/
structure TourInv (s : Tour ι) : Prop where
  plain : ∀ r ∈ s.table.rows, r.Plain
  meant : Meant s.table s.shown

variable {other thumbOf requests} {s s' : Tour ι}

/-- A row is there already, or it is stored by the INSERT of its own upload. -/
theorem call_rows {s s' : Site ι} {e : ι × Outcome} (h : (site thumbOf requests).step s e = some s')
    (hown : StoresOwn requests s e) (ht : e.2.tame s.world) {r : Row} (hr : r ∈ s'.world.db.rows) :
    r ∈ s.world.db.rows ∨ ∃ o, s.locals e.1 = .running o .preparedSQL ∧ (requests e.1).Stores o.attrs r := by
  obtain ⟨he, -⟩ := site_step h
  rcases he.kept_or_inserted ht with ⟨hdb, -⟩ | ⟨o, t, hl, hout, hins, hw, -⟩
  · rw [hdb] at hr
    exact .inl hr
  · obtain ⟨v, hv⟩ := hown o (by rw [Option.mem_def, Site.inserting, hout, hl])
    obtain ⟨vs, new, hvs, hrows, -, hnew⟩ := Table.execInsert_rows hins
    rw [readInsert_decodes hv, Option.some.injEq] at hvs
    subst hvs
    rw [hw] at hr
    change r ∈ t.rows at hr
    rw [hrows] at hr
    rcases List.mem_append.mp hr with hr | hr
    · exact .inl hr
    · obtain ⟨v', hv', id, rfl⟩ := hnew r hr
      rw [List.mem_singleton.mp hv']
      exact .inr ⟨o, hl, v, hv, rfl⟩

theorem Request.Stores.plain {q : Request} {a : Attributes} {r : Row} (h : q.Stores a r) : r.Plain := by
  refine ⟨?_, h.plainText⟩
  rw [h.uuid]
  exact fun c hc => inert_ne (a.uuid.inert c hc) rfl

theorem call_plain {s s' : Site ι} {e : ι × Outcome} (h : (site thumbOf requests).step s e = some s')
    (hown : StoresOwn requests s e) (ht : e.2.tame s.world) (hp : ∀ r ∈ s.world.db.rows, r.Plain) :
    ∀ r ∈ s'.world.db.rows, r.Plain := by
  intro r hr
  rcases call_rows h hown ht hr with hr | ⟨o, -, hstores⟩
  · exact hp r hr
  · exact hstores.plain

theorem typed_step {path : Bytes} {more : Option Bytes}
    (h : (tour other thumbOf requests).step s (.typed path more) = some s') :
    ∃ shown, fetch other s.table more patience (.here path) = some shown ∧ s' = { s with shown := shown } := by
  simp only [tour] at h
  split at h
  · obtain ⟨shown, hf, rfl⟩ := Option.map_eq_some_iff.mp h
    exact ⟨shown, hf, rfl⟩
  · cases h

theorem TourInv.step {e : TourEvent ι} (hs : TourInv s) (hg : TourStoresOwn requests s e)
    (h : (tour other thumbOf requests).step s e = some s') : TourInv s' := by
  cases e with
  | typed path more =>
    obtain ⟨shown, hf, rfl⟩ := typed_step h
    exact ⟨hs.plain, fetch_meant other hf⟩
  | link k =>
    cases hpage : s.shown with
    | away => simp [tour, hpage] at h
    | page path html =>
      simp only [tour, hpage] at h
      obtain ⟨shown, hf, rfl⟩ := Option.map_eq_some_iff.mp h
      obtain ⟨place, hl, hf⟩ := Option.bind_eq_some_iff.mp hf
      obtain ⟨l, -, hl⟩ := Option.bind_eq_some_iff.mp hl
      have htarget : (target l).bind (fetch other s.table none patience) = some shown := by rw [hl, Option.bind_some, hf]
      exact ⟨hs.plain, target_meant other htarget⟩
  | more =>
    cases hpage : s.shown with
    | away => simp [tour, hpage] at h
    | page path html =>
      simp only [tour, hpage] at h
      obtain ⟨shown, hf, rfl⟩ := Option.map_eq_some_iff.mp h
      obtain ⟨v, -, hf⟩ := Option.bind_eq_some_iff.mp hf
      exact ⟨hs.plain, fetch_meant other hf⟩
  | call e =>
    obtain ⟨t, ht, rfl⟩ := Option.map_eq_some_iff.mp h
    exact ⟨call_plain ht hg.1 hg.2 hs.plain, hs.meant.grow (Effect.rows_prefix (site_step ht).1 hg.2)⟩

/-- Only a call changes the site. -/
theorem tour_site {e : TourEvent ι} (h : (tour other thumbOf requests).step s e = some s') :
    s'.site = s.site ∨ ∃ c, e = .call c ∧ (site thumbOf requests).step s.site c = some s'.site := by
  cases e with
  | typed path more =>
    obtain ⟨shown, -, rfl⟩ := typed_step h
    exact .inl rfl
  | link k | more =>
    cases hpage : s.shown with
    | away => simp [tour, hpage] at h
    | page path html =>
      simp only [tour, hpage] at h
      obtain ⟨shown, -, rfl⟩ := Option.map_eq_some_iff.mp h
      exact .inl rfl
  | call e =>
    obtain ⟨t, ht, rfl⟩ := Option.map_eq_some_iff.mp h
    exact .inr ⟨e, rfl, ht⟩

theorem tourInv_run {w : World} {es : List (TourEvent ι)} (hw : ∀ r ∈ w.db.rows, r.Plain)
    (hg : (tour other thumbOf requests).Guarded (TourStoresOwn requests) (.opening w) es)
    (h : (tour other thumbOf requests).run (.opening w) es = some s) : TourInv s := by
  have h₀ : TourInv (.opening w : Tour ι) := ⟨hw, .away⟩
  exact Machine.guarded_invariant (fun _ _ _ hs hg => hs.step hg) h₀ hg h

/-- Whatever addresses are typed, every page of a visit is one that is meant, or
PHP's message for an id that MySQL refuses, which has no links. It has the
links of its frame and of videos in the table and no others, and each of them
leads to such a page again, or away from the site. -/
theorem no_dead_link {w : World} {es : List (TourEvent ι)} (hw : ∀ r ∈ w.db.rows, r.Plain)
    (hg : (tour other thumbOf requests).Guarded (TourStoresOwn requests) (.opening w) es)
    (h : (tour other thumbOf requests).run (.opening w) es = some s) :
    Meant s.table s.shown ∧
      ∀ path html, s.shown = .page path html →
        ((html = fatalPage ∧ links html = []) ∨
          ∃ rows : List Row, (∀ r ∈ rows, r ∈ s.table.rows) ∧ links html = navigation ++ rows.map playerUrl) ∧
        ∀ k < (links html).length,
          ∃ s', (tour other thumbOf requests).step s (.link k) = some s' ∧ s'.site = s.site ∧ Meant s'.table s'.shown := by
  have hinv := tourInv_run hw hg h
  refine ⟨hinv.meant, fun path html hpage => ?_⟩
  have hmeant := hinv.meant
  rw [hpage] at hmeant
  obtain ⟨frame, rows, bs, ms, hframe, hrows, -, hoffers⟩ := hmeant.offers hinv.plain
  have hlinks := hoffers.links
  have hsub : ∀ l ∈ links html, l ∈ navigation ++ rows.map playerUrl := by
    intro l hl
    rw [hlinks] at hl
    rcases hframe with rfl | ⟨rfl, -, -⟩
    · exact hl
    · exact List.mem_append_right _ hl
  refine ⟨?_, fun k hk => ?_⟩
  · rcases hframe with rfl | ⟨rfl, rfl, hfatal⟩
    · exact .inr ⟨rows, hrows, hlinks⟩
    · exact .inl ⟨hfatal, hlinks⟩
  obtain ⟨shown, hfetch⟩ := follow_meant other hrows (links html)[k] (hsub _ (List.getElem_mem hk))
  refine ⟨{ s with shown := shown }, ?_, rfl, target_meant other hfetch⟩
  simp only [tour, hpage, List.getElem?_eq_getElem hk, Option.bind_some]
  exact congrArg (Option.map _) hfetch

/-! ## A visit after one upload -/

/-- The calls that go on during some events of a visit. -/
def calls (es : List (TourEvent ι)) : List (ι × Outcome) :=
  es.filterMap fun | .call e => some e | _ => none

/-- Texts that read as themselves in a literal are stored as they are. -/
theorem decodes_of_inert {q : Request} (h : sqlInert q.name.bytes = true ∧ sqlInert q.description = true ∧
    sqlInert q.title = true ∧ selfReading q.ext = true) (a : Attributes) : (q.values a).Decodes (q.values a) := by
  have hf := (isOneInsert_iff _).mp ((isOneInsert_values_iff q a).mpr h)
  simp only [Values.fields, List.forall_mem_cons] at hf
  obtain ⟨h₁, h₂, h₃, h₄, h₅, h₆, h₇, -⟩ := hf
  exact ⟨decodeLiteral_selfReading h₁, decodeLiteral_selfReading h₂, decodeLiteral_selfReading h₃,
    decodeLiteral_selfReading h₄, decodeLiteral_selfReading h₅, decodeLiteral_selfReading h₆, decodeLiteral_selfReading h₇⟩

omit [DecidableEq ι] in
theorem storesOwn_of_inert (h : ∀ i, sqlInert (requests i).name.bytes = true ∧ sqlInert (requests i).description = true ∧
    sqlInert (requests i).title = true ∧ selfReading (requests i).ext = true) (s : Site ι) (e : ι × Outcome) :
    StoresOwn requests s e :=
  fun o _ => ⟨_, decodes_of_inert (h e.1) o.attrs⟩

/-- Where besides no command is run, every visit is as it is meant to be. -/
theorem inertTour_guarded (hq : ∀ i, sqlInert (requests i).name.bytes = true ∧ sqlInert (requests i).description = true ∧
    sqlInert (requests i).title = true ∧ selfReading (requests i).ext = true) {es : List (TourEvent ι)}
    (hes : ∀ c ∈ calls es, c.2.smuggles = false) (s : Tour ι) :
    (tour other thumbOf requests).Guarded (TourStoresOwn requests) s es := by
  refine Machine.guarded_of_events (fun e he s => ?_) s
  cases e with
  | call c => exact ⟨storesOwn_of_inert hq s.site c, tame_of_not_smuggles (hes c (List.mem_filterMap.mpr ⟨_, he, rfl⟩)) _⟩
  | _ => trivial

theorem sampleRequest_inert : sqlInert sampleRequest.name.bytes = true ∧ sqlInert sampleRequest.description = true ∧
    sqlInert sampleRequest.title = true ∧ selfReading sampleRequest.ext = true := by
  decide +kernel

def sampleTour : List (TourEvent Unit) :=
  ((sampleEvents sampleTmpName sampleAttributes).map fun out => .call ((), out)) ++
    [.typed (str "/php/player.php/first") none, .address, .typed (str "/php/player.php/0X1A") none]

theorem sampleTour_honest : ∀ c ∈ calls sampleTour, c.2.smuggles = false := by
  simp [sampleTour, calls, sampleEvents, TourEvent.address, Outcome.smuggles]

theorem sampleWorld_plain : ∀ r ∈ sampleWorld.db.rows, r.Plain := nofun

theorem sample_no_dead_link : ∃ s : Tour Unit,
    (tour (fun _ => none) sampleThumb fun _ => sampleRequest).run (.opening sampleWorld) sampleTour = some s ∧
      Meant s.table s.shown := by
  have hrun : ((tour (fun _ => none) sampleThumb fun _ => sampleRequest).run (.opening sampleWorld) sampleTour).isSome := by
    decide +kernel
  obtain ⟨s, hs⟩ := Option.isSome_iff_exists.mp hrun
  exact ⟨s, hs, (no_dead_link sampleWorld_plain (inertTour_guarded (fun _ => sampleRequest_inert) sampleTour_honest _) hs).1⟩

end Vortex
