import Vortex.Columns
import Vortex.OutputBuffer

/-!
# What the browser is sent

`verifyInput` echoes what it returns, so an upload prints its description, its
title and, later, its file name. `served` runs the site together with the
response of each request: a redirect counts only while nothing of the body has
left the output buffer.
-/

namespace Vortex

/-! ## Responses -/

/-- `output_buffering` in `php.ini`. -/
def outputBuffering : Nat := 4096

structure Response where
  output : OutputBuffer Byte outputBuffering
  -- the redirect among the headers
  location : Option Exit

def Response.opening : Response := ⟨.empty (by decide), none⟩

def Response.echo (r : Response) (x : Bytes) : Response := { r with output := r.output.write x }

/-- `header()` only warns when the headers are gone. -/
def Response.header (r : Response) (e : Exit) : Response :=
  if r.output.sent = [] then { r with location := some e } else r

def Exit.redirects : Exit → Bool
  | .error _ | .player _ => true
  | _ => false

/-- What a call echoes, in this order. A script that stops before
`preparedSQL` does not come to its first line. -/
def echoes (q : Request) : Local → Outcome → List Bytes
  | .received _, .attributes _ => [verifyInput q.description, verifyInput q.title]
  | .running _ .preparedSQL, .stop _ => []
  | .running _ .preparedSQL, _ => [verifyInput q.name.bytes]
  | _, _ => []

def respond (q : Request) (l : Local) (out : Outcome) (l' : Local) (r : Response) : Response :=
  let r := (echoes q l out).foldl .echo r
  match l'.exit with
  | some e => if e.redirects then r.header e else r
  | none => r

theorem foldl_echo_output (r : Response) (xs : List Bytes) :
    (xs.foldl .echo r).output = r.output.writeAll xs := by
  induction xs generalizing r with
  | nil => rfl
  | cons x xs ih =>
    rw [List.foldl_cons, ih]
    rfl

theorem foldl_echo_location (r : Response) (xs : List Bytes) : (xs.foldl .echo r).location = r.location := by
  induction xs generalizing r with
  | nil => rfl
  | cons x xs ih =>
    rw [List.foldl_cons, ih]
    rfl

theorem header_output (r : Response) (e : Exit) : (r.header e).output = r.output := by
  unfold Response.header
  split <;> rfl

theorem header_location {r : Response} (h : r.location = none) (e : Exit) :
    (r.header e).location = if r.output.sent = [] then some e else none := by
  unfold Response.header
  split
  · rfl
  · exact h

theorem respond_output (q : Request) (l : Local) (out : Outcome) (l' : Local) (r : Response) :
    (respond q l out l' r).output = r.output.writeAll (echoes q l out) := by
  unfold respond
  split
  · split
    · rw [header_output, foldl_echo_output]
    · exact foldl_echo_output ..
  · exact foldl_echo_output ..

theorem respond_location {q : Request} {l : Local} {out : Outcome} {l' : Local} {r : Response} {e : Exit}
    (hr : r.location = none) (he : l'.exit = some e) (h : e.redirects = true) :
    (respond q l out l' r).location = if (respond q l out l' r).output.sent = [] then some e else none := by
  rw [respond_output, respond, he]
  simp only [if_pos h]
  rw [header_location (by rw [foldl_echo_location, hr]), foldl_echo_output]

theorem respond_location_none {q : Request} {l : Local} {out : Outcome} {l' : Local} {r : Response}
    (hr : r.location = none) (he : l'.exit = none) : (respond q l out l' r).location = none := by
  rw [respond, he]
  exact (foldl_echo_location ..).trans hr

/-! ## The site and its responses -/

structure Served (ι : Type*) where
  site : Site ι
  responses : ι → Response

section
variable (thumbOf : Bytes → Bytes) {ι : Type*} [DecidableEq ι] (requests : ι → Request)

def served : Machine (Served ι) (ι × Outcome) where
  step s e := ((site thumbOf requests).step s.site e).map fun t =>
    ⟨t, Function.update s.responses e.1
      (respond (requests e.1) (s.site.locals e.1) e.2 (t.locals e.1) (s.responses e.1))⟩

def Served.opening (w : World) : Served ι := ⟨.opening w, fun _ => .opening⟩

variable {thumbOf requests}

theorem served_step {s s' : Served ι} {e : ι × Outcome} (h : (served thumbOf requests).step s e = some s') :
    (site thumbOf requests).step s.site e = some s'.site ∧
      s'.responses e.1 =
        respond (requests e.1) (s.site.locals e.1) e.2 (s'.site.locals e.1) (s.responses e.1) ∧
      ∀ j, j ≠ e.1 → s'.responses j = s.responses j := by
  obtain ⟨t, ht, rfl⟩ := Option.map_eq_some_iff.mp h
  exact ⟨ht, Function.update_self .., fun j hj => Function.update_of_ne hj _ _⟩

/-- The responses take no part in what the site does. -/
theorem served_run (s : Served ι) (es : List (ι × Outcome)) :
    ((served thumbOf requests).run s es).map Served.site = (site thumbOf requests).run s.site es := by
  refine Machine.run_map Served.site (fun s e => ?_) s es
  rw [served, Option.map_map]
  exact Option.map_id'

end

/-! ## What is in the buffer -/

/-- The texts echoed before an exit of the stage. -/
def Request.texts (q : Request) : Stage → List Bytes
  | .preparedSQL | .getVID => [verifyInput q.description, verifyInput q.title, verifyInput q.name.bytes]
  | _ => [verifyInput q.description, verifyInput q.title]

/-- The texts echoed before the stage begins: `preparedSQL` prints the name. -/
def Request.textsBefore (q : Request) : Stage → List Bytes
  | .getVID => [verifyInput q.description, verifyInput q.title, verifyInput q.name.bytes]
  | _ => [verifyInput q.description, verifyInput q.title]

/-- Only redirects look at the buffer, so an exit without one may leave it as it likes. -/
def Response.Good (q : Request) (r : Response) : Local → Prop
  | .waiting | .received _ => r = .opening
  | .running _ stage => r.location = none ∧ r.output = Response.opening.output.writeAll (q.textsBefore stage)
  | .ended none e => e.redirects = true → r.output.sent = [] ∧ r.location = some e
  | .ended (some (_, stage)) e => e.redirects = true →
    r.output = Response.opening.output.writeAll (q.texts stage) ∧
      r.location = if r.output.sent = [] then some e else none

theorem texts_eq (q : Request) (o : Upload) {stage : Stage} {out : Outcome} (h : ∀ shutdown, out ≠ .stop shutdown) :
    q.textsBefore stage ++ echoes q (.running o stage) out = q.texts stage := by
  cases stage with
  | preparedSQL => cases out <;> first | rfl | exact absurd rfl (h _)
  | _ => simp [Request.textsBefore, Request.texts, echoes]

section
variable {thumbOf : Bytes → Bytes} {q : Request} {w w' : World} {l l' : Local} {out : Outcome}

/-- A call goes on to a stage before which the same texts are due, or ends the
script in its own stage. -/
theorem Effect.goes_on (h : Effect thumbOf q w l out w' l') {o : Upload} {stage : Stage} (hl : l = .running o stage) :
    (∃ o' stage', l' = .running o' stage' ∧ q.textsBefore stage' = q.texts stage) ∨
      ∃ o' e, l' = .ended (some (o', stage)) e := by
  cases h with
  | received | refused | attributes | dropped | killed => cases hl
  | smuggled o₁ zero after =>
    cases hl
    cases zero
    · exact .inr ⟨_, _, rfl⟩
    · exact .inl ⟨_, _, rfl, rfl⟩
  | unmoved | leaves | found | quit =>
    cases hl
    exact .inr ⟨_, _, rfl⟩
  | _ =>
    cases hl
    exact .inl ⟨_, _, rfl, rfl⟩

theorem respond_waiting (h : act thumbOf q w .waiting out = some (w', l')) :
    (respond q .waiting out l' .opening).Good q l' := by
  cases out with
  | received path =>
    change (if isUploadName path && (w.tmp path).isNone then some (_, Local.received path) else none) = _ at h
    split at h
    · cases h
      rfl
    · cases h
  | fail | stop =>
    cases h
    intro he
    refine ⟨respond_output .. ▸ rfl, ?_⟩
    rw [respond_location rfl rfl he, respond_output]
    rfl
  | _ => cases h

theorem respond_received {path : Bytes} (h : act thumbOf q w (.received path) out = some (w', l')) :
    (respond q (.received path) out l' .opening).Good q l' := by
  cases out with
  | attributes a =>
    cases h
    exact ⟨respond_location_none rfl rfl, respond_output ..⟩
  | fail | stop =>
    cases h
    intro he
    refine ⟨respond_output .. ▸ rfl, ?_⟩
    rw [respond_location rfl rfl he, respond_output]
    rfl
  | _ => cases h

theorem respond_running {o : Upload} {stage : Stage} (h : act thumbOf q w (.running o stage) out = some (w', l'))
    {r : Response} (hr : r.Good q (.running o stage)) : (respond q (.running o stage) out l' r).Good q l' := by
  obtain ⟨hloc, hout⟩ := hr
  by_cases hstop : ∃ shutdown, out = .stop shutdown
  · obtain ⟨shutdown, rfl⟩ := hstop
    cases h
    intro he
    cases he
  · have htexts : (respond q (.running o stage) out l' r).output =
        Response.opening.output.writeAll (q.texts stage) := by
      rw [respond_output, hout, ← OutputBuffer.writeAll_append, texts_eq q o (not_exists.mp hstop)]
    rcases (act_effect thumbOf h).goes_on rfl with ⟨o', stage', rfl, hnext⟩ | ⟨o', e, rfl⟩
    · exact ⟨respond_location_none hloc rfl, by rw [htexts, hnext]⟩
    · intro he
      exact ⟨htexts, respond_location hloc rfl he⟩

theorem respond_good (h : act thumbOf q w l out = some (w', l')) {r : Response} (hr : r.Good q l) :
    (respond q l out l' r).Good q l' := by
  cases l with
  | waiting =>
    obtain rfl : r = .opening := hr
    exact respond_waiting h
  | received path =>
    obtain rfl : r = .opening := hr
    exact respond_received h
  | running o stage => exact respond_running h hr
  | ended => cases h

end

section
variable {thumbOf : Bytes → Bytes} {ι : Type*} [DecidableEq ι] {requests : ι → Request}

theorem served_good {w : World} {s : Served ι} {es : List (ι × Outcome)}
    (h : (served thumbOf requests).run (.opening w) es = some s) (i : ι) :
    (s.responses i).Good (requests i) (s.site.locals i) := by
  let I := fun s : Served ι => ∀ i, (s.responses i).Good (requests i) (s.site.locals i)
  have h₀ : I (.opening w) := fun _ => rfl
  refine Machine.run_invariant (I := I) (fun s e s' hs hst j => ?_) h₀ h i
  obtain ⟨hsite, hresp, hother⟩ := served_step hst
  by_cases hj : j = e.1
  · subst hj
    obtain ⟨⟨w', l'⟩, hact, hs'⟩ := Option.map_eq_some_iff.mp hsite
    have hl' : s'.site.locals e.1 = l' := by
      rw [← hs']
      exact Function.update_self ..
    rw [hresp, hl']
    exact respond_good hact (hs e.1)
  · rw [hother j hj, (site_step hsite).2 j hj]
    exact hs j

/-! ## Which redirects take effect -/

/-- The bytes echoed before an exit of the stage. -/
def Request.echoedLength (q : Request) (stage : Stage) : Nat :=
  escapedLength q.description + escapedLength q.title +
    if stage = .preparedSQL ∨ stage = .getVID then escapedLength q.name.bytes else 0

theorem texts_length (q : Request) (stage : Stage) : (q.texts stage).flatten.length = q.echoedLength stage := by
  cases stage <;> simp [Request.texts, Request.echoedLength, escapedLength_eq, Nat.add_assoc]

theorem redirect_sent {w : World} {s : Served ι} {es : List (ι × Outcome)}
    (h : (served thumbOf requests).run (.opening w) es = some s) {i : ι} {o : Upload} {stage : Stage} {e : Exit}
    (he : s.site.locals i = .ended (some (o, stage)) e) (hr : e.redirects = true) :
    ((s.responses i).output.sent = [] ↔ (requests i).echoedLength stage < outputBuffering) ∧
      (s.responses i).location = if (s.responses i).output.sent = [] then some e else none := by
  have hgood := served_good h i
  rw [he] at hgood
  obtain ⟨hout, hloc⟩ := hgood hr
  refine ⟨?_, hloc⟩
  rw [hout, ← texts_length]
  exact OutputBuffer.empty_writeAll_sent _ _

/-- At each redirect after the attributes, nothing of the body was sent and
the redirect takes effect, exactly when the texts echoed so far are shorter
than the buffer. -/
theorem redirect_effective_iff {w : World} {s : Served ι} {es : List (ι × Outcome)}
    (h : (served thumbOf requests).run (.opening w) es = some s) {i : ι} {o : Upload} {stage : Stage} {e : Exit}
    (he : s.site.locals i = .ended (some (o, stage)) e) (hr : e.redirects = true) :
    ((s.responses i).output.sent = [] ∧ (s.responses i).location = some e) ↔
      (requests i).echoedLength stage < outputBuffering := by
  obtain ⟨hsent, hloc⟩ := redirect_sent h he hr
  rw [hloc, ← hsent]
  constructor
  · exact And.left
  · intro hs
    exact ⟨hs, if_pos hs⟩

end

theorem sample_redirect_effective :
    ∃ s : Served Unit, (s.site.locals ()).exit = some (.player 58) ∧ (s.responses ()).location = some (.player 58) := by
  let es := (sampleEvents sampleTmpName sampleAttributes).map fun out => ((), out)
  let run := (served sampleThumb fun _ => sampleRequest).run (.opening sampleWorld) es
  have hrun : run.map (fun s => ((s.site.locals ()).exit, (s.site.upload ()).isSome)) = some (some (.player 58), true) := by
    decide +kernel
  obtain ⟨s, hs, hp⟩ := Option.map_eq_some_iff.mp hrun
  obtain ⟨he, hu⟩ := Prod.mk.inj hp
  obtain ⟨o, ho⟩ := Option.isSome_iff_exists.mp hu
  obtain ⟨stage, hl⟩ := Local.exit_upload he ho
  have hlen : sampleRequest.echoedLength stage < outputBuffering := by cases stage <;> decide +kernel
  exact ⟨s, he, ((redirect_effective_iff hs hl rfl).mpr hlen).2⟩

/-- 683 quotation marks are escaped to 4098 bytes. -/
theorem long_title_redirect_lost :
    ¬ ∀ (q : Request) (s : Served Unit) (es : List (Unit × Outcome)) (o : Upload) (stage : Stage) (e : Exit),
      (served sampleThumb fun _ => q).run (.opening sampleWorld) es = some s →
      s.site.locals () = .ended (some (o, stage)) e → e.redirects = true →
      (s.responses ()).output.sent = [] ∧ (s.responses ()).location = some e := by
  intro h
  let q : Request := { sampleRequest with title := List.replicate 683 Ascii.dquote }
  let run := (served sampleThumb fun _ => q).run (.opening sampleWorld)
    [((), .received sampleTmpName), ((), .attributes sampleAttributes), ((), .fail)]
  have hrun : run.map (fun s => ((s.site.locals ()).exit, (s.site.upload ()).isSome, (s.responses ()).location)) =
      some (some (.error 21), true, none) := by
    decide +kernel
  obtain ⟨s, hs, hp⟩ := Option.map_eq_some_iff.mp hrun
  obtain ⟨he, hp⟩ := Prod.mk.inj hp
  obtain ⟨hu, hloc⟩ := Prod.mk.inj hp
  obtain ⟨o, ho⟩ := Option.isSome_iff_exists.mp hu
  obtain ⟨stage, hl⟩ := Local.exit_upload he ho
  have := (h q s _ o stage _ hs hl rfl).2
  rw [hloc] at this
  cases this

/-! ## What is stored is shown -/

section
variable {thumbOf : Bytes → Bytes} {ι : Type*} [DecidableEq ι] {requests : ι → Request}

/-- The browser is led to an error page. -/
def Served.endsOnError (s : Served ι) (i : ι) : Prop :=
  ∃ code, (s.site.locals i).exit = some (.error code) ∧ (s.responses i).location = some (.error code)

/-- Its redirect is to an error and not lost. -/
theorem endsOnError_iff {w : World} {s : Served ι} {es : List (ι × Outcome)}
    (h : (served thumbOf requests).run (.opening w) es = some s) {i : ι} {o : Upload} {stage : Stage} {e : Exit}
    (he : s.site.locals i = .ended (some (o, stage)) e) :
    s.endsOnError i ↔ (∃ code, e = .error code) ∧ (requests i).echoedLength stage < outputBuffering := by
  rw [Served.endsOnError, he]
  constructor
  · rintro ⟨code, hcode, hloc⟩
    obtain rfl := Option.some.inj hcode
    obtain ⟨hsent, hloc'⟩ := redirect_sent h he rfl
    refine ⟨⟨code, rfl⟩, hsent.mp ?_⟩
    by_contra hne
    rw [hloc', if_neg hne] at hloc
    cases hloc
  · rintro ⟨⟨code, rfl⟩, hlen⟩
    obtain ⟨hsent, hloc⟩ := redirect_sent h he rfl
    rw [if_pos (hsent.mpr hlen)] at hloc
    exact ⟨code, rfl, hloc⟩

/-- The row of an upload shows, from then on, what was inserted, or the upload
ends on an error page, exactly when its texts fit, or the last connection fails
and the redirect is not lost. The redirect goes to this row, unless another one
has the uuid. -/
theorem shown_as_inserted_iff {w : World} {s : Served ι} {es : List (ι × Outcome)}
    (htame : (site thumbOf requests).Guarded (fun s e => e.2.tame s.world) (.opening w) es)
    (h : (served thumbOf requests).run (.opening w) es = some s) {i : ι} {o : Upload} {stage : Stage} {e : Exit}
    (he : s.site.locals i = .ended (some (o, stage)) e) {id : Nat} (hid : o.row = some id)
    (hd : isHms o.attrs.duration.bytes = true) {t : Table} (ht : s.site.world.db.rows <+: t.rows) :
    ((s.endsOnError i ∨ ∃ r, t.byId id = some r ∧ Kept ((requests i).values o.attrs) r) ↔
        ((lastOutcome i es = some .fail ∧ (requests i).echoedLength .getVID < outputBuffering) ∨
          FitsAsWritten (requests i) o.attrs)) ∧
      ∀ v, e = .player v → v = id ∨ ∃ r ∈ s.site.world.db.rows, r.id ≠ id ∧ r.uuid = o.attrs.uuid.bytes := by
  have hsite : (site thumbOf requests).run (.opening w) es = some s.site := by
    have hrun := congrArg (Option.map Served.site) h
    rw [served_run] at hrun
    exact hrun
  obtain rfl : stage = .getVID := by
    have hord := (mediaInv_run htame hsite).ordered i
    rw [he] at hord
    change o.ordered stage at hord
    cases stage with
    | getVID => rfl
    | _ => exact absurd (hid.symm.trans hord.2.2) nofun
  obtain ⟨s₁, w₁, out, hm, hrows, hlast, hact⟩ := ended_by htame hsite he
  have hl := (act_effect thumbOf hact).lookup
  rw [hl] at hact
  have hrow : ((requests i).values o.attrs).row id ∈ s₁.world.db.rows :=
    (hm.media i o (by rw [Site.upload, hl]; rfl)).row id hid
  have herr := lookup_error hact ⟨_, hrow, row_uuid _ _ _⟩
  have hbyId : t.byId id = some (((requests i).values o.attrs).row id) :=
    t.byId_of_mem (ht.subset (hrows.subset hrow))
  refine ⟨or_congr ?_ ?_, fun v hv => ?_⟩
  · rw [hlast, Option.some.injEq, ← herr]
    exact endsOnError_iff h he
  · rw [hbyId, ← kept_iff_fits hd id]
    constructor
    · rintro ⟨r, hr, hk⟩
      rw [Option.some.inj hr]
      exact hk
    · intro hk
      exact ⟨_, rfl, hk⟩
  · subst hv
    obtain ⟨o', ho', hwas, hv, -⟩ := (act_effect thumbOf hact).player rfl
    cases hwas
    obtain ⟨r, hr, hu, rfl⟩ := Table.idOfUuid_some hv
    by_cases hrid : r.id = id
    · exact .inl hrid
    · exact .inr ⟨r, hrows.subset hr, hrid, hu⟩

end

theorem sample_shown_as_inserted :
    ∃ (s : Served Unit) (o : Upload) (r : Row), s.site.upload () = some o ∧ s.site.world.db.byId 58 = some r ∧
      Kept (sampleRequest.values o.attrs) r := by
  let es := (sampleEvents sampleTmpName sampleAttributes).map fun out => ((), out)
  let run := (served sampleThumb fun _ => sampleRequest).run (.opening sampleWorld) es
  have hrun : run.map (fun s => ((s.site.locals ()).exit, (s.site.upload ()).map fun o =>
      (o.row, isHms o.attrs.duration.bytes, o.attrs.bitrate.bytes))) =
      some (some (.player 58), some (some 58, true, str "900")) := by
    decide +kernel
  obtain ⟨s, hs, hp⟩ := Option.map_eq_some_iff.mp hrun
  obtain ⟨he, hu⟩ := Prod.mk.inj hp
  obtain ⟨o, ho, hp⟩ := Option.map_eq_some_iff.mp hu
  obtain ⟨hid, hp⟩ := Prod.mk.inj hp
  obtain ⟨hd, hb⟩ := Prod.mk.inj hp
  obtain ⟨stage, hl⟩ := Local.exit_upload he ho
  have hfits : FitsAsWritten sampleRequest o.attrs :=
    ⟨⟨by decide +kernel, by decide +kernel, by decide +kernel, by rw [hb]; decide +kernel⟩, by rw [hb]; decide +kernel⟩
  have htame : (site sampleThumb fun _ => sampleRequest).Guarded (fun s e => e.2.tame s.world) (.opening sampleWorld) es :=
    Machine.guarded_of_events (fun e hmem s => tame_of_not_smuggles ((by decide : ∀ e ∈ es, e.2.smuggles = false) e hmem) _) _
  obtain ⟨hiff, -⟩ := shown_as_inserted_iff htame hs hl hid hd (List.prefix_refl _)
  rcases hiff.mpr (.inr hfits) with ⟨code, hc, -⟩ | ⟨r, hr, hk⟩
  · rw [he] at hc
    cases hc
  · exact ⟨s, o, r, ho, hr, hk⟩

/-- 52 ampersands, well within the 140 characters of the form, make 260 bytes. -/
theorem long_description_cut :
    ¬ ∀ (q : Request) (s : Served Unit) (es : List (Unit × Outcome)) (o : Upload) (stage : Stage) (e : Exit) (id : Nat),
      q.description.length ≤ 140 → (served sampleThumb fun _ => q).run (.opening sampleWorld) es = some s →
      s.site.locals () = .ended (some (o, stage)) e → o.row = some id → isHms o.attrs.duration.bytes = true →
      s.endsOnError () ∨ ∃ r, s.site.world.db.byId id = some r ∧ Kept (q.values o.attrs) r := by
  intro h
  let q : Request := { sampleRequest with description := List.replicate 52 Ascii.amp }
  let es := (sampleEvents sampleTmpName sampleAttributes).map fun out => ((), out)
  let run := (served sampleThumb fun _ => q).run (.opening sampleWorld) es
  have hrun : run.map (fun s => ((s.site.locals ()).exit, (s.site.world.db.byId 58).map fun r => r.description.length,
      (s.site.upload ()).map fun o => (o.row, isHms o.attrs.duration.bytes))) =
      some (some (.player 58), some 255, some (some 58, true)) := by
    decide +kernel
  obtain ⟨s, hs, hp⟩ := Option.map_eq_some_iff.mp hrun
  obtain ⟨he, hp⟩ := Prod.mk.inj hp
  obtain ⟨hr, hu⟩ := Prod.mk.inj hp
  obtain ⟨o, ho, hp⟩ := Option.map_eq_some_iff.mp hu
  obtain ⟨hid, hd⟩ := Prod.mk.inj hp
  obtain ⟨stage, hl⟩ := Local.exit_upload he ho
  obtain ⟨r, hr, hlen⟩ := Option.map_eq_some_iff.mp hr
  rcases h q s es o stage _ 58 (by decide +kernel) hs hl hid hd with ⟨code, hc, -⟩ | ⟨r', hr', hk⟩
  · rw [he] at hc
    cases hc
  · obtain rfl := Option.some.inj (hr.symm.trans hr')
    have : (verifyInput q.description).length = 255 := by
      rw [← hlen, hk.description]
      rfl
    exact absurd this (by decide +kernel)

end Vortex
