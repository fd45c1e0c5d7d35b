import Vortex.Media

/-!
# Each upload is sent to its own video

A request finds its row again by its uuid alone. As long as every uuid that is
drawn is new, also among the requests of other processes, the rows and the
objects under it are the request's own.
-/

namespace Vortex

attribute [local irreducible] insertText

variable {thumbOf : Bytes → Bytes} {ι : Type*} (requests : ι → Request)

/-! ## What is to hold, and when -/

def Request.stored (q : Request) (o : Upload) : List Bytes :=
  (if o.putVideo.isSome then [q.keyname o.attrs.uuid] else []) ++
    if o.putThumb.isSome then [thumbName o.attrs.uuid] else []

structure OwnVideos (s : Site ι) : Prop where
  vid : ∀ i was v, s.locals i = .ended was (.player v) →
    ∃ o, s.upload i = some o ∧ o.row = some v ∧ ((requests i).values o.attrs).row v ∈ s.world.db.rows
  uuids : s.world.db.rows.Pairwise fun r r' => r.uuid ≠ r'.uuid
  objects : ∀ i j o o', i ≠ j → s.upload i = some o → s.upload j = some o' →
    ∀ k ∈ (requests i).stored o, k ∉ (requests j).stored o'

def Outcome.drawn : Outcome → Option Uniqid
  | .attributes a => some a.uuid
  | _ => none

def Site.inserting (s : Site ι) (e : ι × Outcome) : Option Upload :=
  match e.2, s.locals e.1 with
  | .done, .running o .preparedSQL => some o
  | _, _ => none

/-- The uuid that is drawn belongs to no other request and to no row. -/
def NewUuid (s : Site ι) (e : ι × Outcome) : Prop :=
  ∀ u ∈ e.2.drawn, (∀ j, ∀ o ∈ s.upload j, o.attrs.uuid ≠ u) ∧ ∀ r ∈ s.world.db.rows, r.uuid ≠ u.bytes

/-- The INSERT, if it is run, has the values of its request. -/
def OwnInsert (s : Site ι) (e : ι × Outcome) : Prop :=
  ∀ o ∈ s.inserting e,
    readInsert (insertText ((requests e.1).values o.attrs)) = some [(requests e.1).values o.attrs]

/-- What own videos ask of a call. -/
def DrawsApart (s : Site ι) (e : ι × Outcome) : Prop :=
  e.2.tame s.world ∧ NewUuid s e ∧ OwnInsert requests s e

/-! ## The invariant -/

structure Attributed (s : Site ι) : Prop where
  ordered : ∀ i, (s.locals i).ordered
  apart : ∀ i j o o', s.upload i = some o → s.upload j = some o' → o.attrs.uuid = o'.attrs.uuid → i = j
  uuids : s.world.db.rows.Pairwise fun r r' => r.uuid ≠ r'.uuid
  owner : ∀ i o, s.upload i = some o → ∀ r ∈ s.world.db.rows, r.uuid = o.attrs.uuid.bytes → o.row = some r.id
  vid : ∀ i was v, s.locals i = .ended was (.player v) → ∃ o, s.upload i = some o ∧ o.row = some v

theorem attributed_opening {w : World} (h : w.db.rows.Pairwise fun r r' => r.uuid ≠ r'.uuid) :
    Attributed (Site.opening w : Site ι) where
  ordered i := trivial
  apart i j o o' h := by cases h
  uuids := h
  owner i o h := by cases h
  vid i was v h := by cases h

theorem Uniqid.ext {u u' : Uniqid} (h : u.bytes = u'.bytes) : u = u' := by
  cases u; cases u'; cases h; rfl

section
variable [DecidableEq ι] {requests} {s s' : Site ι} {e : ι × Outcome}

theorem Attributed.keep (hs : Attributed s) (hn : NewUuid s e) (h : (site thumbOf requests).step s e = some s')
    (hdb : s'.world.db = s.world.db)
    (hup : ∀ o', s'.upload e.1 = some o' → e.2 = .attributes o'.attrs ∨
      ∃ o, s.upload e.1 = some o ∧ o.attrs = o'.attrs ∧ o.row = o'.row) : Attributed s' := by
  -- an upload of the new state is one of the old state, or has the uuid just drawn
  have origin : ∀ i o', s'.upload i = some o' → (i = e.1 ∧ e.2 = .attributes o'.attrs) ∨
      ∃ o, s.upload i = some o ∧ o.attrs = o'.attrs ∧ o.row = o'.row := by
    intro i o' ho'
    by_cases hi : i = e.1
    · subst hi
      rcases hup o' ho' with h | h
      · exact .inl ⟨rfl, h⟩
      · exact .inr h
    · rw [upload_other h hi] at ho'
      exact .inr ⟨o', ho', rfl, rfl⟩
  have drawn : ∀ {a}, e.2 = .attributes a →
      (∀ j, ∀ o ∈ s.upload j, o.attrs.uuid ≠ a.uuid) ∧ ∀ r ∈ s.world.db.rows, r.uuid ≠ a.uuid.bytes := by
    intro a ha
    exact hn a.uuid (by rw [ha]; rfl)
  obtain ⟨he, hother⟩ := site_step h
  refine ⟨site_ordered h hs.ordered, fun i j o o' ho ho' hu => ?_, ?_, fun i o ho r hr hu => ?_,
    fun i was v hl => ?_⟩
  · rcases origin i o ho with ⟨rfl, ha⟩ | ⟨p, hp, hpa, -⟩
    · rcases origin j o' ho' with ⟨rfl, -⟩ | ⟨p, hp, hpa, -⟩
      · rfl
      · exact absurd (by rw [hpa, hu]) ((drawn ha).1 j p hp)
    · rcases origin j o' ho' with ⟨rfl, ha⟩ | ⟨p', hp', hpa', -⟩
      · exact absurd (by rw [hpa, hu]) ((drawn ha).1 i p hp)
      · exact hs.apart i j p p' hp hp' (by rw [hpa, hpa', hu])
  · rw [hdb]
    exact hs.uuids
  · rw [hdb] at hr
    rcases origin i o ho with ⟨rfl, ha⟩ | ⟨p, hp, hpa, hrow⟩
    · exact absurd hu ((drawn ha).2 r hr)
    · rw [← hrow]
      exact hs.owner i p hp r hr (by rw [hpa, hu])
  · by_cases hi : i = e.1
    · subst hi
      obtain ⟨o, hl₀, rfl, hv, -⟩ := he.player hl
      obtain ⟨r, hr, hu, rfl⟩ := Table.idOfUuid_some hv
      have ho : s.upload e.1 = some o := by rw [Site.upload, hl₀]; rfl
      refine ⟨o, by rw [Site.upload, hl]; rfl, hs.owner e.1 o ho r hr hu⟩
    · rw [upload_other h hi]
      rw [hother i hi] at hl
      exact hs.vid i was v hl

theorem Attributed.insert (hs : Attributed s) (hi : OwnInsert requests s e)
    (h : (site thumbOf requests).step s e = some s') {o : Upload} {t : Table}
    (hl : s.locals e.1 = .running o .preparedSQL) (hd : e.2 = .done)
    (ht : s.world.db.execInsert (insertText ((requests e.1).values o.attrs)) = some t)
    (hw : s'.world = { s.world with db := t })
    (hl' : s'.locals e.1 = .running { o with row := ownRow (requests e.1) o.attrs s.world.db } .getVID) :
    Attributed s' := by
  have ho : s.upload e.1 = some o := by rw [Site.upload, hl]; rfl
  have hown : ownRow (requests e.1) o.attrs s.world.db = some s.world.db.nextId := by
    have := hi o (by rw [Site.inserting, hl, hd]; rfl)
    rw [ownRow, if_pos this]
  have hrows := ownRow_some hown ht
  rw [hown] at hl'
  have hnone : o.row = none := by
    have := hs.ordered e.1
    rw [hl] at this
    exact this.2.2
  -- before the INSERT no row has the request's uuid
  have hnew : ∀ r ∈ s.world.db.rows, r.uuid ≠ o.attrs.uuid.bytes := by
    intro r hr hu
    have := hs.owner e.1 o ho r hr hu
    rw [hnone] at this
    cases this
  obtain ⟨-, hother⟩ := site_step h
  have origin : ∀ i o', s'.upload i = some o' → ∃ p, s.upload i = some p ∧ p.attrs = o'.attrs ∧
      (i ≠ e.1 → p.row = o'.row) := by
    intro i o' ho'
    by_cases hie : i = e.1
    · subst hie
      rw [Site.upload, hl'] at ho'
      obtain rfl := Option.some.inj ho'
      exact ⟨o, ho, rfl, fun hne => absurd rfl hne⟩
    · rw [upload_other h hie] at ho'
      exact ⟨o', ho', rfl, fun _ => rfl⟩
  refine ⟨site_ordered h hs.ordered, fun i j p p' hp hp' hu => ?_, ?_, fun i p hp r hr hu => ?_,
    fun i was v hv => ?_⟩
  · obtain ⟨x, hx, hxa, -⟩ := origin i p hp
    obtain ⟨y, hy, hya, -⟩ := origin j p' hp'
    exact hs.apart i j x y hx hy (by rw [hxa, hya, hu])
  · rw [hw, hrows, List.pairwise_append]
    refine ⟨hs.uuids, List.pairwise_singleton .., fun r hr r' hr' => ?_⟩
    rw [List.mem_singleton.mp hr', row_uuid]
    exact hnew r hr
  · rw [hw, hrows] at hr
    obtain ⟨x, hx, hxa, hxr⟩ := origin i p hp
    rcases List.mem_append.mp hr with hr | hr
    · have hie : i ≠ e.1 := by
        rintro rfl
        rw [ho] at hx
        obtain rfl := Option.some.inj hx
        exact hnew r hr (by rw [hxa, hu])
      rw [← hxr hie]
      exact hs.owner i x hx r hr (by rw [hxa, hu])
    · rw [List.mem_singleton.mp hr, row_uuid] at hu
      have hie : i = e.1 := hs.apart i e.1 x o hx ho (by rw [hxa, Uniqid.ext hu])
      subst hie
      rw [Site.upload, hl'] at hp
      obtain rfl := Option.some.inj hp
      rw [List.mem_singleton.mp hr]
      rfl
  · by_cases hie : i = e.1
    · rw [hie, hl'] at hv
      cases hv
    · rw [upload_other h hie]
      rw [hother i hie] at hv
      exact hs.vid i was v hv

theorem Attributed.step (hs : Attributed s) (hg : DrawsApart requests s e)
    (h : (site thumbOf requests).step s e = some s') : Attributed s' := by
  rcases (site_step h).1.kept_or_inserted hg.1 with ⟨hdb, hup⟩ | ⟨o, t, hl, hd, ht, hw, hl'⟩
  · exact hs.keep hg.2.1 h hdb hup
  · exact hs.insert hg.2.2 h hl hd ht hw hl'

/-- In a run where every uuid is new when it is drawn, every INSERT has its
request's values and no call does more than it is meant to, each upload is sent
to its own row, uuids of rows are unique and no put replaces an object of
another request. -/
theorem own_videos {w : World} (hw : w.db.rows.Pairwise fun r r' => r.uuid ≠ r'.uuid) {es : List (ι × Outcome)}
    (hg : (site thumbOf requests).Guarded (DrawsApart requests) (.opening w) es)
    (h : (site thumbOf requests).run (.opening w) es = some s) : OwnVideos requests s := by
  have ha : Attributed s := Machine.guarded_invariant (fun _ _ _ hs hg h => hs.step hg h) (attributed_opening hw) hg h
  have hm := mediaInv_run (Machine.guarded_of_run (fun _ _ _ hg _ => hg.1) hg h) h
  refine ⟨fun i was v hl => ?_, ha.uuids, fun i j o o' hij ho ho' k hk hk' => hij ?_⟩
  · obtain ⟨o, ho, hr⟩ := ha.vid i was v hl
    exact ⟨o, ho, hr, (hm.media i o ho).row v hr⟩
  · apply ha.apart i j o o' ho ho'
    have hkey : ∀ (q : Request) (p : Upload), k ∈ q.stored p → ∃ x, k = p.attrs.uuid.bytes ++ x := by
      intro q p hp
      rcases List.mem_append.mp hp with hp | hp
      · split at hp
        · rw [List.mem_singleton.mp hp, keyname_eq]
          exact ⟨_, rfl⟩
        · cases hp
      · split at hp
        · rw [List.mem_singleton.mp hp, thumbName_eq]
          exact ⟨_, rfl⟩
        · cases hp
    obtain ⟨x, hx⟩ := hkey _ _ hk
    obtain ⟨x', hx'⟩ := hkey _ _ hk'
    exact uuid_of_key (hx.symm.trans hx')

end

/-- Events in which nothing is smuggled need no look at the stores. -/
theorem drawsApart_of_events {w : World} {es : List (ι × Outcome)} [DecidableEq ι]
    (hes : ∀ e ∈ es, e.2.smuggles = false)
    (hg : (site thumbOf requests).Guarded (fun s e => NewUuid s e ∧ OwnInsert requests s e) (.opening w) es) :
    (site thumbOf requests).Guarded (DrawsApart requests) (.opening w) es :=
  Machine.guarded_and (Machine.guarded_of_events (fun e he s => tame_of_not_smuggles (hes e he) s.world) _) hg

theorem sample_own_videos :
    ∃ s : Site Bool, OwnVideos (fun _ => sampleRequest) s ∧ (s.locals true).exit = some (.player 59) := by
  let requests := fun _ : Bool => sampleRequest
  let es := (sampleEvents sampleTmpName sampleAttributes).map (fun out => (false, out)) ++
    (sampleEvents laterTmpName laterAttributes).map fun out => (true, out)
  let run := (site sampleThumb requests).run (.opening sampleWorld) es
  have hg : (site sampleThumb requests).Guarded (fun s e => NewUuid s e ∧ OwnInsert requests s e)
      (.opening sampleWorld) es := by
    unfold NewUuid OwnInsert
    decide +kernel
  have hrun : run.map (fun s => (s.locals true).exit) = some (some (.player 59)) := by
    decide +kernel
  obtain ⟨s, hs, he⟩ := Option.map_eq_some_iff.mp hrun
  exact ⟨s, own_videos List.Pairwise.nil (drawsApart_of_events requests (by decide) hg) hs, he⟩

/-! ## Two processes, one clock -/

/-- No process draws a uuid twice. -/
def UnrepeatedIn {P : Type*} (process : ι → P) (s : Site ι) (e : ι × Outcome) : Prop :=
  ∀ u ∈ e.2.drawn, ∀ j, process j = process e.1 → ∀ o ∈ s.upload j, o.attrs.uuid ≠ u

/-- Two processes read the same microsecond: the second request is sent to the
video of the first. -/
theorem second_upload_sent_to_first :
    ¬ ∀ (requests : Bool → Request) (process : Bool → Bool) (es : List (Bool × Outcome)) (s : Site Bool),
      (∀ e ∈ es, e.2.smuggles = false) →
      (site sampleThumb requests).Guarded (fun s e => UnrepeatedIn process s e ∧ OwnInsert requests s e)
        (.opening sampleWorld) es →
      (site sampleThumb requests).run (.opening sampleWorld) es = some s → OwnVideos requests s := by
  intro h
  let requests := fun _ : Bool => sampleRequest
  let es := [false, true].flatMap fun i =>
    (sampleEvents (if i then laterTmpName else sampleTmpName) sampleAttributes).map fun out => (i, out)
  let run := (site sampleThumb requests).run (.opening sampleWorld) es
  have hg : (site sampleThumb requests).Guarded (fun s e => UnrepeatedIn id s e ∧ OwnInsert requests s e)
      (.opening sampleWorld) es := by
    unfold UnrepeatedIn OwnInsert
    decide +kernel
  have hvid : run.map (fun s => ((s.locals true).exit, (s.upload true).map fun o => o.row)) =
      some (some (.player 58), some (some 59)) := by
    decide +kernel
  obtain ⟨s, hs, hv⟩ := Option.map_eq_some_iff.mp hvid
  obtain ⟨he, hr⟩ := Prod.mk.inj hv
  obtain ⟨was, hl⟩ := Local.exit_some he
  obtain ⟨o, ho, hrow⟩ := Option.map_eq_some_iff.mp hr
  obtain ⟨o', ho', hrow', -⟩ := (h requests id es s (by decide) hg hs).vid true was 58 hl
  rw [ho, Option.some.injEq] at ho'
  rw [← ho', hrow] at hrow'
  exact absurd hrow' (by decide)

end Vortex
