import Vortex.Catalogue
import Vortex.Mixing
import Vortex.OwnVideo
import Vortex.Playback

/-!
# The site publishes a catalogue

Seen from outside, the many calls of the uploads side by side come down to one
publication each, at the INSERT. Where the uploads keep apart, the site is a
catalogue: the rows are its entries, and the objects of every entry stay what
its owner uploaded, at every later point of the run.
-/

namespace Vortex

attribute [local irreducible] insertText

variable {thumbOf : Bytes → Bytes} {ι : Type*} (requests : ι → Request)

abbrev Published (ι : Type*) := Catalogue ι fun a : Attributes => a.uuid

/-! ## Publications -/

/-- The publication that a call is, if it is one. -/
def publication (s : Site ι) (e : ι × Outcome) : List (ι × Attributes) :=
  match s.inserting e with
  | none => []
  | some o => if (s.world.db.execInsert (insertText ((requests e.1).values o.attrs))).isSome then [(e.1, o.attrs)] else []

def entryRow (e : Entry ι Attributes) : Row := ((requests e.owner).values e.item).row e.id

/-- The objects hold what the request brought, and the thumbnail made of it. -/
def Stored (thumbOf : Bytes → Bytes) (q : Request) (bucket : Store) (o : Upload) : Prop :=
  (o.putVideo.isSome → bucket (q.keyname o.attrs.uuid) = some q.content) ∧
    (o.putThumb.isSome → bucket (thumbName o.attrs.uuid) = some (thumbOf q.content))

/-- `c` is what the site has published since `w`. -/
structure Publishes (w : World) (s : Site ι) (c : Published ι) : Prop where
  rows : s.world.db.rows = w.db.rows ++ c.entries.map (entryRow requests)
  nextId : s.world.db.nextId = c.nextId
  entry : ∀ i o, s.upload i = some o → ∀ id, o.row = some id → ⟨i, o.attrs, id⟩ ∈ c.entries
  upload : ∀ e ∈ c.entries, ∃ o, s.upload e.owner = some o ∧ o.attrs = e.item ∧ o.row = some e.id

/-- What the uploads of a run keep. -/
structure Apart (thumbOf : Bytes → Bytes) (s : Site ι) : Prop where
  media : MediaInv requests s
  attributed : Attributed s
  unmixed : Unmixed requests thumbOf s
  stored : ∀ i o, s.upload i = some o → Stored thumbOf (requests i) s.world.bucket o

def KeepsApart (s : Site ι) (e : ι × Outcome) : Prop :=
  WritesApart requests s e ∧ NewUuid s e ∧ OwnInsert requests s e

/-! ## The objects stay -/

section
variable {q : Request} {w w' : World} {l l' : Local} {out : Outcome}

/-- A request writes to objects under its own uuid only. -/
theorem Effect.bucket_other (h : Effect thumbOf q w l out w' l') (ht : out.tame w) {k : Bytes}
    (hk : ∀ o, l.upload = some o → ∀ x, k ≠ o.attrs.uuid.bytes ++ x) : w'.bucket k = w.bucket k := by
  cases h with
  | putVideo o b hb =>
    refine Function.update_of_ne ?_ _ _
    rw [keyname_eq]
    exact hk o rfl _
  | putThumb o b hb =>
    refine Function.update_of_ne ?_ _ _
    rw [thumbName_eq]
    exact hk o rfl _
  | smuggled => rw [ht.1]
  | _ => rfl

theorem Effect.stored (h : Effect thumbOf q w l out w' l') (hx : q.ext ≠ str "jpg") (hl : l.ordered)
    (hf : OwnFiles thumbOf q w.tmp l) (hs : ∀ o, l.upload = some o → Stored thumbOf q w.bucket o) :
    ∀ o, l'.upload = some o → Stored thumbOf q w'.bucket o := by
  intro o' ho'
  cases h with
  | received | refused | dropped | killed => cases ho'
  | attributes path a =>
    cases ho'
    exact ⟨nofun, nofun⟩
  | smuggled o zero after =>
    obtain ⟨hv, ht, -⟩ : o.putVideo = none ∧ o.putThumb = none ∧ o.row = none := hl
    obtain rfl : o = o' := by cases zero <;> exact Option.some.inj ho'
    unfold Stored
    simp [hv, ht]
  | putVideo o b hb =>
    cases ho'
    obtain rfl := hf.1 b hb
    have hnone : o.putThumb = none := hl.2.1
    exact ⟨fun _ => Function.update_self .., fun ht => by rw [hnone] at ht; cases ht⟩
  | putThumb o b hb =>
    cases ho'
    obtain rfl := hf b hb
    refine ⟨fun _ => ?_, fun _ => Function.update_self ..⟩
    change Function.update w.bucket (thumbName o.attrs.uuid) _ (q.keyname o.attrs.uuid) = _
    rw [Function.update_of_ne (keyname_ne_thumbName hx)]
    exact (hs o rfl).1 hl.1
  | inserted o t ht =>
    cases ho'
    exact hs o rfl
  | _ => exact hs o' ho'

/-- An upload goes on with its attributes and its row, or begins without one,
unless the call is its INSERT. -/
theorem Effect.kept_or_published (h : Effect thumbOf q w l out w' l') (ht : out.tame w) :
    (w'.db = w.db ∧ ((l.upload = none ∧ ∀ o', l'.upload = some o' → o'.row = none) ∨
      ∃ o o', l.upload = some o ∧ l'.upload = some o' ∧ o'.attrs = o.attrs ∧ o'.row = o.row)) ∨
    ∃ o t, l = .running o .preparedSQL ∧ out = .done ∧
      w.db.execInsert (insertText (q.values o.attrs)) = some t := by
  cases h with
  | inserted o t hins => exact .inr ⟨o, t, rfl, rfl, hins⟩
  | attributes path a =>
    refine .inl ⟨rfl, .inl ⟨rfl, fun o' ho' => ?_⟩⟩
    cases ho'
    rfl
  | received | refused | dropped | killed => exact .inl ⟨rfl, .inl ⟨rfl, nofun⟩⟩
  | smuggled o zero after => cases zero <;> exact .inl ⟨ht.2, .inr ⟨o, o, rfl, rfl, rfl, rfl⟩⟩
  | _ => exact .inl ⟨rfl, .inr ⟨_, _, rfl, rfl, rfl, rfl⟩⟩

end

/-! ## One call -/

variable {requests} {w : World} {s s' : Site ι} {e : ι × Outcome} {c : Published ι}

theorem WritesApart.tame [DecidableEq ι] (hg : WritesApart requests s e) (h : (site thumbOf requests).step s e = some s') :
    e.2.tame s.world := tame_of_inert (fun o ho => (hg.2 o ho).1.1) h

theorem KeepsApart.draws [DecidableEq ι] (hg : KeepsApart requests s e) (h : (site thumbOf requests).step s e = some s') :
    DrawsApart requests s e := ⟨hg.1.tame h, hg.2⟩

theorem inserting_some {o : Upload} : s.inserting e = some o ↔ e.2 = .done ∧ s.locals e.1 = .running o .preparedSQL := by
  unfold Site.inserting
  constructor
  · intro h
    split at h
    · rename_i hd hl
      cases h
      exact ⟨hd, hl⟩
    · cases h
  · rintro ⟨hd, hl⟩
    rw [hd, hl]

theorem act_inserted {q : Request} {o : Upload} {t : Table} (ht : w.db.execInsert (insertText (q.values o.attrs)) = some t) :
    act thumbOf q w (.running o .preparedSQL) .done =
      some ({ w with db := t }, .running { o with row := ownRow q o.attrs w.db } .getVID) := by
  have hcall : act thumbOf q w (.running o .preparedSQL) .done = preparedSQL q w o .done := by rfl
  rw [hcall]
  unfold preparedSQL
  simp only
  rw [ht]

/-- Nothing of the request's, and nothing under its uuid, is in the catalogue
before its INSERT. -/
theorem Publishes.new (hs : Publishes requests w s c) (ha : Attributed s) {i : ι} {o : Upload} (ho : s.upload i = some o)
    (hnone : o.row = none) : c.New (i, o.attrs) := by
  have howner : ∀ x ∈ c.entries, x.owner ≠ i := by
    rintro x hx rfl
    obtain ⟨p, hp, -, hr⟩ := hs.upload x hx
    obtain rfl : o = p := Option.some.inj (ho.symm.trans hp)
    rw [hnone] at hr
    cases hr
  refine fun x hx => ⟨howner x hx, fun hu => howner x hx ?_⟩
  obtain ⟨p, hp, hpa, -⟩ := hs.upload x hx
  exact ha.apart x.owner i p o hp ho (by rw [hpa]; exact hu)

theorem publishes_opening (hw : w.db.rows.Pairwise fun r r' => r.uuid ≠ r'.uuid) :
    Apart requests thumbOf (.opening w) ∧ Publishes requests w (.opening w) (.empty w.db.nextId) where
  left := ⟨mediaInv_opening w, attributed_opening hw, ⟨fun _ => trivial, nofun⟩, nofun⟩
  right := ⟨by simp [Site.opening, Catalogue.empty], rfl, nofun, nofun⟩

variable [DecidableEq ι]

theorem Apart.step (hx : ∀ i, (requests i).ext ≠ str "jpg") (hs : Apart requests thumbOf s)
    (hg : KeepsApart requests s e) (h : (site thumbOf requests).step s e = some s') :
    Apart requests thumbOf s' := by
  obtain ⟨he, hother⟩ := site_step h
  refine ⟨hs.media.step (hg.1.tame h) h, hs.attributed.step (hg.draws h) h, hs.unmixed.step hg.1 h, fun i o ho => ?_⟩
  by_cases hi : i = e.1
  · subst hi
    exact he.stored (hx e.1) (hs.media.ordered e.1) (hs.unmixed.files e.1) (hs.stored e.1) o ho
  · rw [upload_other h hi] at ho
    have hkey : ∀ x, s'.world.bucket (o.attrs.uuid.bytes ++ x) = s.world.bucket (o.attrs.uuid.bytes ++ x) := by
      intro x
      refine he.bucket_other (hg.1.tame h) fun o' ho' y hxy => hi ?_
      exact hs.attributed.apart i e.1 o o' ho ho' (uuid_of_key hxy)
    have hso := hs.stored i o ho
    unfold Stored at hso ⊢
    rw [keyname_eq, thumbName_eq, hkey, hkey, ← keyname_eq, ← thumbName_eq]
    exact hso

/-- A call that is a publication, seen from the table: a row of the request's
own is added. -/
theorem published_step (hs : Apart requests thumbOf s) (hg : KeepsApart requests s e)
    (h : (site thumbOf requests).step s e = some s') {o : Upload} {t : Table} (hd : e.2 = .done)
    (hl : s.locals e.1 = .running o .preparedSQL)
    (ht : s.world.db.execInsert (insertText ((requests e.1).values o.attrs)) = some t) :
    publication requests s e = [(e.1, o.attrs)] ∧ o.row = none ∧
      s'.world.db.rows = s.world.db.rows ++ [((requests e.1).values o.attrs).row s.world.db.nextId] ∧
      s'.world.db.nextId = s.world.db.nextId + 1 ∧
      s'.upload e.1 = some { o with row := some s.world.db.nextId } := by
  have hins : s.inserting e = some o := inserting_some.mpr ⟨hd, hl⟩
  have hread := hg.2.2 o (by rw [hins]; rfl)
  have hnone : o.row = none := by
    have := hs.media.ordered e.1
    rw [hl] at this
    exact this.2.2
  obtain ⟨⟨w', l'⟩, ha, rfl⟩ := Option.map_eq_some_iff.mp h
  rw [hl, hd, act_inserted ht, ownRow, if_pos hread] at ha
  obtain ⟨rfl, rfl⟩ := Prod.mk.inj (Option.some.inj ha)
  have hrows : t.rows = s.world.db.rows ++ [((requests e.1).values o.attrs).row s.world.db.nextId] ∧
      t.nextId = s.world.db.nextId + 1 := by
    rw [Table.execInsert, hread] at ht
    change s.world.db.insertAll [(requests e.1).values o.attrs] = some t at ht
    unfold Table.insertAll at ht
    split at ht
    · cases ht
    · rename_i t₁ h₁
      cases ht
      exact Table.insert_rows h₁
  refine ⟨?_, hnone, hrows.1, hrows.2, ?_⟩
  · rw [publication, hins]
    simp only
    rw [ht]
    rfl
  · rw [Site.upload]
    change (Function.update s.locals e.1 _ e.1).upload = _
    rw [Function.update_self]
    rfl

theorem Publishes.keep (hs : Publishes requests w s c) (ht : e.2.tame s.world)
    (h : (site thumbOf requests).step s e = some s')
    (hn : ¬ ∃ o t, s.locals e.1 = .running o .preparedSQL ∧ e.2 = .done ∧
      s.world.db.execInsert (insertText ((requests e.1).values o.attrs)) = some t) :
    publication requests s e = [] ∧ Publishes requests w s' c := by
  obtain ⟨hdb, hup⟩ := ((site_step h).1.kept_or_published ht).resolve_right hn
  refine ⟨?_, by rw [hdb]; exact hs.rows, by rw [hdb]; exact hs.nextId, fun i o' ho' id hid => ?_, fun x hx => ?_⟩
  · unfold publication
    split
    · rfl
    · rename_i o ho
      obtain ⟨hd, hl⟩ := inserting_some.mp ho
      apply if_neg
      intro hsome
      apply hn
      obtain ⟨t, ht⟩ := Option.isSome_iff_exists.mp hsome
      exact ⟨o, t, hl, hd, ht⟩
  · by_cases hi : i = e.1
    · subst hi
      rcases hup with ⟨-, hnew⟩ | ⟨o, o'', ho, ho'', ha, hr⟩
      · rw [hnew o' ho'] at hid
        cases hid
      · obtain rfl : o' = o'' := Option.some.inj (ho'.symm.trans ho'')
        rw [ha]
        exact hs.entry e.1 o ho id (hr ▸ hid)
    · rw [upload_other h hi] at ho'
      exact hs.entry i o' ho' id hid
  · obtain ⟨o, ho, ha, hr⟩ := hs.upload x hx
    by_cases hi : x.owner = e.1
    · rw [hi] at ho ⊢
      rcases hup with ⟨hnone, -⟩ | ⟨p, p', hp, hp', hpa, hpr⟩
      · rw [show (s.locals e.1).upload = some o from ho] at hnone
        cases hnone
      · obtain rfl : o = p := Option.some.inj (ho.symm.trans hp)
        exact ⟨p', hp', hpa.trans ha, hpr.trans hr⟩
    · exact ⟨o, by rw [upload_other h hi]; exact ho, ha, hr⟩

theorem Publishes.publish (hs : Publishes requests w s c) (h : (site thumbOf requests).step s e = some s')
    {o : Upload} (ho : s.upload e.1 = some o) (hnone : o.row = none) (hn : c.New (e.1, o.attrs))
    (hrows : s'.world.db.rows = s.world.db.rows ++ [((requests e.1).values o.attrs).row s.world.db.nextId])
    (hid : s'.world.db.nextId = s.world.db.nextId + 1)
    (ho' : s'.upload e.1 = some { o with row := some s.world.db.nextId }) :
    Publishes requests w s' (c.publish (e.1, o.attrs) hn) := by
  refine ⟨?_, by rw [hid, hs.nextId]; rfl, fun i p hp id hpid => ?_, fun x hx => ?_⟩
  · rw [hrows, hs.rows, hs.nextId]
    simp [Catalogue.publish, entryRow]
  · by_cases hi : i = e.1
    · subst hi
      rw [ho', Option.some.injEq] at hp
      subst hp
      obtain rfl := Option.some.inj hpid
      rw [hs.nextId]
      exact List.mem_append_right _ (List.mem_singleton_self _)
    · rw [upload_other h hi] at hp
      exact List.mem_append_left _ (hs.entry i p hp id hpid)
  · rcases List.mem_append.mp hx with hx | hx
    · obtain ⟨p, hp, ha, hr⟩ := hs.upload x hx
      by_cases hi : x.owner = e.1
      · rw [hi, ho, Option.some.injEq] at hp
        subst hp
        rw [hnone] at hr
        cases hr
      · exact ⟨p, by rw [upload_other h hi]; exact hp, ha, hr⟩
    · rw [List.mem_singleton.mp hx]
      exact ⟨_, ho', rfl, by rw [hs.nextId]⟩

/-! ## The simulation -/

variable (thumbOf) in
def sitePublishes (w : World) (hx : ∀ i, (requests i).ext ≠ str "jpg") :
    Machine.Simulation (site thumbOf requests) (Catalogue.machine (ι := ι) fun a : Attributes => a.uuid) where
  guard := KeepsApart requests
  label := publication requests
  rel s c := Apart requests thumbOf s ∧ Publishes requests w s c
  step := by
    intro s s' c e hs hg h
    have ha := hs.1.step hx hg h
    by_cases hp : ∃ o t, s.locals e.1 = .running o .preparedSQL ∧ e.2 = .done ∧
        s.world.db.execInsert (insertText ((requests e.1).values o.attrs)) = some t
    · obtain ⟨o, t, hl, hd, ht⟩ := hp
      obtain ⟨hlabel, hnone, hrows, hid, ho'⟩ := published_step hs.1 hg h hd hl ht
      have ho : s.upload e.1 = some o := by rw [Site.upload, hl]; rfl
      have hnew := hs.2.new hs.1.attributed ho hnone
      refine ⟨c.publish _ hnew, ?_, ha, hs.2.publish h ho hnone hnew hrows hid ho'⟩
      rw [hlabel, Machine.run, Catalogue.step_eq hnew]
      rfl
    · obtain ⟨hlabel, hpub⟩ := hs.2.keep (hg.1.tame h) h hp
      exact ⟨c, by rw [hlabel]; rfl, ha, hpub⟩

/-! ## What is seen of an entry -/

/-- What a visitor finds of an entry in the stores. -/
structure Found (requests : ι → Request) (thumbOf : Bytes → Bytes) (w : World) (e : Entry ι Attributes) : Prop where
  row : w.db.byId e.id = some (entryRow requests e)
  video : w.bucket ((requests e.owner).keyname e.item.uuid) = some (requests e.owner).content
  thumb : w.bucket (thumbName e.item.uuid) = some (thumbOf (requests e.owner).content)
  image : imageUrl (entryRow requests e) = bucketUrl (thumbName e.item.uuid)
  player : (requests e.owner).ext ∈ supported →
    ∃ p, startPlayer w.db e.id = .page p ∧ (requests e.owner).keyname e.item.uuid <:+ p.source

omit [DecidableEq ι] in
theorem Publishes.found (ha : Apart requests thumbOf s) (hs : Publishes requests w s c) {x : Entry ι Attributes}
    (hx : x ∈ c.entries) : Found requests thumbOf s.world x := by
  obtain ⟨o, ho, hoa, hrow⟩ := hs.upload x hx
  have hm := (ha.media.media x.owner o ho).puts_first (by rw [hrow]; rfl)
  have hst := ha.stored x.owner o ho
  have hmem : entryRow requests x ∈ s.world.db.rows := by
    rw [hs.rows]
    exact List.mem_append_right _ (List.mem_map_of_mem hx)
  have hid : s.world.db.byId x.id = some (entryRow requests x) := s.world.db.byId_of_mem hmem
  refine ⟨hid, by rw [← hoa]; exact hst.1 hm.1, by rw [← hoa]; exact hst.2 hm.2, imageUrl_row .., fun hsup => ?_⟩
  · have hext : (entryRow requests x).ext = (requests x.owner).ext := by
      rw [entryRow, row_ext]
      exact (supported_plain _ hsup).2.2.2.2
    obtain ⟨b, hb⟩ := Option.isSome_iff_exists.mp (branch_isSome.mpr (hext ▸ hsup))
    rw [startPlayer_row hid]
    simp only [buildPlayer, hb]
    rw [← hoa]
    exact ⟨_, rfl, keyname_suffix (by rw [entryRow, row_uuid, hoa]) hext⟩

omit [DecidableEq ι] in
theorem Publishes.sent (ha : Apart requests thumbOf s) (hs : Publishes requests w s c) {i : ι}
    {was : Option (Upload × Stage)} {v : Nat} (hl : s.locals i = .ended was (.player v)) :
    ∃ e ∈ c.entries, e.owner = i ∧ e.id = v := by
  obtain ⟨o, ho, hr⟩ := ha.attributed.vid i was v hl
  exact ⟨_, hs.entry i o ho v hr, rfl, rfl⟩

end Vortex
