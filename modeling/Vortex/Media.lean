import Vortex.World
import Vortex.Index

/-!
# Media before rows

A request stores its video and its thumbnail before it runs its INSERT, any
failure in between ends it, and no call deletes an object: in whatever order
requests are served and wherever they stop, a listed row has its objects. Only
a command hidden in a file name can take them away.
-/

namespace Vortex

variable {thumbOf : Bytes → Bytes}

structure HasMedia (q : Request) (w : World) (o : Upload) : Prop where
  video : o.putVideo.isSome → (w.bucket (q.keyname o.attrs.uuid)).isSome
  thumb : o.putThumb.isSome → (w.bucket (thumbName o.attrs.uuid)).isSome
  row : ∀ id, o.row = some id → (q.values o.attrs).row id ∈ w.db.rows
  puts_first : o.row.isSome → o.putVideo.isSome ∧ o.putThumb.isSome

-- the texts of the statements play no part below
attribute [local irreducible] insertText

section
variable {q : Request} {w w' : World} {o : Upload}

theorem HasMedia.mono (h : HasMedia q w o) (hb : ∀ k, (w.bucket k).isSome → (w'.bucket k).isSome)
    (hr : w.db.rows <+: w'.db.rows) : HasMedia q w' o where
  video hv := hb _ (h.video hv)
  thumb ht := hb _ (h.thumb ht)
  row id hid := hr.subset (h.row id hid)
  puts_first := h.puts_first

theorem hasMedia_new (a : Attributes) (path : Bytes) : HasMedia q w { attrs := a, tmpName := path } where
  video h := by cases h
  thumb h := by cases h
  row id h := by cases h
  puts_first h := by cases h

theorem Effect.hasMedia {l l' : Local} {out : Outcome} (h : Effect thumbOf q w l out w' l') (hl : l.ordered)
    (hm : ∀ o, l.upload = some o → HasMedia q w o) : ∀ o, l'.upload = some o → HasMedia q w' o := by
  have kept : out.tame w → ∀ o, l.upload = some o → HasMedia q w' o := fun ht o ho =>
    (hm o ho).mono (fun k => h.bucket_grows ht) (h.rows_prefix ht)
  intro o' ho'
  cases h with
  | received | refused | dropped | killed => cases ho'
  | attributes path a =>
    cases ho'
    exact hasMedia_new a path
  | unmoved => exact (hm o' ho').mono (fun _ => id) (List.prefix_refl _)
  | noRow | quit => exact hm o' ho'
  | smuggled o zero after =>
    -- so far the request has stored nothing
    obtain ⟨hv, ht, hr⟩ : o.putVideo = none ∧ o.putThumb = none ∧ o.row = none := hl
    obtain rfl : o = o' := by cases zero <;> exact Option.some.inj ho'
    refine ⟨?_, ?_, ?_, ?_⟩ <;> simp [hv, ht, hr]
  | putVideo o b hb =>
    cases ho'
    have := kept trivial o rfl
    exact {
      video := fun _ => isSome_written ..
      thumb := this.thumb
      row := this.row
      puts_first := fun hr => ⟨rfl, (this.puts_first hr).2⟩ }
  | putThumb o b hb =>
    cases ho'
    have := kept trivial o rfl
    exact {
      video := this.video
      thumb := fun _ => isSome_written ..
      row := this.row
      puts_first := fun hr => ⟨(this.puts_first hr).1, rfl⟩ }
  | inserted o t ht =>
    cases ho'
    have := kept trivial o rfl
    exact {
      video := this.video
      thumb := this.thumb
      row := fun id hid => by
        rw [ownRow_some hid ht]
        simp
      puts_first := fun _ => ⟨hl.1, hl.2.1⟩ }
  | _ => exact kept trivial o' ho'

end

theorem mem_of_index {t : Table} {more : Option Bytes} {r : Row} (h : r ∈ (index t more).rows) : r ∈ t.rows := by
  have hsub : ∀ text, r ∈ (t.execSelect text).getD [] → r ∈ t.rows := by
    intro text ht
    unfold Table.execSelect at ht
    cases hp : readSelect text with
    | none =>
      rw [hp] at ht
      cases ht
    | some p =>
      rw [hp] at ht
      exact List.mem_of_mem_drop (List.mem_of_mem_take ht)
  exact hsub _ h

theorem imageUrl_row (q : Request) (a : Attributes) (id : Nat) :
    imageUrl ((q.values a).row id) = bucketUrl (thumbName a.uuid) := by
  change bucketUrl (charColumn 13 a.uuid.bytes ++ _) = _
  rw [a.uuid.charColumn]
  rfl

theorem Table.eq_of_id {t : Table} {r r' : Row} (hr : r ∈ t.rows) (hr' : r' ∈ t.rows) (h : r.id = r'.id) : r = r' := by
  have h₁ := t.byId_of_mem hr
  rw [h, t.byId_of_mem hr'] at h₁
  exact (Option.some.inj h₁).symm

section
variable {ι : Type*} {requests : ι → Request}

structure MediaInv (requests : ι → Request) (s : Site ι) : Prop where
  ordered : ∀ i, (s.locals i).ordered
  media : ∀ i o, s.upload i = some o → HasMedia (requests i) s.world o

theorem mediaInv_opening (w : World) : MediaInv requests (Site.opening w) where
  ordered i := trivial
  media i o h := by cases h

variable [DecidableEq ι]

theorem MediaInv.step {s s' : Site ι} {e : ι × Outcome} (hs : MediaInv requests s) (ht : e.2.tame s.world)
    (h : (site thumbOf requests).step s e = some s') : MediaInv requests s' := by
  obtain ⟨he, -⟩ := site_step h
  refine ⟨site_ordered h hs.ordered, fun i o ho => ?_⟩
  by_cases hi : i = e.1
  · subst hi
    exact he.hasMedia (hs.ordered e.1) (hs.media e.1) o ho
  · rw [upload_other h hi] at ho
    exact (hs.media i o ho).mono (fun k => he.bucket_grows ht) (he.rows_prefix ht)

theorem mediaInv_run {w : World} {s : Site ι} {es : List (ι × Outcome)}
    (ht : (site thumbOf requests).Guarded (fun s e => e.2.tame s.world) (.opening w) es)
    (h : (site thumbOf requests).run (.opening w) es = some s) : MediaInv requests s :=
  Machine.guarded_invariant (fun _ _ _ hs ht => hs.step ht) (mediaInv_opening w) ht h

/-- A row that a request inserted with its own values has both objects, and
every listing that shows it shows the thumbnail's URL. -/
theorem rows_have_media {w : World} {s : Site ι} {es : List (ι × Outcome)}
    (hn : (site thumbOf requests).Guarded (InertNames requests) (.opening w) es)
    (h : (site thumbOf requests).run (.opening w) es = some s) {i : ι} {o : Upload} {id : Nat}
    (ho : s.upload i = some o) (hid : o.row = some id) :
    (s.world.bucket ((requests i).keyname o.attrs.uuid)).isSome ∧
      (s.world.bucket (thumbName o.attrs.uuid)).isSome ∧
      ∀ more, ∀ r ∈ (index s.world.db more).rows, r.id = id → imageUrl r = bucketUrl (thumbName o.attrs.uuid) := by
  have ht := Machine.guarded_of_run (fun _ _ _ => tame_of_inert) hn h
  have hm := (mediaInv_run ht h).media i o ho
  obtain ⟨hv, ht⟩ := hm.puts_first (by rw [hid]; rfl)
  refine ⟨hm.video hv, hm.thumb ht, fun more r hr hrid => ?_⟩
  rw [Table.eq_of_id (mem_of_index hr) (hm.row id hid) hrid]
  exact imageUrl_row _ _ _

end

def twoRequests (i : Bool) : Request := if i then laterRequest else sampleRequest

/-- The second upload ends in an exception of its first put. -/
theorem sample_row_has_media :
    ∃ s : Site Bool, (s.locals true).exit = some .exception ∧
      (s.world.bucket (sampleRequest.keyname sampleUuid)).isSome ∧
      (s.world.bucket (thumbName sampleUuid)).isSome ∧
      ∀ more, ∀ r ∈ (index s.world.db more).rows, r.id = 58 → imageUrl r = bucketUrl (thumbName sampleUuid) := by
  let es := (sampleEvents sampleTmpName sampleAttributes).map (fun out => (false, out)) ++
    ((sampleEvents laterTmpName laterAttributes).take 4 ++ [Outcome.fail]).map fun out => (true, out)
  let run := (site sampleThumb twoRequests).run (.opening sampleWorld) es
  have hn : (site sampleThumb twoRequests).Guarded (InertNames twoRequests) (.opening sampleWorld) es := by
    unfold InertNames
    decide +kernel
  have hrun : run.map (fun s => ((s.locals true).exit, (s.upload false).map fun o => (o.row, o.attrs.uuid))) =
      some (some .exception, some (some 58, sampleUuid)) := by
    decide +kernel
  obtain ⟨s, hs, hp⟩ := Option.map_eq_some_iff.mp hrun
  obtain ⟨he, hu⟩ := Prod.mk.inj hp
  obtain ⟨o, ho, hr⟩ := Option.map_eq_some_iff.mp hu
  obtain ⟨hid, huuid⟩ := Prod.mk.inj hr
  have := rows_have_media hn hs ho hid
  rw [huuid] at this
  exact ⟨s, he, this⟩

/-- `/srv/s3mnt`, in base 64, is where the bucket is mounted. -/
def hostileRequest : Request :=
  { laterRequest with name := ⟨str "$(rm -r $(echo L3Nydi9zM21udA==|base64 -d)).mp4", by decide +kernel⟩ }

/-- The name of a later upload deletes the objects of an earlier one. -/
theorem hostile_name_removes_media :
    ¬ ∀ (requests : Bool → Request) (es : List (Bool × Outcome)) (s : Site Bool),
      (site sampleThumb requests).run (.opening sampleWorld) es = some s →
      ∀ i o id, s.upload i = some o → o.row = some id →
        (s.world.bucket ((requests i).keyname o.attrs.uuid)).isSome ∧
          (s.world.bucket (thumbName o.attrs.uuid)).isSome := by
  intro h
  let requests := fun i : Bool => if i then hostileRequest else sampleRequest
  let table := (sampleWorld.db.execInsert (insertText (sampleRequest.values sampleAttributes))).getD .created
  let es := (sampleEvents sampleTmpName sampleAttributes).map (fun out => (false, out)) ++
    [(true, .received laterTmpName), (true, .attributes laterAttributes), (true, .done),
      (true, .smuggled false ⟨fun _ => none, fun _ => none, table⟩)]
  let run := (site sampleThumb requests).run (.opening sampleWorld) es
  have hrun : run.map (fun s => ((s.upload false).map fun o => (o.row, o.attrs.uuid),
      s.world.db.rows.length, s.world.bucket (thumbName sampleUuid))) =
      some (some (some 58, sampleUuid), 1, none) := by
    decide +kernel
  obtain ⟨s, hs, hp⟩ := Option.map_eq_some_iff.mp hrun
  obtain ⟨hu, hp⟩ := Prod.mk.inj hp
  obtain ⟨-, hgone⟩ := Prod.mk.inj hp
  obtain ⟨o, ho, hr⟩ := Option.map_eq_some_iff.mp hu
  obtain ⟨hid, huuid⟩ := Prod.mk.inj hr
  have := (h requests es s hs false o 58 ho hid).2
  rw [huuid, hgone] at this
  cases this

end Vortex
