import Vortex.InsertRows
import Vortex.Mixing

/-!
# What an upload leaves behind

No call of an upload is ever undone. Wherever a request on its own ends, the
stores hold what the calls before that point did, and nothing else.
-/

namespace Vortex

attribute [local irreducible] insertText

variable {thumbOf : Bytes → Bytes}

section
variable (q : Request) (w w' : World)

/-- Nothing is left, except by a script that was killed: PHP's own copy of the
file part stays then. -/
def Unchanged (e : Exit) : Prop :=
  w' = w ∨ e = .stopped ∧ ∃ tmpName, isUploadName tmpName = true ∧ w.tmp tmpName = none ∧
    w' = { w with tmp := Function.update w.tmp tmpName (some q.content) }

variable (o : Upload)

/-- The working files when `stage` is the next call. -/
def FilesAt : Stage → Prop
  | .localUpload => True
  | .makeThumbnail => (w'.tmp q.videoPath).isSome
  | .putVideo | .putThumb | .unlinkVideo => (w'.tmp q.videoPath).isSome ∧ (w'.tmp (thumbPath o.attrs.uuid)).isSome
  | .unlinkThumb => w'.tmp q.videoPath = none
  | .preparedSQL | .getVID => w'.tmp q.videoPath = none ∧ w'.tmp (thumbPath o.attrs.uuid) = none

def ObjectsAt : Stage → Prop
  | .localUpload | .makeThumbnail | .putVideo => w'.bucket = w.bucket
  | .putThumb =>
    (∀ k, k ≠ q.keyname o.attrs.uuid → w'.bucket k = w.bucket k) ∧ (w'.bucket (q.keyname o.attrs.uuid)).isSome
  | .unlinkVideo | .unlinkThumb | .preparedSQL | .getVID =>
    (∀ k, k ≠ q.keyname o.attrs.uuid → k ≠ thumbName o.attrs.uuid → w'.bucket k = w.bucket k) ∧
      (w'.bucket (q.keyname o.attrs.uuid)).isSome ∧ (w'.bucket (thumbName o.attrs.uuid)).isSome

def TableAt : Stage → Prop
  | .getVID => w'.db = w.db ∨ w.db.execInsert (insertText (q.values o.attrs)) = some w'.db
  | _ => w'.db = w.db

/-- The stores after a run from `w` that has moved its file, and has `stage` as
its next call or ended there. -/
structure Residue (stage : Stage) : Prop where
  rest : ∀ path, path ≠ q.videoPath → path ≠ thumbPath o.attrs.uuid → w'.tmp path = w.tmp path
  files : FilesAt q w' o stage
  objects : ObjectsAt q w w' o stage
  table : TableAt q w w' o stage

/-- PHP has stored the file part, and nothing else has happened. -/
def Received (tmpName : Bytes) : Prop :=
  isUploadName tmpName = true ∧ w.tmp tmpName = none ∧
    w' = { w with tmp := Function.update w.tmp tmpName (some q.content) }

end

def Leaves (q : Request) (w : World) (s : World × Local) : Prop :=
  match s.2 with
  | .waiting => s.1 = w
  | .received tmpName => Received q w s.1 tmpName
  | .running o .localUpload => Received q w s.1 o.tmpName
  | .ended none e | .ended (some (_, .localUpload)) e => Unchanged q w s.1 e
  | .running o stage | .ended (some (o, stage)) _ => q.plainName → Residue q w s.1 o stage

section
variable {q : Request} {w w' w₁ w₂ : World} {o : Upload} {l l' : Local} {out : Outcome}

theorem rest_update {path : Bytes} {x : Option Bytes} (hp : path = q.videoPath ∨ path = thumbPath o.attrs.uuid)
    (h : ∀ p, p ≠ q.videoPath → p ≠ thumbPath o.attrs.uuid → w₁.tmp p = w.tmp p) :
    ∀ p, p ≠ q.videoPath → p ≠ thumbPath o.attrs.uuid → Function.update w₁.tmp path x p = w.tmp p := by
  intro p hv ht
  have hne : p ≠ path := by
    rcases hp with rfl | rfl
    · exact hv
    · exact ht
  rw [Function.update_of_ne hne]
  exact h p hv ht

theorem Received.removed {tmpName : Bytes} (h : Received q w w₁ tmpName) : Function.update w₁.tmp tmpName none = w.tmp := by
  obtain ⟨-, hnone, rfl⟩ := h
  rw [Function.update_idem, ← hnone, Function.update_eq_self]

theorem Received.sweep {tmpName : Bytes} (h : Received q w w₁ tmpName) : w₁.sweep tmpName = w := by
  rw [World.sweep, h.removed]
  obtain ⟨-, -, rfl⟩ := h
  rfl

theorem Leaves.step (hs : Leaves q w (w₁, l)) (h : Effect thumbOf q w₁ l out w₂ l') : Leaves q w (w₂, l') := by
  cases h with
  | received path hname hnone =>
    obtain rfl : w₁ = w := hs
    exact ⟨hname, hnone, rfl⟩
  | refused => exact .inl hs
  | attributes => exact hs
  | dropped path =>
    have hs : Received q w w₁ path := hs
    exact .inl hs.sweep
  | unmoved o =>
    have hs : Received q w w₁ o.tmpName := hs
    exact .inl hs.sweep
  | killed path => exact .inr ⟨rfl, path, hs⟩
  | moved o b hb =>
    have hs : Received q w w₁ o.tmpName := hs
    intro _
    have hw : w₁.bucket = w.bucket ∧ w₁.db = w.db := by
      obtain ⟨-, -, rfl⟩ := hs
      exact ⟨rfl, rfl⟩
    refine ⟨fun path hv _ => ?_, isSome_written .., hw.1, hw.2⟩
    rw [hs.removed]
    exact Function.update_of_ne hv _ _
  | thumb o path b hp hb =>
    intro hn
    have hs : Residue q w w₁ o .makeThumbnail := hs hn
    exact ⟨rest_update (.inr rfl) hs.rest, ⟨isSome_write _ _ hs.files, isSome_written ..⟩, hs.objects, hs.table⟩
  | leaves o path x hp =>
    intro hn
    have hs : Residue q w w₁ o .makeThumbnail := hs hn
    exact ⟨rest_update (.inr rfl) hs.rest, isSome_write _ _ hs.files, hs.objects, hs.table⟩
  | smuggled o zero after hnone =>
    have hne : ¬q.plainName := by
      intro hn
      rw [thumbInput_plain hn] at hnone
      cases hnone
    cases zero with
    | true => exact fun hn => absurd hn hne
    | false => exact fun hn => absurd hn hne
  | putVideo o b hb =>
    intro hn
    have hs : Residue q w w₁ o .putVideo := hs hn
    have hbucket : w₁.bucket = w.bucket := hs.objects
    refine ⟨hs.rest, hs.files, ⟨fun k hk => ?_, isSome_written ..⟩, hs.table⟩
    rw [← hbucket]
    exact Function.update_of_ne hk _ _
  | putThumb o b hb =>
    intro hn
    have hs : Residue q w w₁ o .putThumb := hs hn
    obtain ⟨hrest, hkey⟩ := hs.objects
    refine ⟨hs.rest, hs.files, ⟨fun k hk hk' => ?_, isSome_write _ _ hkey, isSome_written ..⟩, hs.table⟩
    rw [← hrest k hk]
    exact Function.update_of_ne hk' _ _
  | unlinkVideo o =>
    intro hn
    have hs : Residue q w w₁ o .unlinkVideo := hs hn
    rw [← hn.videoPath]
    exact ⟨rest_update (.inl rfl) hs.rest, removed .., hs.objects, hs.table⟩
  | unlinkThumb o =>
    intro hn
    have hs : Residue q w w₁ o .unlinkThumb := hs hn
    have hgone : w₁.tmp q.videoPath = none := hs.files
    refine ⟨rest_update (.inr rfl) hs.rest, ⟨?_, removed ..⟩, hs.objects, hs.table⟩
    rcases removed_or_kept w₁.tmp q.videoPath (thumbPath o.attrs.uuid) with hk | hk
    · exact hk.trans hgone
    · exact hk
  | inserted o t ht =>
    intro hn
    have hs : Residue q w w₁ o .preparedSQL := hs hn
    have hdb : w₁.db = w.db := hs.table
    rw [hdb] at ht
    exact ⟨hs.rest, hs.files, hs.objects, .inr ht⟩
  | noRow o =>
    intro hn
    have hs : Residue q w w₁ o .preparedSQL := hs hn
    exact ⟨hs.rest, hs.files, hs.objects, .inl hs.table⟩
  | found => exact hs
  | quit o stage e out he =>
    cases stage with
    | localUpload =>
      obtain rfl := List.mem_singleton.mp he
      exact .inr ⟨rfl, o.tmpName, hs⟩
    | _ => exact hs

theorem leaves_run {os : List Outcome} {s : World × Local} (h : (alone thumbOf q).run (w, .waiting) os = some s) :
    Leaves q w s := by
  apply Machine.run_invariant (I := Leaves q w) _ _ h
  · intro s out s' hs hst
    exact hs.step (act_effect thumbOf hst)
  · exact rfl

theorem player_run {os : List Outcome} {s : World × Local} (h : (alone thumbOf q).run (w, .waiting) os = some s)
    {was : Option (Upload × Stage)} {v : Nat} (he : s.2 = .ended was (.player v)) :
    ∃ o, was = some (o, .getVID) ∧ s.1.db.idOfUuid o.attrs.uuid.bytes = some v := by
  let I := fun s : World × Local => ∀ was v, s.2 = .ended was (.player v) →
    ∃ o, was = some (o, .getVID) ∧ s.1.db.idOfUuid o.attrs.uuid.bytes = some v
  have hstep : ∀ s out s', I s → (alone thumbOf q).step s out = some s' → I s' := by
    intro s out s' _ hst was v hv
    obtain ⟨o, -, hwas, hid, hw⟩ := (act_effect thumbOf hst).player hv
    exact ⟨o, hwas, by rw [hw]; exact hid⟩
  exact Machine.run_invariant (I := I) hstep (fun was v hv => by cases hv) h was v he

/-- An upload that is sent to an id of its own has both objects, no working
files and new rows: one, where its extension has no quote. -/
theorem own_rows {o : Upload} {v : Nat} (hr : Residue q w w' o .getVID)
    (hid : w'.db.idOfUuid o.attrs.uuid.bytes = some v) (hown : ∀ r ∈ w.db.rows, r.id ≠ v) :
    ∃ new, w'.db.rows = w.db.rows ++ new ∧ (∃ r ∈ new, r.id = v ∧ r.uuid = o.attrs.uuid.bytes) ∧
      ((∀ c ∈ q.ext, isQuote c = false) → new.length = 1) := by
  obtain ⟨r, hmem, hu, rfl⟩ := Table.idOfUuid_some hid
  rcases hr.table with hdb | hins
  · rw [hdb] at hmem
    exact absurd rfl (hown r hmem)
  · obtain ⟨vs, new, hvs, hrows, hlen, -⟩ := Table.execInsert_rows hins
    refine ⟨new, hrows, ⟨r, ?_, rfl, hu⟩, fun hx => ?_⟩
    · rw [hrows] at hmem
      exact (List.mem_append.mp hmem).resolve_left fun hm => hown r hm rfl
    · obtain ⟨v, rfl⟩ := insert_one_row hx hvs
      exact hlen

/-- Where an upload on its own leaves the stores, whatever its exit. -/
theorem upload_residue {os : List Outcome} {w' : World} {was : Option (Upload × Stage)} {e : Exit}
    (h : (alone thumbOf q).run (w, .waiting) os = some (w', .ended was e)) :
    ((∀ o stage, was = some (o, stage) → stage = .localUpload) → Unchanged q w w' e) ∧
      (q.plainName → ∀ o stage, was = some (o, stage) → stage ≠ .localUpload → Residue q w w' o stage) ∧
      (q.plainName → ∀ v, e = .player v → ∃ o, was = some (o, .getVID) ∧ ((∀ r ∈ w.db.rows, r.id ≠ v) →
        ∃ new, w'.db.rows = w.db.rows ++ new ∧ (∃ r ∈ new, r.id = v ∧ r.uuid = o.attrs.uuid.bytes) ∧
          ((∀ c ∈ q.ext, isQuote c = false) → new.length = 1))) := by
  have hl := leaves_run h
  refine ⟨fun hw => ?_, fun hn o stage hw hne => ?_, fun hn v he => ?_⟩
  · cases was with
    | none => exact hl
    | some p =>
      obtain ⟨o, stage⟩ := p
      obtain rfl := hw o stage rfl
      exact hl
  · subst hw
    cases stage with
    | localUpload => exact absurd rfl hne
    | _ => exact hl hn
  · subst he
    obtain ⟨o, rfl, hid⟩ := player_run h rfl
    exact ⟨o, rfl, own_rows (hl hn) hid⟩

end

/-- A completed upload, and after it one whose second put throws. -/
theorem sample_upload_residue :
    ∃ o w₁, Residue sampleRequest sampleWorld w₁ o .getVID ∧
      (∃ new, w₁.db.rows = sampleWorld.db.rows ++ new ∧ new.length = 1) ∧
      ∃ o' w₂, Residue laterRequest w₁ w₂ o' .putThumb := by
  let failing := (sampleEvents laterTmpName laterAttributes).take 5 ++ [Outcome.fail]
  let both := fun s : World × Local => (s.2.exit, ((alone sampleThumb laterRequest).run (s.1, .waiting) failing).map
    fun s => (s.2.exit, s.2.stage))
  have hruns : ((alone sampleThumb sampleRequest).run (sampleWorld, .waiting)
      (sampleEvents sampleTmpName sampleAttributes)).map both =
        some (some (.player 58), some (some .exception, some .putThumb)) := by
    decide +kernel
  obtain ⟨⟨w₁, l⟩, hs, hp⟩ := Option.map_eq_some_iff.mp hruns
  obtain ⟨he, hfailed⟩ := Prod.mk.inj hp
  obtain ⟨⟨w₂, l'⟩, hs', hp'⟩ := Option.map_eq_some_iff.mp hfailed
  obtain ⟨he', hstage⟩ := Prod.mk.inj hp'
  obtain ⟨was, rfl⟩ := Local.exit_some he
  obtain ⟨-, hr, hv⟩ := upload_residue hs
  have hplain : sampleRequest.plainName := by decide +kernel
  obtain ⟨o, rfl, hrows⟩ := hv hplain 58 rfl
  obtain ⟨new, hnew, -, hone⟩ := hrows (by simp [sampleWorld, Table.created])
  obtain ⟨o', rfl⟩ := Local.exit_stage he' hstage
  obtain ⟨-, hr', -⟩ := upload_residue hs'
  exact ⟨o, w₁, hr hplain o .getVID rfl (by simp), ⟨new, hnew, hone (by decide +kernel)⟩, o', w₂,
    hr' (by decide +kernel) o' .putThumb rfl (by simp)⟩

theorem failed_upload_leaves_object :
    ¬ ∀ (q : Request) (w w' : World) (os : List Outcome) (was : Option (Upload × Stage)) (e : Exit),
      (alone sampleThumb q).run (w, .waiting) os = some (w', .ended was e) → (∀ v, e ≠ .player v) →
      e ≠ .stopped → w' = w := by
  intro h
  let os : List Outcome := [.received sampleTmpName, .attributes sampleAttributes, .done, .done, .done, .fail]
  have hrun : ((alone sampleThumb sampleRequest).run (sampleWorld, .waiting) os).map (fun s =>
      (s.2.exit, s.1.bucket (sampleRequest.keyname sampleUuid))) =
      some (some .exception, some sampleRequest.content) := by
    decide +kernel
  obtain ⟨⟨w', l⟩, hs, hp⟩ := Option.map_eq_some_iff.mp hrun
  obtain ⟨he, hb⟩ := Prod.mk.inj hp
  obtain ⟨was, rfl⟩ := Local.exit_some he
  have := h sampleRequest sampleWorld w' os was .exception hs (by simp) (by simp)
  rw [this] at hb
  cases hb

end Vortex
