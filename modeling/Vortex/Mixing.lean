import Vortex.Media

/-!
# Uploads do not mix their files

The working file of an upload is named by the client and lies among PHP's own
temporary files, so another request may write to either before it is read. A
run in which nobody writes to a path that is in use, and in which ffmpeg is
given the file that was moved, keeps every upload with its own bytes.
-/

namespace Vortex

attribute [local irreducible] insertText

variable {thumbOf : Bytes → Bytes} {ι : Type*} (requests : ι → Request)

/-- The paths whose files the request has written and will still read. -/
def Local.uses (q : Request) : Local → List Bytes
  | .received tmpName => [tmpName]
  | .running o .localUpload => [o.tmpName]
  | .running _ .makeThumbnail => [q.videoPath]
  | .running o .putVideo => [q.videoPath, thumbPath o.attrs.uuid]
  | .running o .putThumb => [thumbPath o.attrs.uuid]
  | _ => []

/-- The path that the call writes to. -/
def Local.writes (q : Request) : Local → Outcome → List Bytes
  | .waiting, .received tmpName => [tmpName]
  | .running _ .localUpload, _ => [q.videoPath]
  | .running o .makeThumbnail, _ => [thumbPath o.attrs.uuid]
  | _, _ => []

/-- The thumbnail is made, by the one command meant, of the file that was moved,
and not on top of it. -/
def MakesOwn (q : Request) (l : Local) : Prop :=
  ∀ o ∈ l.thumbnailing, q.plainName ∧ q.videoPath ≠ thumbPath o.attrs.uuid

/-- The call writes to no file that another request has in use. -/
def WritesApart (s : Site ι) (e : ι × Outcome) : Prop :=
  (∀ path ∈ (s.locals e.1).writes (requests e.1) e.2, ∀ j, j ≠ e.1 → path ∉ (s.locals j).uses (requests j)) ∧
    MakesOwn (requests e.1) (s.locals e.1)

/-! ## The invariant of one request -/

/-- If there is a file at `path`, it is `x`. -/
def Holds (tmp : Store) (path x : Bytes) : Prop := ∀ b, tmp path = some b → b = x

theorem Holds.kept {tmp tmp' : Store} {path x : Bytes} (h : Holds tmp path x)
    (hk : tmp' path = tmp path ∨ tmp' path = none) : Holds tmp' path x := by
  intro b hb
  rcases hk with hk | hk
  · exact h b (hk ▸ hb)
  · rw [hk] at hb
    cases hb

theorem holds_update (tmp : Store) (path x : Bytes) : Holds (Function.update tmp path (some x)) path x := by
  intro b hb
  rw [Function.update_self] at hb
  exact (Option.some.inj hb).symm

section
variable (thumbOf) (q : Request)

def OwnFiles (tmp : Store) : Local → Prop
  | .received tmpName => Holds tmp tmpName q.content
  | .running o .localUpload => Holds tmp o.tmpName q.content
  | .running _ .makeThumbnail => Holds tmp q.videoPath q.content
  | .running o .putVideo => Holds tmp q.videoPath q.content ∧ Holds tmp (thumbPath o.attrs.uuid) (thumbOf q.content)
  | .running o .putThumb => Holds tmp (thumbPath o.attrs.uuid) (thumbOf q.content)
  | _ => True

def OwnPuts (o : Upload) : Prop :=
  (∀ b, o.putVideo = some b → b = q.content) ∧ ∀ b, o.putThumb = some b → b = thumbOf q.content

end

section
variable {q : Request} {w w' : World} {l l' : Local} {out : Outcome}

theorem MakesOwn.input {o : Upload} (h : MakesOwn q (.running o .makeThumbnail)) :
    thumbInput q.name.bytes o.attrs.uuid = some q.videoPath := thumbInput_plain (h o rfl).1 _

theorem update_kept {tmp tmp' : Store} {path k : Bytes} {x : Option Bytes} (hk : path ≠ k)
    (h : tmp' path = tmp path ∨ tmp' path = none) :
    Function.update tmp' k x path = tmp path ∨ Function.update tmp' k x path = none := by
  rw [Function.update_of_ne hk]
  exact h

/-- A call leaves alone, or removes, what it does not write to. -/
theorem Effect.tmp_kept (h : Effect thumbOf q w l out w' l') (hn : MakesOwn q l) {path : Bytes}
    (hp : path ∉ l.writes q out) : w'.tmp path = w.tmp path ∨ w'.tmp path = none := by
  cases h with
  | received | thumb | leaves => exact update_kept (by simpa [Local.writes] using hp) (.inl rfl)
  | moved => exact update_kept (by simpa [Local.writes] using hp) (removed_or_kept ..)
  | smuggled o zero after hnone =>
    rw [hn.input] at hnone
    cases hnone
  | dropped | unmoved | unlinkVideo | unlinkThumb => exact removed_or_kept ..
  | _ => exact .inl rfl

theorem OwnFiles.kept {tmp tmp' : Store} (h : OwnFiles thumbOf q tmp l)
    (hk : ∀ path ∈ l.uses q, tmp' path = tmp path ∨ tmp' path = none) : OwnFiles thumbOf q tmp' l := by
  cases l with
  | received tmpName => exact Holds.kept h (hk _ (List.mem_singleton_self _))
  | running o stage =>
    cases stage with
    | localUpload | makeThumbnail => exact Holds.kept h (hk _ (List.mem_singleton_self _))
    | putVideo =>
      exact ⟨h.1.kept (hk _ (List.mem_cons_self ..)), h.2.kept (hk _ (List.mem_cons_of_mem _ (List.mem_singleton_self _)))⟩
    | putThumb => exact Holds.kept h (hk _ (List.mem_singleton_self _))
    | _ => trivial
  | _ => trivial

theorem Effect.ownFiles (h : Effect thumbOf q w l out w' l') (hf : OwnFiles thumbOf q w.tmp l) (hn : MakesOwn q l) :
    OwnFiles thumbOf q w'.tmp l' := by
  cases h with
  | received path => exact holds_update w.tmp path q.content
  | attributes => exact hf
  | moved o b hb =>
    obtain rfl : b = q.content := hf b hb
    exact holds_update _ q.videoPath q.content
  | thumb o path b hpath hb =>
    rw [hn.input, Option.some.injEq] at hpath
    subst hpath
    have hv : Holds w.tmp q.videoPath q.content := hf
    obtain rfl := hv b hb
    exact ⟨hv.kept (.inl (Function.update_of_ne (hn o rfl).2 _ _)), holds_update w.tmp _ _⟩
  | smuggled o zero after hnone =>
    rw [hn.input] at hnone
    cases hnone
  | putVideo o b hb => exact hf.2
  | quit o stage =>  cases stage <;> trivial
  | _ => trivial

theorem Effect.ownPuts (h : Effect thumbOf q w l out w' l') (hf : OwnFiles thumbOf q w.tmp l)
    (hputs : ∀ o, l.upload = some o → OwnPuts thumbOf q o) : ∀ o, l'.upload = some o → OwnPuts thumbOf q o := by
  intro o' ho'
  cases h with
  | received | refused | dropped | killed => cases ho'
  | attributes path a =>
    obtain rfl := Option.some.inj ho'
    exact ⟨nofun, nofun⟩
  | smuggled o zero after =>
    cases zero <;> exact hputs o' ho'
  | putVideo o b hb =>
    obtain rfl := Option.some.inj ho'
    refine ⟨fun b' hb' => ?_, (hputs o rfl).2⟩
    obtain rfl := Option.some.inj hb'
    exact hf.1 b hb
  | putThumb o b hb =>
    obtain rfl := Option.some.inj ho'
    refine ⟨(hputs o rfl).1, fun b' hb' => ?_⟩
    obtain rfl := Option.some.inj hb'
    exact hf b hb
  | inserted o t ht =>
    obtain rfl := Option.some.inj ho'
    exact hputs o rfl
  | _ => exact hputs o' ho'

end

/-! ## Requests side by side -/

structure Unmixed (thumbOf : Bytes → Bytes) (s : Site ι) : Prop where
  files : ∀ i, OwnFiles thumbOf (requests i) s.world.tmp (s.locals i)
  puts : ∀ i o, s.upload i = some o → OwnPuts thumbOf (requests i) o

variable {requests} [DecidableEq ι] {s s' : Site ι} {e : ι × Outcome}

theorem Unmixed.step (hs : Unmixed requests thumbOf s) (hg : WritesApart requests s e)
    (h : (site thumbOf requests).step s e = some s') : Unmixed requests thumbOf s' := by
  obtain ⟨he, hother⟩ := site_step h
  refine ⟨fun i => ?_, fun i o ho => ?_⟩
  · by_cases hi : i = e.1
    · subst hi
      exact he.ownFiles (hs.files e.1) hg.2
    · rw [hother i hi]
      apply (hs.files i).kept
      intro path hu
      exact he.tmp_kept hg.2 fun hw => hg.1 path hw i hi hu
  · by_cases hi : i = e.1
    · subst hi
      exact he.ownPuts (hs.files e.1) (hs.puts e.1) o ho
    · rw [upload_other h hi] at ho
      exact hs.puts i o ho

/-- In such a run each upload stores the bytes it brought, and the thumbnail
made of them. -/
theorem uploads_unmixed {w : World} {es : List (ι × Outcome)}
    (hg : (site thumbOf requests).Guarded (WritesApart requests) (.opening w) es)
    (h : (site thumbOf requests).run (.opening w) es = some s) {i : ι} {o : Upload} (ho : s.upload i = some o) :
    (∀ b, o.putVideo = some b → b = (requests i).content) ∧
      ∀ b, o.putThumb = some b → b = thumbOf (requests i).content := by
  have h₀ : Unmixed requests thumbOf (Site.opening w : Site ι) := ⟨fun i => trivial, fun i o ho => by cases ho⟩
  exact (Machine.guarded_invariant (fun _ _ _ hs hg h => hs.step hg h) h₀ hg h).puts i o ho

theorem sample_uploads_unmixed :
    ∃ s : Site Bool, (∃ o b, s.upload false = some o ∧ o.putVideo = some b ∧ b = sampleRequest.content) ∧
      ∃ o b, s.upload true = some o ∧ o.putThumb = some b ∧ b = sampleThumb (laterRequest.content) := by
  let es := ((sampleEvents sampleTmpName sampleAttributes).zip (sampleEvents laterTmpName laterAttributes)).flatMap
    fun out => [(false, out.1), (true, out.2)]
  let run := (site sampleThumb twoRequests).run (.opening sampleWorld) es
  have hg : (site sampleThumb twoRequests).Guarded (WritesApart twoRequests) (.opening sampleWorld) es := by
    unfold WritesApart MakesOwn
    decide +kernel
  have hputs : run.map (fun s => ((s.upload false).map (·.putVideo.isSome), (s.upload true).map (·.putThumb.isSome))) =
      some (some true, some true) := by
    decide +kernel
  obtain ⟨s, hs, hp⟩ := Option.map_eq_some_iff.mp hputs
  obtain ⟨hf, ht⟩ := Prod.mk.inj hp
  obtain ⟨o, ho, hov⟩ := Option.map_eq_some_iff.mp hf
  obtain ⟨o', ho', hot⟩ := Option.map_eq_some_iff.mp ht
  obtain ⟨b, hb⟩ := Option.isSome_iff_exists.mp hov
  obtain ⟨b', hb'⟩ := Option.isSome_iff_exists.mp hot
  exact ⟨s, ⟨o, b, ho, hb, (uploads_unmixed hg hs ho).1 b hb⟩, o', b', ho', hb', (uploads_unmixed hg hs ho').2 b' hb'⟩

/-- Two files of the same name: the second arrives before the first is stored. -/
theorem same_name_mixes :
    ¬ ∀ (requests : Bool → Request) (es : List (Bool × Outcome)) (s : Site Bool),
      (site sampleThumb requests).run (.opening sampleWorld) es = some s →
      (∀ o o', s.upload false = some o → s.upload true = some o' → o.attrs.uuid ≠ o'.attrs.uuid) →
      ∀ i o b, s.upload i = some o → o.putVideo = some b → b = (requests i).content := by
  intro h
  let requests := fun i : Bool => { sampleRequest with content := if i then [9, 9, 9] else [0, 1, 2, 3] }
  let es : List (Bool × Outcome) :=
    [(false, .received sampleTmpName), (false, .attributes sampleAttributes), (true, .received laterTmpName),
      (true, .attributes laterAttributes), (false, .done), (true, .done), (false, .done), (false, .done)]
  have hrun : ((site sampleThumb requests).run (.opening sampleWorld) es).map (fun s =>
      ((s.upload false).map fun o => (o.putVideo, o.attrs.uuid), (s.upload true).map fun o => o.attrs.uuid)) =
      some (some (some [9, 9, 9], sampleAttributes.uuid), some laterAttributes.uuid) := by
    decide +kernel
  obtain ⟨s, hs, hp⟩ := Option.map_eq_some_iff.mp hrun
  obtain ⟨hf, ht⟩ := Prod.mk.inj hp
  obtain ⟨o, ho, hov⟩ := Option.map_eq_some_iff.mp hf
  obtain ⟨o', ho', hou⟩ := Option.map_eq_some_iff.mp ht
  obtain ⟨hput, huuid⟩ := Prod.mk.inj hov
  have hd : ∀ p p', s.upload false = some p → s.upload true = some p' → p.attrs.uuid ≠ p'.attrs.uuid := by
    intro p p' hp hp'
    rw [ho, Option.some.injEq] at hp
    rw [ho', Option.some.injEq] at hp'
    rw [← hp, ← hp', huuid, hou]
    decide +kernel
  exact absurd (h requests es s hs hd false o _ ho hput) (by decide)

end Vortex
