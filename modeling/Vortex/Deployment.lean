import Mathlib.Data.List.Nodup
import Vortex.Publishing
import Vortex.SqlShape

/-!
# Uploads that keep apart of themselves

What a catalogue asks of every call follows from facts about the requests
and the clock: file names that differ, that shell and `basename` leave as they
are and that are not of the form of PHP's own, texts that are plain for MySQL,
and a clock that no two uploads read at the same microsecond.
-/

namespace Vortex

attribute [local irreducible] insertText

/-! ## uniqid -/

def hexDigit (n : Nat) : Byte := if n < 10 then (48 + n).toUInt8 else (87 + n).toUInt8

def hexDigits : Nat → Nat → Bytes
  | 0, _ => []
  | w + 1, n => hexDigits w (n / 16) ++ [hexDigit (n % 16)]

theorem hexDigits_length : ∀ w n, (hexDigits w n).length = w
  | 0, _ => rfl
  | w + 1, n => by rw [hexDigits, List.length_append, hexDigits_length w]; rfl

theorem hexDigits_hex : ∀ w n, ∀ c ∈ hexDigits w n, isHexDigit c = true
  | 0, _ => by simp [hexDigits]
  | w + 1, n => by
    have hd : ∀ d < 16, isHexDigit (hexDigit d) = true := by decide
    intro c hc
    rcases List.mem_append.mp hc with hc | hc
    · exact hexDigits_hex w _ c hc
    · rw [List.mem_singleton.mp hc]
      exact hd _ (Nat.mod_lt _ (by omega))

theorem hexDigits_inj : ∀ {w m n : Nat}, m < 16 ^ w → n < 16 ^ w → hexDigits w m = hexDigits w n → m = n
  | 0, m, n, hm, hn, _ => by omega
  | w + 1, m, n, hm, hn, h => by
    have hd : ∀ d < 16, ∀ e < 16, hexDigit d = hexDigit e → d = e := by decide
    obtain ⟨hhigh, hlow⟩ := List.append_inj' h rfl
    rw [Nat.pow_succ] at hm hn
    have h₁ : m / 16 = n / 16 := hexDigits_inj (by omega) (by omega) hhigh
    have h₂ : m % 16 = n % 16 := hd _ (Nat.mod_lt _ (by omega)) _ (Nat.mod_lt _ (by omega)) (List.cons.inj hlow).1
    omega

/-- A reading of the clock. -/
structure Clock where
  sec : Nat
  usec : Nat
  sec_lt : sec < 2 ^ 32
  usec_lt : usec < 1000000

/-- `uniqid()`: `sprintf("%08x%05x", sec, usec)`. -/
def uniqid (t : Clock) : Uniqid where
  bytes := hexDigits 8 t.sec ++ hexDigits 5 t.usec
  length := by rw [List.length_append, hexDigits_length, hexDigits_length]
  hex c hc := (List.mem_append.mp hc).elim (hexDigits_hex _ _ c) (hexDigits_hex _ _ c)

/-- Different microseconds give different uuids. -/
theorem uniqid_inj {t t' : Clock} (h : uniqid t = uniqid t') : t = t' := by
  have hb : hexDigits 8 t.sec ++ hexDigits 5 t.usec = hexDigits 8 t'.sec ++ hexDigits 5 t'.usec := congrArg Uniqid.bytes h
  obtain ⟨hs, hu⟩ := List.append_inj hb (by rw [hexDigits_length, hexDigits_length])
  have h₁ := hexDigits_inj t.sec_lt t'.sec_lt hs
  have h₂ := hexDigits_inj (Nat.lt_trans t.usec_lt (by omega)) (Nat.lt_trans t'.usec_lt (by omega)) hu
  cases t
  cases t'
  cases h₁
  cases h₂
  rfl

/-! ## Plain requests -/

variable {thumbOf : Bytes → Bytes} {ι : Type*}

structure Deployable (requests : ι → Request) : Prop where
  names : ∀ i j, i ≠ j → (requests i).name.bytes ≠ (requests j).name.bytes
  plain : ∀ i, (requests i).plainName
  temp : ∀ i, isUploadName (requests i).videoPath = false
  ext : ∀ i, (requests i).ext ≠ str "jpg"
  sql : ∀ i, sqlInert (requests i).name.bytes = true ∧ sqlInert (requests i).description = true ∧
    sqlInert (requests i).title = true ∧ selfReading (requests i).ext = true

/-- The uuids that the calls draw, in turn. -/
def draws (es : List (ι × Outcome)) : List Uniqid := es.filterMap fun e => e.2.drawn

variable {requests : ι → Request} {s s' : Site ι} {e : ι × Outcome} {es : List (ι × Outcome)}

theorem readInsert_own (q : Request) (a : Attributes)
    (h : sqlInert q.name.bytes = true ∧ sqlInert q.description = true ∧ sqlInert q.title = true ∧
      selfReading q.ext = true) : readInsert (insertText (q.values a)) = some [q.values a] := by
  have hf := (isOneInsert_iff _).mp ((isOneInsert_values_iff q a).mpr h)
  rw [readInsert_insertText, read_literals_of_selfReading (by simp [Values.fields]) hf]
  rfl

/-! ## The files are there -/

/-- The file that PHP has stored for the request. -/
def Local.temp : Local → List Bytes
  | .received tmpName => [tmpName]
  | .running o .localUpload => [o.tmpName]
  | _ => []

/-- The files that requests will still read exist, and each has its own from
PHP. -/
structure FilesReady (requests : ι → Request) (s : Site ι) : Prop where
  present : ∀ i, ∀ path ∈ (s.locals i).uses (requests i), (s.world.tmp path).isSome
  named : ∀ i, ∀ path ∈ (s.locals i).temp, isUploadName path = true
  apart : ∀ i j, ∀ path ∈ (s.locals i).temp, path ∈ (s.locals j).temp → i = j

theorem Local.temp_uses {q : Request} {l : Local} {path : Bytes} (h : path ∈ l.temp) : path ∈ l.uses q := by
  unfold Local.temp at h
  split at h
  · exact h
  · exact h
  · cases h

theorem Local.uses_eq {q : Request} {l : Local} {path : Bytes} (h : path ∈ l.uses q) :
    path ∈ l.temp ∨ path = q.videoPath ∨ ∃ o, l.upload = some o ∧ path = thumbPath o.attrs.uuid := by
  unfold Local.uses at h
  split at h
  · exact .inl h
  · exact .inl h
  · exact .inr (.inl (List.mem_singleton.mp h))
  · rcases List.mem_cons.mp h with h | h
    · exact .inr (.inl h)
    · exact .inr (.inr ⟨_, rfl, List.mem_singleton.mp h⟩)
  · exact .inr (.inr ⟨_, rfl, List.mem_singleton.mp h⟩)
  · cases h

theorem thumbPath_not_uploadName (uuid : Uniqid) : isUploadName (thumbPath uuid) = false := by
  have hlen : (thumbPath uuid).length = 22 := by simp [thumbPath, str, uuid.length]
  simp [isUploadName, hlen]

section
variable {q : Request} {w w' : World} {l l' : Local} {out : Outcome}

/-- A call touches no files but those of its own upload. -/
theorem Effect.tmp_other (h : Effect thumbOf q w l out w' l') (hn : q.plainName) {path : Bytes}
    (hp : (w.tmp path).isSome) (hu : path ∉ l.temp) (hv : path ≠ q.videoPath)
    (ht : ∀ o, l.upload = some o → path ≠ thumbPath o.attrs.uuid) : w'.tmp path = w.tmp path := by
  cases h with
  | received path' _ hnone =>
    refine Function.update_of_ne ?_ _ _
    rintro rfl
    rw [hnone] at hp
    cases hp
  | moved o =>
    have hne : path ≠ o.tmpName := fun he => hu (List.mem_singleton.mpr he)
    exact (Function.update_of_ne hv _ _).trans (Function.update_of_ne hne _ _)
  | dropped | unmoved => exact Function.update_of_ne (fun he => hu (List.mem_singleton.mpr he)) _ _
  | unlinkVideo => exact Function.update_of_ne (hn.videoPath ▸ hv) _ _
  | thumb o | leaves o | unlinkThumb o => exact Function.update_of_ne (ht o rfl) _ _
  | smuggled o zero after hnone =>
    rw [thumbInput_plain hn] at hnone
    cases hnone
  | _ => rfl

theorem Effect.present (h : Effect thumbOf q w l out w' l') (hn : q.plainName)
    (hp : ∀ path ∈ l.uses q, (w.tmp path).isSome) : ∀ path ∈ l'.uses q, (w'.tmp path).isSome := by
  intro path hu
  cases h with
  | received | moved =>
    rw [List.mem_singleton.mp hu]
    exact isSome_written ..
  | attributes => exact hp path hu
  | thumb o =>
    rcases List.mem_cons.mp hu with rfl | hu
    · exact isSome_write _ _ (hp _ (List.mem_singleton_self _))
    · rw [List.mem_singleton.mp hu]
      exact isSome_written ..
  | smuggled o zero after hnone =>
    rw [thumbInput_plain hn] at hnone
    cases hnone
  | putVideo o => exact hp path (List.mem_cons_of_mem _ hu)
  | _ => cases hu

/-- PHP takes a name that no file has. -/
theorem Effect.temp_new (h : Effect thumbOf q w l out w' l') {path : Bytes} (hu : path ∈ l'.temp) :
    path ∈ l.temp ∨ isUploadName path = true ∧ w.tmp path = none := by
  cases h with
  | received path' hname hnone =>
    obtain rfl := List.mem_singleton.mp hu
    exact .inr ⟨hname, hnone⟩
  | attributes => exact .inl hu
  | smuggled o zero => cases zero <;> cases hu
  | _ => cases hu

end

theorem videoPath_inj {q q' : Request} (hn : q.plainName) (hn' : q'.plainName) (h : q.videoPath = q'.videoPath) :
    q.name.bytes = q'.name.bytes := by
  rw [hn.videoPath, hn'.videoPath] at h
  exact List.append_cancel_left h

theorem thumbPath_inj {u u' : Uniqid} (h : thumbPath u = thumbPath u') : u = u' := by
  unfold thumbPath at h
  rw [List.append_assoc, List.append_assoc] at h
  exact uuid_of_key (List.append_cancel_left h)

/-- What a deployed run keeps. -/
structure Ready (requests : ι → Request) (s : Site ι) : Prop where
  attributed : Attributed s
  media : MediaInv requests s
  files : FilesReady requests s

/-- The files of one upload are none of another's. -/
theorem Ready.files_apart (hr : Deployable requests) (hs : Ready requests s) {i j : ι} (hij : i ≠ j) {path : Bytes}
    (hu : path ∈ (s.locals i).uses (requests i)) :
    path ∉ (s.locals j).temp ∧ path ≠ (requests j).videoPath ∧
      ∀ o, s.upload j = some o → path ≠ thumbPath o.attrs.uuid := by
  have named : ∀ {k path}, path ∈ (s.locals k).temp → isUploadName path = false → False := by
    intro k path hk hfalse
    rw [hs.files.named k path hk] at hfalse
    cases hfalse
  rcases Local.uses_eq hu with ht | rfl | ⟨o, ho, rfl⟩
  · exact ⟨fun hj => hij (hs.files.apart i j path ht hj), fun he => named ht (he ▸ hr.temp j),
      fun o _ he => named ht (he ▸ thumbPath_not_uploadName _)⟩
  · exact ⟨fun hj => named hj (hr.temp i), fun he => hr.names i j hij (videoPath_inj (hr.plain i) (hr.plain j) he),
      fun _ _ => videoPath_ne_thumbPath (hr.ext i)⟩
  · exact ⟨fun hj => named hj (thumbPath_not_uploadName _), fun he => videoPath_ne_thumbPath (hr.ext j) he.symm,
      fun o' ho' he => hij (hs.attributed.apart i j o o' ho ho' (thumbPath_inj he))⟩

/-! ## The calls keep apart -/

variable [DecidableEq ι]

theorem Local.writes_eq {q : Request} {l : Local} {out : Outcome} {path : Bytes} (h : path ∈ l.writes q out) :
    l = .waiting ∧ out = .received path ∨ path = q.videoPath ∨ ∃ o, l.upload = some o ∧ path = thumbPath o.attrs.uuid := by
  unfold Local.writes at h
  split at h
  · rw [List.mem_singleton.mp h]
    exact .inl ⟨rfl, rfl⟩
  · exact .inr (.inl (List.mem_singleton.mp h))
  · exact .inr (.inr ⟨_, rfl, List.mem_singleton.mp h⟩)
  · cases h

theorem received_act {q : Request} {w : World} {path : Bytes} {p : World × Local}
    (h : act thumbOf q w .waiting (.received path) = some p) : w.tmp path = none := by
  have hact : (if isUploadName path && (w.tmp path).isNone then
      some (({ w with tmp := Function.update w.tmp path (some q.content) }, .received path) : World × Local) else none) =
      some p := h
  split at hact
  · rename_i hc
    exact Option.isNone_iff_eq_none.mp (Bool.and_eq_true_iff.mp hc).2
  · cases hact

theorem Ready.writesApart (hr : Deployable requests) (hs : Ready requests s)
    (h : (site thumbOf requests).step s e = some s') : WritesApart requests s e := by
  refine ⟨fun path hw j hj hu => ?_, fun _ _ => ⟨hr.plain e.1, videoPath_ne_thumbPath (hr.ext e.1)⟩⟩
  obtain ⟨-, hv, ht⟩ := hs.files_apart hr hj hu
  rcases Local.writes_eq hw with ⟨hl, ho⟩ | rfl | ⟨o, ho, rfl⟩
  · obtain ⟨p, ha, -⟩ := Option.map_eq_some_iff.mp h
    rw [hl, ho] at ha
    have hp := hs.files.present j path hu
    rw [received_act ha] at hp
    cases hp
  · exact hv rfl
  · exact ht o ho rfl

theorem FilesReady.step (hr : Deployable requests) (hs : Ready requests s)
    (h : (site thumbOf requests).step s e = some s') : FilesReady requests s' := by
  obtain ⟨he, hother⟩ := site_step h
  -- what PHP stores now is not in use
  have fresh : ∀ j, ∀ path ∈ (s.locals j).temp, path ∈ (s'.locals e.1).temp → j = e.1 := by
    intro j path hj hu
    rcases he.temp_new hu with hu | ⟨-, hnone⟩
    · exact hs.files.apart j e.1 path hj hu
    · have hp := hs.files.present j path (Local.temp_uses hj)
      rw [hnone] at hp
      cases hp
  refine ⟨fun i path hu => ?_, fun i path hu => ?_, fun i j path hi hj => ?_⟩
  · by_cases hi : i = e.1
    · subst hi
      exact he.present (hr.plain e.1) (hs.files.present e.1) path hu
    · rw [hother i hi] at hu
      obtain ⟨ht, hv, hthumb⟩ := hs.files_apart hr hi hu
      rw [he.tmp_other (hr.plain e.1) (hs.files.present i path hu) ht hv hthumb]
      exact hs.files.present i path hu
  · by_cases hi : i = e.1
    · subst hi
      exact (he.temp_new hu).elim (hs.files.named e.1 path) And.left
    · rw [hother i hi] at hu
      exact hs.files.named i path hu
  · by_cases hie : i = e.1
    · by_cases hje : j = e.1
      · rw [hie, hje]
      · rw [hother j hje] at hj
        rw [hie] at hi ⊢
        exact (fresh j path hj hi).symm
    · rw [hother i hie] at hi
      by_cases hje : j = e.1
      · rw [hje] at hj ⊢
        exact fresh i path hi hj
      · rw [hother j hje] at hj
        exact hs.files.apart i j path hi hj

theorem Ready.step (hr : Deployable requests) (hs : Ready requests s) (hg : NewUuid s e)
    (h : (site thumbOf requests).step s e = some s') : Ready requests s' :=
  have ht := (hs.writesApart hr h).tame h
  ⟨hs.attributed.step ⟨ht, hg, fun _ _ => readInsert_own _ _ (hr.sql e.1)⟩ h, hs.media.step ht h, FilesReady.step hr hs h⟩

omit [DecidableEq ι] in
theorem ready_opening {w : World} (hw : w.db.rows.Pairwise fun r r' => r.uuid ≠ r'.uuid) :
    Ready requests (Site.opening w) :=
  ⟨attributed_opening hw, mediaInv_opening w, nofun, nofun, nofun⟩

/-! ## The uuids to come -/

omit [DecidableEq ι] in
theorem draws_cons (e : ι × Outcome) (es : List (ι × Outcome)) : draws (e :: es) = e.2.drawn.toList ++ draws es := by
  unfold draws
  rw [List.filterMap_cons]
  cases e.2.drawn <;> rfl

/-- The uuids still to be drawn are new. -/
structure Ahead (requests : ι → Request) (s : Site ι) (es : List (ι × Outcome)) : Prop where
  ready : Ready requests s
  nodup : (draws es).Nodup
  uploads : ∀ u ∈ draws es, ∀ i o, s.upload i = some o → o.attrs.uuid ≠ u
  rows : ∀ u ∈ draws es, ∀ r ∈ s.world.db.rows, r.uuid ≠ u.bytes

omit [DecidableEq ι] in
theorem Ahead.newUuid (hs : Ahead requests s (e :: es)) : NewUuid s e := by
  intro u hu
  have hmem : u ∈ draws (e :: es) := by
    rw [draws_cons]
    exact List.mem_append_left _ (Option.mem_toList.mpr hu)
  exact ⟨fun j o ho => hs.uploads u hmem j o ho, hs.rows u hmem⟩

theorem Ahead.keepsApart (hr : Deployable requests) (hs : Ahead requests s (e :: es))
    (h : (site thumbOf requests).step s e = some s') : KeepsApart requests s e :=
  ⟨hs.ready.writesApart hr h, hs.newUuid, fun _ _ => readInsert_own _ _ (hr.sql e.1)⟩

theorem Ahead.step (hr : Deployable requests) (hs : Ahead requests s (e :: es))
    (h : (site thumbOf requests).step s e = some s') : Ahead requests s' es := by
  have hlater : ∀ u ∈ draws es, u ∈ draws (e :: es) := fun u hu => by
    rw [draws_cons]
    exact List.mem_append_right _ hu
  have hnodup := hs.nodup
  rw [draws_cons, List.nodup_append] at hnodup
  obtain ⟨he, -⟩ := site_step h
  have hkept := he.kept_or_inserted ((hs.keepsApart hr h).1.tame h)
  refine ⟨hs.ready.step hr hs.newUuid h, hnodup.2.1, fun u hu i o' ho' => ?_, fun u hu r hmem => ?_⟩
  · by_cases hi : i = e.1
    · subst hi
      rcases hkept with ⟨-, hup⟩ | ⟨o, t, hl, -, -, -, hl'⟩
      · rcases hup o' ho' with ha | ⟨o, ho, ha, -⟩
        · exact hnodup.2.2 _ (by rw [ha]; exact List.mem_singleton_self _) u hu
        · rw [← ha]
          exact hs.uploads u (hlater u hu) e.1 o ho
      · rw [Site.upload, hl'] at ho'
        cases ho'
        exact hs.uploads u (hlater u hu) e.1 o (by rw [Site.upload, hl]; rfl)
    · rw [upload_other h hi] at ho'
      exact hs.uploads u (hlater u hu) i o' ho'
  · rcases hkept with ⟨hdb, -⟩ | ⟨o, t, hl, -, ht, hw, -⟩
    · rw [hdb] at hmem
      exact hs.rows u (hlater u hu) r hmem
    · obtain ⟨vs, new, hvs, hrows, -, hnew⟩ := Table.execInsert_rows ht
      rw [readInsert_own _ _ (hr.sql e.1), Option.some.injEq] at hvs
      subst hvs
      rw [hw] at hmem
      change r ∈ t.rows at hmem
      rw [hrows] at hmem
      rcases List.mem_append.mp hmem with hmem | hmem
      · exact hs.rows u (hlater u hu) r hmem
      · obtain ⟨v, hv, id, rfl⟩ := hnew r hmem
        rw [List.mem_singleton.mp hv, row_uuid]
        exact fun hu' => hs.uploads u (hlater u hu) e.1 o (by rw [Site.upload, hl]; rfl) (Uniqid.ext hu')

section
variable (hr : Deployable requests) {w : World} {ticks : List Clock} (hticks : ticks.Nodup)
  (hdraws : draws es = ticks.map uniqid) (hw : w.db.rows.Pairwise fun r r' => r.uuid ≠ r'.uuid)
  (hold : ∀ t ∈ ticks, ∀ r ∈ w.db.rows, r.uuid ≠ (uniqid t).bytes)
include hticks hdraws hw hold

omit [DecidableEq ι] in
theorem ahead_opening : Ahead requests (Site.opening w : Site ι) es := by
  refine ⟨ready_opening hw, ?_, nofun, fun u hu => ?_⟩
  · rw [hdraws]
    exact List.Nodup.map (fun _ _ => uniqid_inj) hticks
  · rw [hdraws] at hu
    obtain ⟨t, ht, rfl⟩ := List.mem_map.mp hu
    exact hold t ht

variable (h : (site thumbOf requests).run (.opening w) es = some s)
include hr h

theorem deployed_keepsApart : (site thumbOf requests).Guarded (KeepsApart requests) (.opening w) es :=
  Machine.guarded_of_ahead (fun _ _ _ _ hs => hs.keepsApart hr) (fun _ _ _ _ hs => hs.step hr)
    (ahead_opening hticks hdraws hw hold) h

end

/-! ## Two uploads in one second -/

def clockOf (usec : Nat) (h : usec < 1000000) : Clock := ⟨0x56f1a2b3, usec, by decide, h⟩

def attributesAt (t : Clock) : Attributes := { sampleAttributes with uuid := uniqid t }

def twoClocks (i : Bool) : Clock := if i then clockOf 315999 (by decide) else clockOf 315998 (by decide)

theorem twoRequests_deployable : Deployable twoRequests := by
  refine ⟨fun i j hij => ?_, fun i => ?_, fun i => ?_, fun i => ?_, fun i => ?_⟩
  · cases i <;> cases j <;> first | exact absurd rfl hij | decide +kernel
  all_goals cases i <;> decide +kernel

theorem twoClocks_nodup : [twoClocks false, twoClocks true].Nodup := by
  simp [twoClocks, clockOf]

end Vortex
