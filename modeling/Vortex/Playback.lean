import Vortex.Media
import Vortex.Residue
import Vortex.VideoPlayer

/-!
# From the upload to the player

The uploader names the object after the whole extension, the table keeps three
bytes of it, and the player knows six. Where the extension is one of the six,
the player's URL ends in the key, and the object has the uploaded bytes.
-/

namespace Vortex

open Ascii

attribute [local irreducible] insertText

variable {thumbOf : Bytes → Bytes}

/-! ## Extensions -/

theorem dot_not_mem_ext (q : Request) : dot ∉ q.ext := by
  unfold Request.ext pathinfoExtension afterLastDot
  split
  · intro h
    simpa using List.mem_rtakeWhile_imp h
  · simp

theorem thumbPath_extension (L : Locale) (uuid : Uniqid) : pathinfoExtension L (thumbPath uuid) = str "jpg" := by
  have hslash : ∀ c ∈ uuid.bytes ++ dot :: str "jpg", c ≠ slash := by
    intro c hc
    rintro rfl
    rcases List.mem_append.mp hc with hc | hc
    · exact absurd (uuid.hex _ hc) (by decide)
    · exact absurd hc (by decide)
  have hpath : thumbPath uuid = tmpPath (uuid.bytes ++ dot :: str "jpg") := by
    simp [thumbPath, tmpPath, str]
  obtain ⟨c, x, hu⟩ : ∃ c x, uuid.bytes = c :: x := List.exists_cons_of_length_pos (by rw [uuid.length]; decide)
  have hascii : c < 128 := by
    have := uuid.hex c (by rw [hu]; exact List.mem_cons_self ..)
    simp only [isHexDigit, isDigit, Bool.or_eq_true, Bool.and_eq_true, decide_eq_true_eq] at this
    grind
  have hchar : (L.mblen (uuid.bytes ++ dot :: str "jpg")).isSome := by
    rw [hu, List.cons_append, L.ascii c _ hascii]
    rfl
  rw [pathinfoExtension, hpath, basename_tmpPath L hslash hchar (by simp)]
  exact afterLastDot_append _ (by decide +kernel)

theorem extension_of_suffix {p u u' x y : Bytes} (h : u ++ str "." ++ x <:+ p ++ (u' ++ str "." ++ y))
    (hx : dot ∉ x) (hy : dot ∉ y) : x = y := by
  have hne : ∀ {t : Bytes}, dot ∉ t → ∀ c ∈ t, c ≠ dot := fun ht c hc he => ht (he ▸ hc)
  obtain ⟨t, ht⟩ := h
  have ht' : (t ++ u) ++ dot :: x = (p ++ u') ++ dot :: y := by
    simpa [str] using ht
  rw [← afterLastDot_append (t ++ u) (hne hx), ht', afterLastDot_append _ (hne hy)]

section
variable {q : Request} {uuid : Uniqid}

theorem videoPath_ne_thumbPath (hx : q.ext ≠ str "jpg") : q.videoPath ≠ thumbPath uuid := by
  intro h
  apply hx
  change pathinfoExtension q.locale q.videoPath = _
  rw [h, thumbPath_extension]

theorem keyname_ne_thumbName (hx : q.ext ≠ str "jpg") : q.keyname uuid ≠ thumbName uuid := by
  intro h
  apply hx
  have h' : uuid.bytes ++ (dot :: q.ext) = uuid.bytes ++ (dot :: str "jpg") := by
    simpa [Request.keyname, thumbName, str] using h
  exact (List.cons.inj (List.append_cancel_left h')).2

end

/-! ## Where the uploaded bytes are -/

/-- Where the thumbnail line was another command, it left the video alone. -/
def Faithful (q : Request) (os : List Outcome) : Prop :=
  ∀ after, .smuggled true after ∈ os → after.tmp q.videoPath = some q.content

def Unsmuggled (os : List Outcome) : Prop := ∀ after, .smuggled true after ∉ os

/-- Whether the working file, and then the object, has the uploaded bytes. -/
def Traced (q : Request) (os : List Outcome) (s : World × Local) : Prop :=
  match s.2 with
  | .waiting => Unsmuggled os
  | .received tmpName => Unsmuggled os ∧ s.1.tmp tmpName = some q.content
  | .running o .localUpload => Unsmuggled os ∧ s.1.tmp o.tmpName = some q.content
  | .running _ .makeThumbnail => Unsmuggled os ∧ s.1.tmp q.videoPath = some q.content
  | .running _ .putVideo => s.1.tmp q.videoPath = some q.content ↔ Faithful q os
  | .running o _ | .ended (some (o, .getVID)) _ =>
    s.1.bucket (q.keyname o.attrs.uuid) = some q.content ↔ Faithful q os
  | .ended _ _ => True

section
variable {q : Request} {w w' : World} {l l' : Local} {os : List Outcome} {out : Outcome}

theorem Traced.smuggled {after : World} (hs : Traced q os (w, l))
    (h : act thumbOf q w l (.smuggled true after) = some (w', l')) :
    Traced q (os ++ [.smuggled true after]) (w', l') := by
  obtain ⟨o, rfl, -, rfl, rfl⟩ := smuggled_act thumbOf h
  have hno : Unsmuggled os := hs.1
  change w'.tmp q.videoPath = some q.content ↔ Faithful q (os ++ [.smuggled true w'])
  unfold Unsmuggled at hno
  simp [Faithful, hno]

theorem faithful_concat (ho : ∀ after, out ≠ .smuggled true after) : Faithful q (os ++ [out]) ↔ Faithful q os := by
  have hne : ∀ after, Outcome.smuggled true after ≠ out := fun after h => ho after h.symm
  simp [Faithful, hne]

theorem Unsmuggled.concat (h : Unsmuggled os) (ho : ∀ after, out ≠ .smuggled true after) : Unsmuggled (os ++ [out]) := by
  intro after hm
  rcases List.mem_append.mp hm with hm | hm
  · exact h after hm
  · exact ho after (List.mem_singleton.mp hm).symm

theorem Traced.step (hx : q.ext ≠ str "jpg") (hs : Traced q os (w, l)) (ho : ∀ after, out ≠ .smuggled true after)
    (h : Effect thumbOf q w l out w' l') : Traced q (os ++ [out]) (w', l') := by
  have hf : Faithful q (os ++ [out]) ↔ Faithful q os := faithful_concat ho
  cases h with
  | received path => exact ⟨Unsmuggled.concat hs ho, Function.update_self ..⟩
  | attributes => exact ⟨hs.1.concat ho, hs.2⟩
  | refused | dropped | killed | unmoved | leaves => trivial
  | moved o b hb =>
    obtain ⟨hno, hkept⟩ : _ ∧ _ := hs
    obtain rfl : b = q.content := Option.some.inj (hb.symm.trans hkept)
    exact ⟨hno.concat ho, Function.update_self ..⟩
  | thumb o path b hp hb =>
    obtain ⟨hno, hkept⟩ : _ ∧ _ := hs
    have hall : Faithful q os := fun after hm => absurd hm (hno after)
    change Function.update w.tmp (thumbPath o.attrs.uuid) _ q.videoPath = _ ↔ _
    rw [hf, Function.update_of_ne (videoPath_ne_thumbPath hx)]
    exact iff_of_true hkept hall
  | smuggled o zero after hnone =>
    cases zero with
    | true => exact absurd rfl (ho _)
    | false => trivial
  | putVideo o b hb =>
    have hs : w.tmp q.videoPath = some q.content ↔ Faithful q os := hs
    change Function.update w.bucket (q.keyname o.attrs.uuid) (some b) (q.keyname o.attrs.uuid) = _ ↔ _
    rw [hf, Function.update_self, ← hb]
    exact hs
  | putThumb o b hb =>
    change Function.update w.bucket (thumbName o.attrs.uuid) (some b) (q.keyname o.attrs.uuid) = _ ↔ _
    rw [hf, Function.update_of_ne (keyname_ne_thumbName hx)]
    exact hs
  | unlinkVideo | unlinkThumb | inserted | noRow | found => exact Iff.trans hs hf.symm
  | quit o stage e out he =>
    cases stage with
    | getVID => exact Iff.trans hs hf.symm
    | _ => trivial

theorem traced_run (hx : q.ext ≠ str "jpg") {s : World × Local}
    (h : (alone thumbOf q).run (w, .waiting) os = some s) : Traced q os s := by
  have h₀ : Traced q [] (w, .waiting) := fun after hm => by cases hm
  refine Machine.run_history (I := Traced q) h₀ ?_ h
  intro os s out s' _ hs hst
  by_cases ho : ∃ after, out = .smuggled true after
  · obtain ⟨after, rfl⟩ := ho
    exact hs.smuggled hst
  · exact hs.step hx (not_exists.mp ho) (act_effect thumbOf hst)

theorem faithful_of_inert (hn : shellInert q.name.bytes = true) {s : World × Local}
    (h : (alone thumbOf q).run (w, .waiting) os = some s) : Faithful q os := by
  let I := fun (os : List Outcome) (_ : World × Local) => Unsmuggled os
  have hI : I os s := by
    refine Machine.run_history (I := I) (fun after hm => by cases hm) ?_ h
    intro os s out s' _ hs hst
    apply Unsmuggled.concat hs
    intro after ho
    subst ho
    obtain ⟨o, -, hnone, -⟩ := smuggled_act thumbOf hst
    rw [thumbInput_inert hn] at hnone
    cases hnone
  exact fun after hm => absurd hm (hI after)

end

/-! ## The row the player finds -/

section
variable {q : Request} {w w' : World} {os : List Outcome} {o : Upload} {v : Nat}

theorem player_row (h : (alone thumbOf q).run (w, .waiting) os = some (w', .ended (some (o, .getVID)) (.player v))) :
    ∃ r, w'.db.rows.find? (fun r => r.uuid == o.attrs.uuid.bytes) = some r ∧ w'.db.byId v = some r ∧
      r.uuid = o.attrs.uuid.bytes := by
  obtain ⟨o', ho', hid⟩ := player_run h rfl
  cases ho'
  obtain ⟨r, hr, rfl⟩ := Option.map_eq_some_iff.mp hid
  exact ⟨r, hr, w'.db.byId_of_mem (List.mem_of_find?_eq_some hr), by simpa using List.find?_some hr⟩

theorem inserted_run (hn : q.plainName)
    (h : (alone thumbOf q).run (w, .waiting) os = some (w', .ended (some (o, .getVID)) (.player v)))
    (hrow : w.db.rows.length < w'.db.rows.length) :
    w.db.execInsert (insertText (q.values o.attrs)) = some w'.db := by
  have hr : Residue q w w' o .getVID := leaves_run h hn
  rcases hr.table with hdb | hins
  · rw [hdb] at hrow
    exact absurd hrow (Nat.lt_irrefl _)
  · exact hins

theorem own_row (h : (alone thumbOf q).run (w, .waiting) os = some (w', .ended (some (o, .getVID)) (.player v))) {id : Nat}
    (hid : o.row = some id) : (q.values o.attrs).row id ∈ w'.db.rows := by
  let I := fun s : World × Local => s.2.ordered ∧ ∀ o, s.2.upload = some o → HasMedia q s.1 o
  have hI : I (w', .ended (some (o, .getVID)) (.player v)) := by
    have h₀ : I (w, .waiting) := ⟨trivial, fun o ho => by cases ho⟩
    refine Machine.run_invariant (I := I) ?_ h₀ h
    intro s out s' hs hst
    have he := act_effect thumbOf hst
    exact ⟨he.ordered hs.1, he.hasMedia hs.1 hs.2⟩
  exact (hI.2 o rfl).row id hid

theorem supported_plain : ∀ ext ∈ supported, ext ≠ [] ∧ (∀ c ∈ ext, isLower c = true ∨ isDigit c = true) ∧
    dot ∉ ext ∧ ext ≠ str "jpg" ∧ charColumn 3 ext = ext := by
  decide +kernel

/-- An INSERT with a supported extension adds one row, with the uuid and the
extension of the request, whatever the texts before them do. -/
theorem supported_row {t t' : Table} {a : Attributes} (hx : q.ext ∈ supported)
    (ht : t.execInsert (insertText (q.values a)) = some t') :
    ∃ r, t'.rows = t.rows ++ [r] ∧ r.uuid = a.uuid.bytes ∧ r.ext = q.ext := by
  obtain ⟨hne, hplain, -, -, hchar⟩ := supported_plain q.ext hx
  obtain ⟨vs, new, hvs, hrows, hlen, hnew⟩ := Table.execInsert_rows ht
  obtain ⟨v, rfl, hu, he⟩ := insert_plain_row hne hplain hvs
  obtain ⟨r, rfl⟩ := List.length_eq_one_iff.mp hlen
  obtain ⟨v', hv', id, rfl⟩ := hnew r (List.mem_singleton_self r)
  obtain rfl := List.mem_singleton.mp hv'
  refine ⟨_, hrows, ?_, ?_⟩
  · change charColumn 13 v'.uuid = _
    rw [hu, a.uuid.charColumn]
  · change charColumn 3 v'.ext = _
    rw [he, hchar]

theorem startPlayer_row {t : Table} {r : Row} (h : t.byId v = some r) :
    startPlayer t v = match buildPlayer r with
      | none => .error 61
      | some p => .page p := by
  unfold startPlayer
  cases hb : buildPlayer r with
  | none => simp only [h, hb]
  | some p => simp only [h, hb]

theorem keyname_suffix {r : Row} {b : Branch} (hu : r.uuid = o.attrs.uuid.bytes) (he : r.ext = q.ext) :
    q.keyname o.attrs.uuid <:+ b.base ++ mediaName r := by
  rw [mediaName, hu, he]
  exact List.suffix_append _ _

theorem earlier_row {t t' : Table} {text u : Bytes} {r r' : Row} (ht : t.execInsert text = some t')
    (hr' : t'.rows.find? (fun r => r.uuid == u) = some r') (hr : t.rows.find? (fun r => r.uuid == u) = some r) : r = r' := by
  obtain ⟨-, new, -, hrows, -⟩ := Table.execInsert_rows ht
  rw [hrows, List.find?_append, hr] at hr'
  exact Option.some.inj hr'

theorem found_extension {t t' : Table} {a : Attributes} {r : Row} (hx : q.ext ∈ supported)
    (ht : t.execInsert (insertText (q.values a)) = some t')
    (hr : t'.rows.find? (fun r => r.uuid == a.uuid.bytes) = some r)
    (hsame : ∀ r, t.rows.find? (fun r => r.uuid == a.uuid.bytes) = some r → r.ext = q.ext) : r.ext = q.ext := by
  cases hold : t.rows.find? (fun r => r.uuid == a.uuid.bytes) with
  | some r' =>
    rw [← earlier_row ht hr hold]
    exact hsame r' hold
  | none =>
    obtain ⟨r₁, hrows, -, he⟩ := supported_row hx ht
    rw [hrows, List.find?_append, hold, Option.none_or] at hr
    rw [List.mem_singleton.mp (List.mem_of_find?_eq_some hr)]
    exact he

/-- The player shows a page with the URL of the object exactly when the
extension is supported, and is that of an earlier row with the uuid. The table
`t` is the one that the INSERT found. -/
theorem page_names_key_iff
    (h : (alone thumbOf q).run (w, .waiting) os = some (w', .ended (some (o, .getVID)) (.player v)))
    {t : Table} (hins : t.execInsert (insertText (q.values o.attrs)) = some w'.db) :
    (∃ p, startPlayer w'.db v = .page p ∧ q.keyname o.attrs.uuid <:+ p.source) ↔
      q.ext ∈ supported ∧ ∀ r, t.rows.find? (fun r => r.uuid == o.attrs.uuid.bytes) = some r → r.ext = q.ext := by
  obtain ⟨r, hfind, hbyId, hu⟩ := player_row h
  rw [startPlayer_row hbyId]
  constructor
  · rintro ⟨p, hp, hsuffix⟩
    split at hp
    · cases hp
    · rename_i p' hbuild
      cases hp
      obtain ⟨b, hb, hsource⟩ := buildPlayer_some hbuild
      have hr : r.ext ∈ supported := branch_isSome.mp (by rw [hb]; rfl)
      rw [hsource] at hsuffix
      have he : q.ext = r.ext :=
        extension_of_suffix hsuffix (dot_not_mem_ext q) (supported_plain _ hr).2.2.1
      rw [he]
      exact ⟨hr, fun r' hr' => by rw [earlier_row hins hfind hr']⟩
  · rintro ⟨hx, hsame⟩
    have he : r.ext = q.ext := found_extension hx hins hfind hsame
    obtain ⟨b, hb⟩ := Option.isSome_iff_exists.mp (branch_isSome.mpr (he ▸ hx))
    simp only [buildPlayer, hb]
    exact ⟨_, rfl, keyname_suffix hu he⟩

theorem object_kept_iff
    (h : (alone thumbOf q).run (w, .waiting) os = some (w', .ended (some (o, .getVID)) (.player v)))
    (hx : q.ext ≠ str "jpg") : w'.bucket (q.keyname o.attrs.uuid) = some q.content ↔ Faithful q os :=
  traced_run hx h

/-- A completed upload in a known format plays, and one in an unknown format is
refused by the player. -/
theorem upload_plays
    (h : (alone thumbOf q).run (w, .waiting) os = some (w', .ended (some (o, .getVID)) (.player v)))
    {t : Table} (hins : t.execInsert (insertText (q.values o.attrs)) = some w'.db) :
    (q.ext ∈ supported →
        (∀ r, t.rows.find? (fun r => r.uuid == o.attrs.uuid.bytes) = some r → r.ext = q.ext) →
        ∃ p, startPlayer w'.db v = .page p ∧ q.keyname o.attrs.uuid <:+ p.source) ∧
      (q.ext ≠ str "jpg" → Faithful q os → w'.bucket (q.keyname o.attrs.uuid) = some q.content) ∧
      (o.row = some v → charColumn 3 q.ext ∉ supported → startPlayer w'.db v = .error 61) := by
  refine ⟨fun hx hsame => (page_names_key_iff h hins).mpr ⟨hx, hsame⟩, fun hx => (object_kept_iff h hx).mpr,
    fun hown hx => ?_⟩
  obtain ⟨r, -, hbyId, -⟩ := player_row h
  have hr : (q.values o.attrs).row v ∈ w'.db.rows := own_row h hown
  obtain rfl : (q.values o.attrs).row v = r := Option.some.inj ((w'.db.byId_of_mem hr).symm.trans hbyId)
  rw [startPlayer_row hbyId]
  have hb : branch ((q.values o.attrs).row v).ext = none := by
    rw [row_ext]
    exact Option.not_isSome_iff_eq_none.mp fun hsome => hx (branch_isSome.mp hsome)
  simp only [buildPlayer, hb]

end

/-! ## Two sample runs -/

/-- A format the player does not know. -/
def unknownRequest : Request := { sampleRequest with name := ⟨str "holiday.wmv", by decide +kernel⟩ }

/-- The run of `q` ends at the player, with its row. -/
def Completes (q : Request) (w' : World) (o : Upload) : Prop :=
  (alone sampleThumb q).run (sampleWorld, .waiting) (sampleEvents sampleTmpName sampleAttributes) =
      some (w', .ended (some (o, .getVID)) (.player 58)) ∧
    sampleWorld.db.execInsert (insertText (q.values o.attrs)) = some w'.db ∧ o.attrs.uuid = sampleUuid ∧ o.row = some 58

theorem completes_of_eval {q : Request} (hn : q.plainName)
    (h : ((alone sampleThumb q).run (sampleWorld, .waiting) (sampleEvents sampleTmpName sampleAttributes)).map (fun s =>
      (s.2.exit, s.1.db.rows.length, s.2.upload.map fun o => (o.attrs.uuid, o.row))) =
      some (some (.player 58), 1, some (sampleUuid, some 58))) : ∃ w' o, Completes q w' o := by
  obtain ⟨⟨w', l⟩, hs, hp⟩ := Option.map_eq_some_iff.mp h
  obtain ⟨he, hp⟩ := Prod.mk.inj hp
  obtain ⟨hlen, hu⟩ := Prod.mk.inj hp
  obtain ⟨was, rfl⟩ := Local.exit_some he
  obtain ⟨o, rfl, -⟩ := player_run hs rfl
  obtain ⟨hu, hrow⟩ := Prod.mk.inj (Option.some.inj hu)
  refine ⟨w', o, hs, inserted_run hn hs ?_, hu, hrow⟩
  rw [hlen]
  exact Nat.one_pos

theorem unknown_completes : ∃ w' o, Completes unknownRequest w' o := completes_of_eval (by decide +kernel) (by decide +kernel)

theorem sample_upload_plays :
    (∃ (w' : World) (p : Player), startPlayer w'.db 58 = .page p ∧ sampleRequest.keyname sampleUuid <:+ p.source ∧
      w'.bucket (sampleRequest.keyname sampleUuid) = some sampleRequest.content) ∧
      ∃ w' : World, w'.bucket (unknownRequest.keyname sampleUuid) = some sampleRequest.content ∧
        startPlayer w'.db 58 = .error 61 := by
  constructor
  · obtain ⟨w', o, hs, hins, hu, -⟩ : ∃ w' o, Completes sampleRequest w' o :=
      completes_of_eval (by decide +kernel) (by decide +kernel)
    obtain ⟨hplays, hkept, -⟩ := upload_plays hs hins
    rw [hu] at hplays hkept
    obtain ⟨p, hp, hsuffix⟩ := hplays (by decide +kernel) nofun
    exact ⟨w', p, hp, hsuffix, hkept (by decide +kernel) (faithful_of_inert (by decide +kernel) hs)⟩
  · obtain ⟨w', o, hs, hins, hu, hrow⟩ := unknown_completes
    obtain ⟨-, hkept, hrefused⟩ := upload_plays hs hins
    rw [hu] at hkept
    exact ⟨w', hkept (by decide +kernel) (faithful_of_inert (by decide +kernel) hs),
      hrefused hrow (by decide +kernel)⟩

theorem unknown_format_refused :
    ¬ ∀ (q : Request) (w' : World) (os : List Outcome) (o : Upload) (v : Nat),
      (alone sampleThumb q).run (sampleWorld, .waiting) os = some (w', .ended (some (o, .getVID)) (.player v)) →
      sampleWorld.db.execInsert (insertText (q.values o.attrs)) = some w'.db →
      (∃ p, startPlayer w'.db v = .page p ∧ q.keyname o.attrs.uuid <:+ p.source) ∧
        w'.bucket (q.keyname o.attrs.uuid) = some q.content := by
  intro h
  obtain ⟨w', o, hs, hins, -⟩ := unknown_completes
  have hpage := (page_names_key_iff hs hins).mp (h unknownRequest w' _ o 58 hs hins).1
  exact absurd hpage.1 (by decide +kernel)

end Vortex
