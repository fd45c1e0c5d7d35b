import Mathlib.Data.List.TakeDrop
import Vortex.Media
import Vortex.SqlShape
import Vortex.VideoPlayer

/-!
# What fits its column

The form allows descriptions of 140 characters, but escaping makes a text up
to six times as long and no step compares it with its column. Values come back
as they were inserted exactly when their escaped lengths fit.
-/

namespace Vortex

open Ascii

attribute [local irreducible] insertText

/-! ## The length of an escaped text -/

def entityLength (c : Byte) : Nat :=
  if c = amp then 5 else if c = dquote then 6 else if c = lt || c = gt then 4 else 1

/-- The length `verifyInput` gives a text: its bytes without slashes and
parentheses, each as long as its entity; nothing if it is not UTF-8. -/
def escapedLength (x : Bytes) : Nat :=
  if validUtf8 (stripslashes (trim x)) then
    (((stripslashes (trim x)).filter fun c => !isParen c).map entityLength).sum
  else 0

theorem htmlEscape_length (c : Byte) : (htmlEscape c).length = entityLength c := by
  unfold htmlEscape entityLength
  repeat' split
  all_goals first | rfl | simp_all

theorem escapedLength_eq (x : Bytes) : (verifyInput x).length = escapedLength x := by
  unfold verifyInput htmlspecialchars escapedLength
  split
  · rw [strtrParens_htmlEscape, List.length_flatMap]
    simp only [htmlEscape_length]
    rfl
  · rfl

/-! ## What fits -/

/-- The row has what was inserted, the bitrate as a number. -/
structure Held (v : Values) (r : Row) : Prop where
  title : r.title = v.title
  description : r.description = v.description
  name : r.name = v.name
  duration : timeText r.duration = v.duration
  bitrate : r.bitrate = digitsVal v.bitrate

/-- The bitrate is also printed as it was inserted. -/
structure Kept (v : Values) (r : Row) : Prop extends Held v r where
  written : decimal r.bitrate = v.bitrate

structure Fits (q : Request) (a : Attributes) : Prop where
  title : escapedLength q.title ≤ 127
  description : escapedLength q.description ≤ 255
  name : escapedLength q.name.bytes ≤ 127
  bitrate : digitsVal a.bitrate.bytes ≤ 32767

/-- The bitrate has no leading zero either. -/
structure FitsAsWritten (q : Request) (a : Attributes) : Prop extends Fits q a where
  written : a.bitrate.bytes = [zero] ∨ a.bitrate.bytes.head? ≠ some zero

/-! ## Columns that keep their value -/

theorem varcharColumn_eq_iff {n : Nat} {x : Bytes} : varcharColumn n x = x ↔ x.length ≤ n := by
  rw [varcharColumn, List.take_eq_self_iff]

theorem smallintColumn_eq_iff (b : Bitrate) :
    smallintColumn b.bytes = digitsVal b.bytes ↔ digitsVal b.bytes ≤ 32767 := by
  rw [smallintColumn, List.takeWhile_eq_self_iff.mpr b.digits]
  omega

def isHms : Bytes → Bool
  | [a, b, c, d, e, f, g, h] => isDigit a && isDigit b && c == colon && isMinute d e && f == colon && isMinute g h
  | _ => false

theorem digit_eq {c : Byte} (h : isDigit c = true) : ∃ n < 10, c = (48 + n).toUInt8 := by
  simp only [isDigit, Bool.and_eq_true, decide_eq_true_eq, UInt8.le_iff_toNat_le] at h
  have hl : 48 ≤ c.toNat := h.1
  have hu : c.toNat ≤ 57 := h.2
  refine ⟨c.toNat - 48, by omega, ?_⟩
  rw [Nat.add_sub_cancel' hl]
  exact (UInt8.ofNat_toNat).symm

/-- What holds of all pairs of digits holds of two digit bytes. -/
theorem digits_pair {P : Byte → Byte → Prop} (h : ∀ n < 10, ∀ m < 10, P (48 + n).toUInt8 (48 + m).toUInt8) {a b : Byte}
    (ha : isDigit a = true) (hb : isDigit b = true) : P a b := by
  obtain ⟨n, hn, rfl⟩ := digit_eq ha
  obtain ⟨m, hm, rfl⟩ := digit_eq hb
  exact h n hn m hm

theorem twoDigits_pair {a b : Byte} (ha : isDigit a = true) (hb : isDigit b = true) :
    twoDigits (digitsVal [a, b]) = [a, b] :=
  digits_pair (P := fun a b => twoDigits (digitsVal [a, b]) = [a, b]) (by decide +kernel) ha hb

theorem digitsVal_pair_lt {a b : Byte} (ha : isDigit a = true) (hb : isDigit b = true) : digitsVal [a, b] < 100 :=
  digits_pair (P := fun a b => digitsVal [a, b] < 100) (by decide +kernel) ha hb

theorem isMinute_pair {a b : Byte} (h : isMinute a b = true) :
    isDigit a = true ∧ isDigit b = true ∧ digitsVal [a, b] < 60 := by
  have hab : isDigit a = true ∧ isDigit b = true ∧ a ≤ 53 := by
    simp only [isMinute, isDigit, Bool.and_eq_true, decide_eq_true_eq] at h ⊢
    grind
  obtain ⟨ha, hb, hle⟩ := hab
  exact ⟨ha, hb, digits_pair (P := fun a b => a ≤ 53 → digitsVal [a, b] < 60) (by decide +kernel) ha hb hle⟩

theorem digit_ne_colon {c : Byte} (h : isDigit c = true) : (c == colon) = false := by
  by_cases hc : c = colon
  · rw [hc] at h
    cases h
  · simpa using hc

theorem timeColumn_fields {a b d e g h : Byte} (hx : ∀ c ∈ [a, b, d, e, g, h], isDigit c = true) :
    timeColumn [a, b, colon, d, e, colon, g, h] = seconds (digitsVal [a, b]) (digitsVal [d, e]) (digitsVal [g, h]) := by
  simp only [List.forall_mem_cons] at hx
  obtain ⟨ha, hb, hd, he, hg, hh, -⟩ := hx
  have hs : [a, b, colon, d, e, colon, g, h].splitOn colon = [[a, b], [d, e], [g, h]] := by
    simp [List.splitOn, List.splitOnP_cons_eq_if_modifyHead, digit_ne_colon ha, digit_ne_colon hb, digit_ne_colon hd,
      digit_ne_colon he, digit_ne_colon hg, digit_ne_colon hh]
  rw [timeColumn, hs]
  simp only [List.map_cons, List.map_nil, List.takeWhile_cons, List.takeWhile_nil, ha, hb, hd, he, hg, hh, if_true]

theorem timeText_timeColumn {x : Bytes} (hx : isHms x = true) : timeText (timeColumn x) = x := by
  unfold isHms at hx
  split at hx
  · rename_i a b c d e f g h
    simp only [Bool.and_eq_true, beq_iff_eq] at hx
    obtain ⟨⟨⟨⟨⟨ha, hb⟩, rfl⟩, hde⟩, rfl⟩, hgh⟩ := hx
    obtain ⟨hd, he, hm⟩ := isMinute_pair hde
    obtain ⟨hg, hh, hs⟩ := isMinute_pair hgh
    have hlt := digitsVal_pair_lt ha hb
    rw [timeColumn_fields (by simp only [List.forall_mem_cons]; exact ⟨ha, hb, hd, he, hg, hh, nofun⟩)]
    generalize hH : digitsVal [a, b] = H at hlt
    generalize hM : digitsVal [d, e] = M at hm
    generalize hS : digitsVal [g, h] = S at hs
    have hsec : seconds H M S = H * 3600 + M * 60 + S := by
      rw [seconds, if_pos ⟨hm, hs⟩, Nat.min_eq_left (by omega)]
    have h₁ : (H * 3600 + M * 60 + S) / 3600 = H := by omega
    have h₂ : (H * 3600 + M * 60 + S) / 60 % 60 = M := by omega
    have h₃ : (H * 3600 + M * 60 + S) % 60 = S := by omega
    rw [hsec, timeText, h₁, h₂, h₃, ← hH, ← hM, ← hS, twoDigits_pair ha hb, twoDigits_pair hd he, twoDigits_pair hg hh]
    rfl
  · cases hx

theorem held_iff_fits {q : Request} {a : Attributes} (hd : isHms a.duration.bytes = true) (id : Nat) :
    Held (q.values a) ((q.values a).row id) ↔ Fits q a := by
  constructor
  · intro h
    exact {
      title := by rw [← escapedLength_eq]; exact varcharColumn_eq_iff.mp h.title
      description := by rw [← escapedLength_eq]; exact varcharColumn_eq_iff.mp h.description
      name := by rw [← escapedLength_eq]; exact varcharColumn_eq_iff.mp h.name
      bitrate := (smallintColumn_eq_iff a.bitrate).mp h.bitrate }
  · intro h
    exact {
      title := varcharColumn_eq_iff.mpr ((escapedLength_eq _).trans_le h.title)
      description := varcharColumn_eq_iff.mpr ((escapedLength_eq _).trans_le h.description)
      name := varcharColumn_eq_iff.mpr ((escapedLength_eq _).trans_le h.name)
      duration := timeText_timeColumn hd
      bitrate := (smallintColumn_eq_iff a.bitrate).mpr h.bitrate }

theorem kept_iff_fits {q : Request} {a : Attributes} (hd : isHms a.duration.bytes = true) (id : Nat) :
    Kept (q.values a) ((q.values a).row id) ↔ FitsAsWritten q a := by
  have hwritten := decimal_digitsVal_iff a.bitrate.digits a.bitrate.ne_nil
  have hinserted : (q.values a).bitrate = a.bitrate.bytes := rfl
  constructor
  · intro h
    have hw := h.written
    rw [h.bitrate, hinserted] at hw
    exact ⟨(held_iff_fits hd id).mp h.toHeld, hwritten.mp hw⟩
  · intro h
    have hheld := (held_iff_fits hd id).mpr h.toFits
    exact ⟨hheld, by rw [hheld.bitrate, hinserted]; exact hwritten.mpr h.written⟩

/-! ## How an upload with a row ends -/

section
variable {thumbOf : Bytes → Bytes}

theorem Effect.lookup {q : Request} {w w' : World} {l : Local} {out : Outcome} {o : Upload} {e : Exit}
    (h : Effect thumbOf q w l out w' (.ended (some (o, .getVID)) e)) : l = .running o .getVID := by
  generalize hl : Local.ended (some (o, .getVID)) e = l' at h
  cases h with
  | found o' v hv => cases hl; rfl
  | quit o' stage e' out he => cases hl; rfl
  | smuggled o' zero after => cases zero <;> cases hl
  | _ => cases hl

/-- Once its row is in the table, only a failing connection sends an upload to
an error page. -/
theorem lookup_error {q : Request} {w w' : World} {o : Upload} {out : Outcome} {e : Exit}
    (h : act thumbOf q w (.running o .getVID) out = some (w', .ended (some (o, .getVID)) e))
    (hr : ∃ r ∈ w.db.rows, r.uuid = o.attrs.uuid.bytes) : (∃ code, e = .error code) ↔ out = .fail := by
  cases out with
  | done =>
    obtain ⟨v, hv⟩ : ∃ v, w.db.idOfUuid o.attrs.uuid.bytes = some v := by
      rw [← Option.isSome_iff_exists, Table.idOfUuid, Option.isSome_map, List.find?_isSome]
      obtain ⟨r, hr, hu⟩ := hr
      exact ⟨r, hr, by simpa using hu⟩
    change getVID w o .done = _ at h
    rw [getVID, hv] at h
    cases h
    simp
  | fail | noAnswer | stop =>
    cases h
    simp
  | _ => cases h

variable {ι : Type*} [DecidableEq ι] {requests : ι → Request}

def lastOutcome (i : ι) (es : List (ι × Outcome)) : Option Outcome :=
  ((es.filter fun e => e.1 = i).getLast?).map Prod.snd

theorem lastOutcome_concat (i : ι) (es : List (ι × Outcome)) (e : ι × Outcome) :
    lastOutcome i (es ++ [e]) = if e.1 = i then some e.2 else lastOutcome i es := by
  unfold lastOutcome
  rw [List.filter_append]
  by_cases he : e.1 = i
  · simp [he]
  · simp [he]

/-- The state in which the last call of an ended request was made. -/
theorem ended_by {w : World} {s : Site ι} {es : List (ι × Outcome)}
    (ht : (site thumbOf requests).Guarded (fun s e => e.2.tame s.world) (.opening w) es)
    (h : (site thumbOf requests).run (.opening w) es = some s) {i : ι} {was : Option (Upload × Stage)} {e : Exit}
    (he : s.locals i = .ended was e) :
    ∃ s₁ w₁ out, MediaInv requests s₁ ∧ s₁.world.db.rows <+: s.world.db.rows ∧ lastOutcome i es = some out ∧
      act thumbOf (requests i) s₁.world (s₁.locals i) out = some (w₁, .ended was e) := by
  induction es using List.reverseRecOn generalizing s with
  | nil =>
    cases h
    cases he
  | append_singleton es ev ih =>
    obtain ⟨t, hrun, hlast⟩ := Machine.run_append h
    obtain ⟨s', hst, hs'⟩ := Machine.run_cons hlast
    cases hs'
    have hpre := Machine.guarded_left ht
    have htame := Machine.guarded_right ht hrun
    obtain ⟨heff, hother⟩ := site_step hst
    have hgrown := heff.rows_prefix htame.1
    rw [lastOutcome_concat]
    by_cases hi : ev.1 = i
    · subst hi
      obtain ⟨⟨w₁, l₁⟩, hact, rfl⟩ := Option.map_eq_some_iff.mp hst
      refine ⟨t, w₁, ev.2, mediaInv_run hpre hrun, hgrown, if_pos rfl, ?_⟩
      change Function.update t.locals ev.1 l₁ ev.1 = _ at he
      rw [Function.update_self] at he
      rw [hact, he]
    · rw [hother i fun hi' => hi hi'.symm] at he
      obtain ⟨s₁, w₁, out, hm, hrows, hlast, hact⟩ := ih hpre hrun he
      exact ⟨s₁, w₁, out, hm, hrows.trans hgrown, (if_neg hi).trans hlast, hact⟩

end

end Vortex
