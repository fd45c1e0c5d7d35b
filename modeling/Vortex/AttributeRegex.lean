import Mathlib.Data.List.Infix
import Vortex.Backtrack
import Vortex.VideoUpload

/-!
# The attribute regex

The pattern of `videoAttributes`: a time somewhere, the earliest one, and the
fourth number after it. What it needs is little: one digit, a colon and two
digits, and four more digits behind them, however they are grouped.
-/

namespace Vortex

open Ascii Backtrack Backtrack.Regex

/-! ## The pattern -/

def byte (c : Byte) : Regex Byte := .sat (· == c)

def digit : Regex Byte := .sat isDigit

/-- `.*?` under the flag `s`. -/
def anything : Regex Byte := .few fun _ => true

/-- `(?:(?:[0-1][0-9])|(?:[2][0-3])|(?:[0-9]))` -/
def hourRegex : Regex Byte :=
  .alt (.seq (.sat fun c => c == 48 || c == 49) digit) (.alt (.seq (byte 50) (.sat fun c => 48 ≤ c && c ≤ 51)) digit)

/-- `(?:[0-5][0-9])` -/
def minuteRegex : Regex Byte := .seq (.sat fun c => 48 ≤ c && c ≤ 53) digit

/-- A letter under the flag `i`. -/
def letter (lower upper : Byte) : Regex Byte := .sat fun c => c == lower || c == upper

/-- `(?:am|AM|pm|PM)` -/
def amPmRegex : Regex Byte :=
  let am := Regex.seq (letter 97 65) (letter 109 77)
  let pm := Regex.seq (letter 112 80) (letter 109 77)
  .alt am (.alt am (.alt pm pm))

-- `\s`, to which PCRE counts the vertical tab from 8.34 on
def spaceRegex : Regex Byte := .sat fun c => c == 9 || c == 10 || c == 11 || c == 12 || c == 13 || c == 32

/-- What follows the first colon. -/
def minutesOnRegex : Regex Byte :=
  .seq minuteRegex (.seq (opt (.seq (byte colon) minuteRegex)) (opt (.seq (opt spaceRegex) amPmRegex)))

def clockRegex : Regex Byte := .seq hourRegex (.seq (byte colon) minutesOnRegex)

/-- `.*?\d+`, so many times, and `.*?(\d+)`. -/
def numbersRegex : Nat → Regex Byte
  | 0 => .seq anything (.group 2 (many1 isDigit))
  | k + 1 => .seq anything (.seq (many1 isDigit) (numbersRegex k))

def attributeRegex : Regex Byte := .seq anything (.seq (.group 1 clockRegex) (numbersRegex 3))

/-! ## Times -/

theorem minuteRegex_lang {w : Bytes} : minuteRegex.Lang w ↔ ∃ a b, w = [a, b] ∧ isMinute a b = true := by
  rw [minuteRegex, digit, lang_sat_sat]
  simp only [isMinute, Bool.and_eq_true]

theorem hourRegex_lang {w : Bytes} : hourRegex.Lang w ↔
    (∃ a b, w = [a, b] ∧ (((a == 48 || a == 49) && isDigit b) || (a == 50 && 48 ≤ b && b ≤ 51)) = true) ∨
      ∃ a, w = [a] ∧ isDigit a = true := by
  change (_ ∨ _ ∨ _) ↔ _
  rw [digit, byte, lang_sat_sat, lang_sat_sat, ← or_assoc]
  refine or_congr ?_ Iff.rfl
  simp only [Bool.or_eq_true, Bool.and_eq_true]
  constructor
  · rintro (⟨a, b, rfl, ha, hb⟩ | ⟨a, b, rfl, ha, hb⟩)
    · exact ⟨a, b, rfl, .inl ⟨ha, hb⟩⟩
    · exact ⟨a, b, rfl, .inr ⟨⟨ha, hb.1⟩, hb.2⟩⟩
  · rintro ⟨a, b, rfl, ⟨ha, hb⟩ | ⟨⟨ha, hb₁⟩, hb₂⟩⟩
    · exact .inl ⟨a, b, rfl, ha, hb⟩
    · exact .inr ⟨a, b, rfl, ha, hb₁, hb₂⟩

theorem amPmRegex_lang {w : Bytes} : amPmRegex.Lang w ↔
    ∃ a m, w = [a, m] ∧ (a == 97 || a == 65 || a == 112 || a == 80) = true ∧ (m == 109 || m == 77) = true := by
  change (_ ∨ _ ∨ _ ∨ _) ↔ _
  rw [letter, letter, letter, lang_sat_sat, lang_sat_sat, or_self, ← or_assoc, or_self]
  simp only [Bool.or_assoc, Bool.or_eq_true]
  constructor
  · rintro (⟨a, m, rfl, ha, hm⟩ | ⟨a, m, rfl, ha, hm⟩)
    · exact ⟨a, m, rfl, ha.imp_right .inl, hm⟩
    · exact ⟨a, m, rfl, .inr (.inr ha), hm⟩
  · rintro ⟨a, m, rfl, ha | ha | ha, hm⟩
    · exact .inl ⟨a, m, rfl, .inl ha, hm⟩
    · exact .inl ⟨a, m, rfl, .inr ha, hm⟩
    · exact .inr ⟨a, m, rfl, ha, hm⟩

theorem meridiem_lang {w : Bytes} : (opt (.seq (opt spaceRegex) amPmRegex)).Lang w ↔ isMeridiem w = true := by
  constructor
  · rintro (⟨_, v, rfl, ⟨s, rfl, hs⟩ | rfl, hv⟩ | rfl)
    · obtain ⟨a, m, rfl, ha, hm⟩ := amPmRegex_lang.mp hv
      exact Bool.and_eq_true_iff.mpr ⟨Bool.and_eq_true_iff.mpr ⟨hs, ha⟩, hm⟩
    · obtain ⟨a, m, rfl, ha, hm⟩ := amPmRegex_lang.mp hv
      exact Bool.and_eq_true_iff.mpr ⟨ha, hm⟩
    · rfl
  · intro h
    unfold isMeridiem at h
    split at h
    · exact .inr rfl
    · rename_i a m
      rw [Bool.and_eq_true] at h
      exact .inl ⟨[], [a, m], rfl, .inr rfl, amPmRegex_lang.mpr ⟨a, m, rfl, h⟩⟩
    · rename_i s a m
      rw [Bool.and_eq_true, Bool.and_eq_true] at h
      exact .inl ⟨[s], [a, m], rfl, .inl ⟨s, rfl, h.1.1⟩, amPmRegex_lang.mpr ⟨a, m, rfl, h.1.2, h.2⟩⟩
    · cases h

theorem minutesOn_lang {w : Bytes} : minutesOnRegex.Lang w ↔ isMinutesOn w = true := by
  constructor
  · rintro ⟨_, _, rfl, hab, s, t, rfl, hst, ht⟩
    obtain ⟨a, b, rfl, hm⟩ := minuteRegex_lang.mp hab
    have ht := meridiem_lang.mp ht
    rcases hst with hst | rfl
    · obtain ⟨c, _, rfl, hc, hde⟩ := lang_sat_seq.mp hst
      obtain ⟨d, e, rfl, hs⟩ := minuteRegex_lang.mp hde
      obtain rfl : c = colon := by simpa using hc
      exact Bool.and_eq_true_iff.mpr ⟨hm, Bool.and_eq_true_iff.mpr ⟨hs, ht⟩⟩
    · match t, ht with
      | [], ht => exact Bool.and_eq_true_iff.mpr ⟨hm, ht⟩
      | [_, _], ht => exact Bool.and_eq_true_iff.mpr ⟨hm, ht⟩
      | [c, d, e], ht =>
        have hc : c ≠ colon := by
          rintro rfl
          cases ht
        change (isMinute a b && if c = colon then _ else isMeridiem [c, d, e]) = true
        rw [if_neg hc, hm, ht]
        rfl
  · intro h
    unfold isMinutesOn at h
    split at h
    · rename_i a b c d e x
      rw [Bool.and_eq_true] at h
      obtain ⟨hm, h⟩ := h
      split at h
      · rename_i hc
        rw [Bool.and_eq_true] at h
        refine ⟨[a, b], c :: d :: e :: x, rfl, minuteRegex_lang.mpr ⟨a, b, rfl, hm⟩, [c, d, e], x, rfl, .inl ?_,
          meridiem_lang.mpr h.2⟩
        exact lang_sat_seq.mpr ⟨c, [d, e], rfl, by simpa using hc, minuteRegex_lang.mpr ⟨d, e, rfl, h.1⟩⟩
      · exact ⟨[a, b], c :: d :: e :: x, rfl, minuteRegex_lang.mpr ⟨a, b, rfl, hm⟩, [], _, rfl, .inr rfl,
          meridiem_lang.mpr h⟩
    · rename_i a b x _
      rw [Bool.and_eq_true] at h
      exact ⟨[a, b], x, rfl, minuteRegex_lang.mpr ⟨a, b, rfl, h.1⟩, [], x, rfl, .inr rfl, meridiem_lang.mpr h.2⟩
    · cases h

theorem isDigit_ne_colon {c : Byte} (h : isDigit c = true) : c ≠ colon := by
  rintro rfl
  cases h

/-- The first group takes exactly the texts of `Duration`. -/
theorem clock_lang {w : Bytes} : clockRegex.Lang w ↔ isDuration w = true := by
  constructor
  · rintro ⟨_, _, rfl, hh, h⟩
    obtain ⟨c, v, rfl, hc, hv⟩ := lang_sat_seq.mp h
    obtain rfl : c = colon := by simpa using hc
    have hv := minutesOn_lang.mp hv
    rcases hourRegex_lang.mp hh with ⟨a, b, rfl, hab⟩ | ⟨a, rfl, ha⟩
    · have hb : b ≠ colon := by
        rintro rfl
        rw [show isDigit colon = false by decide, show decide (colon ≤ 51) = false by decide] at hab
        simp at hab
      change (if b = colon then _ else (_ && (_ && isMinutesOn v))) = true
      rw [if_neg hb, hab, hv]
      rfl
    · exact Bool.and_eq_true_iff.mpr ⟨ha, hv⟩
  · intro h
    unfold isDuration at h
    split at h
    · rename_i a c x
      split at h
      · rename_i hc
        rw [Bool.and_eq_true] at h
        exact ⟨[a], c :: x, rfl, hourRegex_lang.mpr (.inr ⟨a, rfl, h.1⟩), lang_sat_seq.mpr
          ⟨c, x, rfl, by simpa using hc, minutesOn_lang.mpr h.2⟩⟩
      · rw [Bool.and_eq_true] at h
        obtain ⟨hac, h⟩ := h
        split at h
        · rename_i d y
          rw [Bool.and_eq_true] at h
          exact ⟨[a, c], d :: y, rfl, hourRegex_lang.mpr (.inl ⟨a, c, rfl, hac⟩), lang_sat_seq.mpr
            ⟨d, y, rfl, h.1, minutesOn_lang.mpr h.2⟩⟩
        · cases h
    · cases h

/-- An hour's last digit, a colon and the minutes: the least that the first
group takes. -/
def timeAt : Bytes → Bool
  | h :: c :: m :: n :: _ => isDigit h && c == colon && isMinute m n
  | _ => false

theorem timeAt_iff {x : Bytes} : timeAt x = true ↔
    ∃ h m n y, x = h :: colon :: m :: n :: y ∧ isDigit h = true ∧ isMinute m n = true := by
  unfold timeAt
  split
  · rename_i h c m n y
    simp only [Bool.and_eq_true, beq_iff_eq]
    constructor
    · rintro ⟨⟨hh, rfl⟩, hm⟩
      exact ⟨h, m, n, y, rfl, hh, hm⟩
    · rintro ⟨_, _, _, _, he, hh, hm⟩
      cases he
      exact ⟨⟨hh, rfl⟩, hm⟩
  · rename_i hne
    simp only [Bool.false_eq_true, false_iff]
    rintro ⟨_, _, _, _, rfl, -⟩
    exact hne _ _ _ _ _ rfl

theorem timeAt_append {v : Bytes} (h : timeAt v = true) (y : Bytes) : timeAt (v ++ y) = true := by
  obtain ⟨a, m, n, z, rfl, ha, hm⟩ := timeAt_iff.mp h
  exact timeAt_iff.mpr ⟨a, m, n, z ++ y, rfl, ha, hm⟩

theorem isMinutesOn_cons {x : Bytes} (h : isMinutesOn x = true) :
    ∃ m n y, x = m :: n :: y ∧ isMinute m n = true := by
  unfold isMinutesOn at h
  split at h
  · exact ⟨_, _, _, rfl, (Bool.and_eq_true_iff.mp h).1⟩
  · exact ⟨_, _, _, rfl, (Bool.and_eq_true_iff.mp h).1⟩
  · cases h

/-- A time begins at most one digit before its last digit of the hour. -/
theorem isDuration_timeAt {w : Bytes} (h : isDuration w = true) :
    ∃ u v, w = u ++ v ∧ (∀ c ∈ u, isDigit c = true) ∧ timeAt v = true := by
  unfold isDuration at h
  split at h
  · rename_i a c x
    split at h
    · rename_i hc
      rw [Bool.and_eq_true] at h
      obtain ⟨m, n, y, rfl, hm⟩ := isMinutesOn_cons h.2
      exact ⟨[], _, rfl, by simp, timeAt_iff.mpr ⟨a, m, n, y, by rw [hc], h.1, hm⟩⟩
    · rw [Bool.and_eq_true] at h
      obtain ⟨hac, h⟩ := h
      split at h
      · rename_i d x
        rw [Bool.and_eq_true, beq_iff_eq] at h
        obtain ⟨m, n, y, rfl, hm⟩ := isMinutesOn_cons h.2
        have hd : isDigit a = true ∧ isDigit c = true := by
          simp only [isDigit, Bool.or_eq_true, Bool.and_eq_true, decide_eq_true_eq, beq_iff_eq] at *
          grind
        exact ⟨[a], _, rfl, by simp [hd.1], timeAt_iff.mpr ⟨c, m, n, y, by rw [h.1], hd.2, hm⟩⟩
      · cases h
  · cases h

theorem isDuration_of_timeAt {h m n : Byte} (hh : isDigit h = true) (hm : isMinute m n = true) :
    isDuration [h, colon, m, n] = true := by
  change (isDigit h && (isMinute m n && true)) = true
  rw [hh, hm]
  rfl

/-! ## Numbers -/

theorem numbers_mem {k : Nat} {a b : Cursor Byte} (h : b ∈ (numbersRegex k).run a) :
    ∃ w v y, a.rest = w ++ (v ++ y) ∧ v ≠ [] ∧ (∀ c ∈ v, isDigit c = true) ∧ k ≤ w.countP isDigit ∧
      b.groups = (2, a.pos + w.length, v.length) :: a.groups := by
  induction k generalizing a b with
  | zero =>
    obtain ⟨w, y, hx, -, hb⟩ := mem_few_seq.mp h
    obtain ⟨m, hm, rfl⟩ := List.mem_map.mp hb
    obtain ⟨v, ⟨hy, hpos⟩, hv⟩ := run_sound hm
    obtain ⟨hne, hv⟩ := lang_many1.mp hv
    refine ⟨w, v, m.rest, by rw [hx, ← hy], hne, hv, Nat.zero_le _, ?_⟩
    rw [groups_of_plain rfl hm, hpos, Nat.add_sub_cancel_left]
  | succ k ih =>
    obtain ⟨w, y, hx, -, hb⟩ := mem_few_seq.mp h
    obtain ⟨m, hm, hb⟩ := List.mem_flatMap.mp hb
    obtain ⟨d, ⟨hy, hpos⟩, hd⟩ := run_sound hm
    obtain ⟨hne, hd⟩ := lang_many1.mp hd
    obtain ⟨w', v, z, hrest, hv, hdig, hk, hg⟩ := ih hb
    refine ⟨w ++ (d ++ w'), v, z, ?_, hv, hdig, ?_, ?_⟩
    · rw [hx, show y = d ++ m.rest from hy, hrest]
      simp
    · have : d.countP isDigit = d.length := List.countP_eq_length.mpr hd
      have := List.length_pos_of_ne_nil hne
      simp only [List.countP_append]
      omega
    · rw [hg, groups_of_plain rfl hm, hpos]
      simp only [List.length_append, Nat.add_assoc]

theorem exists_first_digit {x : Bytes} (h : 0 < x.countP isDigit) : ∃ w c y, x = w ++ c :: y ∧
    isDigit c = true ∧ x.countP isDigit = y.countP isDigit + 1 := by
  induction x with
  | nil => simp at h
  | cons c x ih =>
    by_cases hc : isDigit c = true
    · exact ⟨[], c, x, rfl, hc, by rw [List.countP_cons_of_pos hc]⟩
    · rw [List.countP_cons_of_neg hc] at h ⊢
      obtain ⟨w, d, y, rfl, hd, hy⟩ := ih h
      exact ⟨c :: w, d, y, rfl, hd, hy⟩

/-- However the digits are grouped, one more than `k` of them is enough. -/
theorem numbers_lang {k : Nat} {x : Bytes} (h : k < x.countP isDigit) :
    ∃ w y, x = w ++ y ∧ (numbersRegex k).Lang w := by
  induction k generalizing x with
  | zero =>
    obtain ⟨w, c, y, rfl, hc, -⟩ := exists_first_digit h
    exact ⟨w ++ [c], y, by simp, w, [c], rfl, fun _ _ => rfl, lang_many1.mpr ⟨by simp, by simpa using hc⟩⟩
  | succ k ih =>
    obtain ⟨w, c, y, rfl, hc, hy⟩ := exists_first_digit (Nat.zero_lt_of_lt h)
    obtain ⟨w', y', rfl, hl⟩ := ih (x := y) (by omega)
    refine ⟨w ++ ([c] ++ w'), y', by simp, w, _, rfl, fun _ _ => rfl, [c], w', rfl, ?_, hl⟩
    exact lang_many1.mpr ⟨by simp, by simpa using hc⟩

/-! ## The match -/

/-- What a match consists of, and where its groups are. -/
theorem attribute_match {x : Bytes} {m : Cursor Byte} (h : attributeRegex.search x = some m) :
    ∃ u w v n y, x = u ++ (w ++ (v ++ (n ++ y))) ∧ isDuration w = true ∧ 3 ≤ v.countP isDigit ∧ n ≠ [] ∧
      (∀ c ∈ n, isDigit c = true) ∧
      m.groups = [(2, u.length + w.length + v.length, n.length), (1, u.length, w.length)] := by
  rw [attributeRegex, anything, search_few_seq] at h
  obtain ⟨u, z, hx, -, hm⟩ := mem_few_seq.mp (first_mem h)
  obtain ⟨a, ha, hm⟩ := List.mem_flatMap.mp hm
  obtain ⟨b, hb, rfl⟩ := List.mem_map.mp ha
  obtain ⟨w, ⟨hz, hpos⟩, hw⟩ := run_sound hb
  obtain ⟨v, n, y, hrest, hne, hn, hv, hg⟩ := numbers_mem hm
  refine ⟨u, w, v, n, y, ?_, clock_lang.mp hw, hv, hne, hn, ?_⟩
  · rw [hx, show z = w ++ b.rest from hz, ← hrest]
  · rw [hg, groups_of_plain rfl hb]
    simp [hpos]

/-- A time, and at least four digits after it. -/
def timeThenDigits (x : Bytes) : Bool := x.tails.any fun u => timeAt u && 4 ≤ (u.drop 4).countP isDigit

theorem timeThenDigits_iff {x : Bytes} : timeThenDigits x = true ↔
    ∃ u v, x = u ++ v ∧ timeAt v = true ∧ 4 ≤ (v.drop 4).countP isDigit := by
  simp only [timeThenDigits, List.any_eq_true, List.mem_tails, Bool.and_eq_true, decide_eq_true_eq]
  constructor
  · rintro ⟨v, ⟨u, rfl⟩, h⟩
    exact ⟨u, v, rfl, h⟩
  · rintro ⟨u, v, rfl, h⟩
    exact ⟨v, ⟨u, rfl⟩, h⟩

theorem clock_numbers_ne_nil {v : Bytes} (ht : timeAt v = true) (hd : 4 ≤ (v.drop 4).countP isDigit) (i : Nat)
    (g : List (Nat × Nat × Nat)) : (Regex.seq (.group 1 clockRegex) (numbersRegex 3)).run ⟨i, v, g⟩ ≠ [] := by
  obtain ⟨h, m, n, y, rfl, hh, hm⟩ := timeAt_iff.mp ht
  obtain ⟨w, z, hy, hw⟩ := numbers_lang (k := 3) hd
  refine run_ne_nil_iff.mpr ⟨[h, colon, m, n] ++ w, z, ?_, _, _, rfl, ?_, hw⟩
  · change h :: colon :: m :: n :: y = _
    rw [show y = w ++ z from hy]
    rfl
  · exact clock_lang.mpr (isDuration_of_timeAt hh hm)

theorem search_isSome_iff {x : Bytes} : (attributeRegex.search x).isSome ↔ timeThenDigits x = true := by
  rw [timeThenDigits_iff]
  constructor
  · intro h
    obtain ⟨m, hm⟩ := Option.isSome_iff_exists.mp h
    obtain ⟨u, w, v, n, y, rfl, hw, hv, hne, hn, -⟩ := attribute_match hm
    obtain ⟨s, t, rfl, -, ht⟩ := isDuration_timeAt hw
    obtain ⟨a, b, c, z, rfl, -, -⟩ := timeAt_iff.mp ht
    refine ⟨u ++ s, a :: colon :: b :: c :: (z ++ (v ++ (n ++ y))), by simp, ?_, ?_⟩
    · exact ht
    · have : n.countP isDigit = n.length := List.countP_eq_length.mpr hn
      have := List.length_pos_of_ne_nil hne
      simp only [List.drop_succ_cons, List.drop_zero, List.countP_append]
      omega
  · rintro ⟨u, v, rfl, ht, hd⟩
    rw [attributeRegex, anything, search_few_seq]
    obtain ⟨-, -, b, -, hb, -⟩ := first_few_seq_le (i := 0) (w := u) (fun _ _ => rfl) (clock_numbers_ne_nil ht hd _ [])
    rw [hb]
    rfl

/-! ## Where no time is -/

theorem clock_run_mem {a b : Cursor Byte} (h : b ∈ clockRegex.run a) :
    ∃ u v, a.rest = u ++ v ∧ (∀ c ∈ u, isDigit c = true) ∧ timeAt v = true := by
  obtain ⟨w, ⟨hw, -⟩, hl⟩ := run_sound h
  obtain ⟨u, v, rfl, hu, hv⟩ := isDuration_timeAt (clock_lang.mp hl)
  exact ⟨u, v ++ b.rest, by rw [hw, List.append_assoc], hu, timeAt_append hv _⟩

/-- A time does not reach over a byte that it cannot contain. -/
theorem timeAt_before {x t : Bytes} {c : Byte} (hd : isDigit c = false) (hc : c ≠ colon)
    (h : timeAt (x ++ c :: t) = true) : timeAt x = true := by
  obtain ⟨a, m, n, y, he, ha, hm⟩ := timeAt_iff.mp h
  have hmn : isDigit m = true ∧ isDigit n = true := by
    simp only [isMinute, isDigit, Bool.and_eq_true, decide_eq_true_eq] at *
    grind
  have hmem : c ∉ [a, colon, m, n] := by
    intro hmem
    simp only [List.mem_cons, List.not_mem_nil, or_false] at hmem
    rcases hmem with rfl | rfl | rfl | rfl
    · rw [hd] at ha
      cases ha
    · exact hc rfl
    · rw [hd] at hmn
      cases hmn.1
    · rw [hd] at hmn
      cases hmn.2
  change x ++ c :: t = [a, colon, m, n] ++ y at he
  rcases List.append_eq_append_iff.mp he with ⟨z, hz, hy⟩ | ⟨z, rfl, -⟩
  · cases z with
    | nil =>
      rw [← List.append_nil x, ← hz]
      exact timeAt_iff.mpr ⟨a, m, n, [], rfl, ha, hm⟩
    | cons e z =>
      cases hy
      exact absurd (by rw [hz]; simp) hmem
  · exact timeAt_iff.mpr ⟨a, m, n, z, rfl, ha, hm⟩

theorem timeAt_digit {c : Byte} {x : Bytes} (h : timeAt (c :: x) = true) : isDigit c = true := by
  obtain ⟨a, m, n, y, he, ha, -⟩ := timeAt_iff.mp h
  cases he
  exact ha

theorem clock_run_nil_of_head {c : Byte} (hc : isDigit c = false) (i : Nat) (x : Bytes) (g : List (Nat × Nat × Nat)) :
    clockRegex.run ⟨i, c :: x, g⟩ = [] := by
  rw [List.eq_nil_iff_forall_not_mem]
  intro b hb
  obtain ⟨u, v, he, hu, hv⟩ := clock_run_mem hb
  cases u with
  | nil =>
    obtain rfl : c :: x = v := he
    rw [timeAt_digit hv] at hc
    cases hc
  | cons d u =>
    cases he
    rw [hu c (List.mem_cons_self ..)] at hc
    cases hc

/-- No time begins in a text without one, whatever follows behind a byte that
no time contains. -/
theorem clock_run_nil {x t : Bytes} {c : Byte} (hx : ∀ u v, x = u ++ v → timeAt v = false) (hd : isDigit c = false)
    (hc : c ≠ colon) (i : Nat) (g : List (Nat × Nat × Nat)) : clockRegex.run ⟨i, x ++ c :: t, g⟩ = [] := by
  rw [List.eq_nil_iff_forall_not_mem]
  intro b hb
  obtain ⟨u, v, he, hu, hv⟩ := clock_run_mem hb
  rcases List.append_eq_append_iff.mp he with ⟨y, rfl, hy⟩ | ⟨y, rfl, rfl⟩
  · cases y with
    | nil =>
      obtain rfl : c :: t = v := hy
      rw [timeAt_digit hv] at hd
      cases hd
    | cons e y =>
      cases hy
      rw [hu c (by simp)] at hd
      cases hd
  · have := timeAt_before hd hc hv
    rw [hx u y rfl] at this
    cases this

/-! ## The first result -/

section
variable {s : Regex Byte} {g : List (Nat × Nat × Nat)} {b : Cursor Byte}

theorem first_minute {m n : Byte} (h : isMinute m n = true) (i : Nat) (y : Bytes) :
    minuteRegex.first ⟨i, m :: n :: y, g⟩ = some ⟨i + 2, y, g⟩ := by
  rw [isMinute, Bool.and_eq_true] at h
  exact first_seq_of (first_sat (p := fun c : Byte => 48 ≤ c && c ≤ 53) h.1 i _) (first_sat h.2 _ _)

theorem first_hour {h k : Byte} (hd : isDigit k = true)
    (hh : (((h == 48 || h == 49) && isDigit k) || (h == 50 && 48 ≤ k && k ≤ 51)) = true) (i : Nat) (y : Bytes) :
    hourRegex.first ⟨i, h :: k :: y, g⟩ = some ⟨i + 2, y, g⟩ := by
  by_cases hlow : (h == 48 || h == 49) = true
  · exact first_alt_left (first_seq_of (first_sat (p := fun c : Byte => c == 48 || c == 49) hlow i _) (first_sat hd _ _))
  · rw [Bool.or_eq_true, Bool.and_eq_true, Bool.and_eq_true, Bool.and_eq_true] at hh
    obtain ⟨⟨h₁, h₂⟩, h₃⟩ := hh.resolve_left fun hl => hlow hl.1
    have hnil : (Regex.seq (.sat fun c : Byte => c == 48 || c == 49) digit).run ⟨i, h :: k :: y, g⟩ = [] := by
      simp only [run, if_neg hlow, List.flatMap_nil]
    rw [hourRegex, first_alt_right hnil]
    refine first_alt_left (first_seq_of (first_sat (p := (· == 50)) h₁ i _) (first_sat ?_ _ _))
    rw [h₂, h₃]
    rfl

/-- A time of day with seconds, before a dot. -/
theorem first_clock {h k m₁ m₂ s₁ s₂ : Byte} (hd : isDigit k = true)
    (hh : (((h == 48 || h == 49) && isDigit k) || (h == 50 && 48 ≤ k && k ≤ 51)) = true)
    (hm : isMinute m₁ m₂ = true) (hs : isMinute s₁ s₂ = true) (i : Nat) (y : Bytes) :
    clockRegex.first ⟨i, h :: k :: colon :: m₁ :: m₂ :: colon :: s₁ :: s₂ :: dot :: y, g⟩ =
      some ⟨i + 8, dot :: y, g⟩ := by
  have hcolon : ∀ j (z : Bytes), (byte colon).first ⟨j, colon :: z, g⟩ = some ⟨j + 1, z, g⟩ :=
    fun j z => first_sat (by simp) j z
  have hsec : (opt (.seq (byte colon) minuteRegex)).first ⟨i + 5, colon :: s₁ :: s₂ :: dot :: y, g⟩ =
      some ⟨i + 8, dot :: y, g⟩ := first_alt_left (first_seq_of (hcolon _ _) (first_minute hs _ _))
  have hend : (opt (.seq (opt spaceRegex) amPmRegex)).first ⟨i + 8, dot :: y, g⟩ = some ⟨i + 8, dot :: y, g⟩ :=
    first_alt_right rfl
  exact first_seq_of (first_hour hd hh i _) (first_seq_of (hcolon _ _)
    (first_seq_of (first_minute hm _ _) (first_seq_of hsec hend)))

/-- The next number is taken as a whole, if the rest matches behind it. -/
theorem first_number {w n y : Bytes} {i : Nat} (hw : ∀ c ∈ w, isDigit c = false) (hne : n ≠ [])
    (hn : ∀ c ∈ n, isDigit c = true) (hy : ∀ c ∈ y.head?, isDigit c = false)
    (hs : s.first ⟨i + w.length + n.length, y, g⟩ = some b) :
    (Regex.seq anything (.seq (many1 isDigit) s)).first ⟨i, w ++ (n ++ y), g⟩ = some b := by
  refine first_few_seq (fun _ _ => rfl) (fun u v huv hv => ?_) (first_seq_of (first_many1 _ hne hn hy) hs)
  obtain ⟨c, v, rfl⟩ := List.exists_cons_of_ne_nil hv
  have hc := hw c (by rw [huv]; simp)
  simp [run, many1, hc]

theorem first_last_number {w n y : Bytes} {i : Nat} (hw : ∀ c ∈ w, isDigit c = false) (hne : n ≠ [])
    (hn : ∀ c ∈ n, isDigit c = true) (hy : ∀ c ∈ y.head?, isDigit c = false) :
    (numbersRegex 0).first ⟨i, w ++ (n ++ y), g⟩ =
      some ⟨i + w.length + n.length, y, (2, i + w.length, n.length) :: g⟩ := by
  refine first_few_seq (fun _ _ => rfl) (fun u v huv hv => ?_) ?_
  · obtain ⟨c, v, rfl⟩ := List.exists_cons_of_ne_nil hv
    have hc := hw c (by rw [huv]; simp)
    simp [run, many1, hc]
  · rw [first_group (first_many1 _ hne hn hy)]
    simp

end

end Vortex
