import Mathlib.Data.List.Induction

/-!
# Byte strings

PHP, MySQL, the shell and the browser all read the same byte strings. `str`
writes one of the program's own texts, which are ASCII, and `decimal` is how
PHP and MySQL print a natural number.
-/

namespace Vortex

abbrev Byte := UInt8
abbrev Bytes := List UInt8

def str (s : String) : Bytes := s.toList.map fun c => c.toNat.toUInt8

namespace Ascii

abbrev tab : Byte := 9
abbrev newline : Byte := 10
abbrev space : Byte := 32
abbrev dquote : Byte := 34
abbrev hash : Byte := 35
abbrev dollar : Byte := 36
abbrev amp : Byte := 38
abbrev quote : Byte := 39
abbrev lparen : Byte := 40
abbrev rparen : Byte := 41
abbrev star : Byte := 42
abbrev comma : Byte := 44
abbrev dash : Byte := 45
abbrev dot : Byte := 46
abbrev slash : Byte := 47
abbrev zero : Byte := 48
abbrev colon : Byte := 58
abbrev lt : Byte := 60
abbrev equals : Byte := 61
abbrev gt : Byte := 62
abbrev backslash : Byte := 92
abbrev backquote : Byte := 96

end Ascii

def isDigit (c : Byte) : Bool := 48 ≤ c && c ≤ 57
def isHexDigit (c : Byte) : Bool := isDigit c || (97 ≤ c && c ≤ 102)
def isUpper (c : Byte) : Bool := 65 ≤ c && c ≤ 90
def isLower (c : Byte) : Bool := 97 ≤ c && c ≤ 122
def isLetter (c : Byte) : Bool := isUpper c || isLower c

/-! ## Decimal numbers -/

def decimal (n : Nat) : Bytes := (Nat.toDigits 10 n).map fun c => c.toNat.toUInt8

def digitsVal (x : Bytes) : Nat := x.foldl (fun n c => 10 * n + (c.toNat - 48)) 0

theorem digitsVal_append (x y : Bytes) :
    digitsVal (x ++ y) = y.foldl (fun n c => 10 * n + (c.toNat - 48)) (digitsVal x) := by
  simp [digitsVal, List.foldl_append]

theorem decimal_eq (n : Nat) :
    decimal n = (if n < 10 then [] else decimal (n / 10)) ++ [(48 + n % 10).toUInt8] := by
  have hd : ∀ d < 10, (Nat.digitChar d).toNat.toUInt8 = (48 + d).toUInt8 := by decide
  unfold decimal
  rw [Nat.toDigits_eq_if (by omega)]
  split
  · rename_i h
    simp [hd n h, Nat.mod_eq_of_lt h]
  · simp [hd (n % 10) (Nat.mod_lt _ (by omega))]

theorem decimal_digits (n : Nat) : ∀ c ∈ decimal n, isDigit c = true := by
  have hd : ∀ d < 10, isDigit (48 + d).toUInt8 = true := by decide
  induction n using Nat.strongRecOn with
  | ind n ih =>
    rw [decimal_eq]
    intro c hc
    rcases List.mem_append.mp hc with hc | hc
    · split at hc
      · cases hc
      · exact ih (n / 10) (by omega) c hc
    · rw [List.mem_singleton.mp hc]
      exact hd _ (Nat.mod_lt _ (by omega))

theorem decimal_ne {c : Byte} (hc : isDigit c = false) (n : Nat) : ∀ d ∈ decimal n, d ≠ c := by
  rintro d hd rfl
  rw [decimal_digits n _ hd] at hc
  cases hc

theorem decimal_ne_nil (n : Nat) : decimal n ≠ [] := by
  rw [decimal_eq]; simp

@[simp] theorem digitsVal_decimal (n : Nat) : digitsVal (decimal n) = n := by
  have hd : ∀ d < 10, (48 + d).toUInt8.toNat - 48 = d := by decide
  induction n using Nat.strongRecOn with
  | ind n ih =>
    rw [decimal_eq, digitsVal_append]
    have h := hd (n % 10) (Nat.mod_lt _ (by omega))
    simp only [List.foldl_cons, List.foldl_nil, h]
    split
    · simp only [digitsVal, List.foldl_nil]; omega
    · rw [ih (n / 10) (by omega)]; omega

theorem digit_byte_eq {c : Byte} (h : isDigit c = true) : (48 + (c.toNat - 48)).toUInt8 = c ∧ c.toNat - 48 < 10 := by
  rw [isDigit, Bool.and_eq_true, decide_eq_true_eq, decide_eq_true_eq, UInt8.le_iff_toNat_le, UInt8.le_iff_toNat_le] at h
  have hlo : 48 ≤ c.toNat := h.1
  have hhi : c.toNat ≤ 57 := h.2
  rw [Nat.add_sub_cancel' hlo]
  exact ⟨UInt8.ofNat_toNat, by omega⟩

/-- A canonical numeral is what its value is printed as. -/
theorem decimal_digitsVal {x : Bytes} (hd : ∀ c ∈ x, isDigit c = true) (hne : x ≠ []) (hz : x.head? ≠ some 48) :
    decimal (digitsVal x) = x ∧ 0 < digitsVal x := by
  induction x using List.reverseRecOn with
  | nil => exact absurd rfl hne
  | append_singleton y c ih =>
    obtain ⟨hc, hlt⟩ := digit_byte_eq (hd c (by simp))
    have hval : digitsVal (y ++ [c]) = 10 * digitsVal y + (c.toNat - 48) := by
      rw [digitsVal_append]
      rfl
    cases y with
    | nil =>
      have hpos : 0 < c.toNat - 48 := by
        apply Nat.pos_of_ne_zero
        intro h
        apply hz
        rw [h] at hc
        rw [← hc]
        rfl
      have hone : digitsVal ([] ++ [c]) = c.toNat - 48 := by
        rw [hval, digitsVal, List.foldl_nil]
        omega
      rw [hone]
      refine ⟨?_, hpos⟩
      rw [decimal_eq, if_pos hlt, Nat.mod_eq_of_lt hlt, hc]
    | cons d z =>
      obtain ⟨hdec, hpos⟩ := ih (fun e he => hd e (List.mem_append_left _ he)) (List.cons_ne_nil d z) hz
      have hdiv : (10 * digitsVal (d :: z) + (c.toNat - 48)) / 10 = digitsVal (d :: z) := by omega
      have hmod : (10 * digitsVal (d :: z) + (c.toNat - 48)) % 10 = c.toNat - 48 := by omega
      rw [hval]
      refine ⟨?_, by omega⟩
      rw [decimal_eq, if_neg (by omega), hdiv, hmod, hdec, hc]

theorem decimal_head {n : Nat} (h : 0 < n) : (decimal n).head? ≠ some 48 := by
  have hd : ∀ d < 10, 0 < d → (48 + d).toUInt8 ≠ 48 := by decide
  induction n using Nat.strongRecOn with
  | ind n ih =>
    rw [decimal_eq]
    by_cases hn : n < 10
    · rw [if_pos hn, List.nil_append, List.head?_cons, Nat.mod_eq_of_lt hn]
      exact fun he => hd n hn h (Option.some.inj he)
    · have hlead := ih (n / 10) (by omega) (by omega)
      rw [if_neg hn, List.head?_append]
      cases hx : decimal (n / 10) with
      | nil => exact absurd hx (decimal_ne_nil _)
      | cons c x =>
        rw [hx] at hlead
        exact hlead

/-- Digits are printed again as they are exactly without a leading zero. -/
theorem decimal_digitsVal_iff {x : Bytes} (hd : ∀ c ∈ x, isDigit c = true) (hne : x ≠ []) :
    decimal (digitsVal x) = x ↔ x = [48] ∨ x.head? ≠ some 48 := by
  constructor
  · intro h
    by_cases hn : digitsVal x = 0
    · left
      rw [← h, hn]
      decide
    · right
      rw [← h]
      exact decimal_head (Nat.pos_of_ne_zero hn)
  · rintro (rfl | hz)
    · decide
    · exact (decimal_digitsVal hd hne hz).1

end Vortex
