import Vortex.Doubles
import Vortex.SqlLexer

/-!
# Numerals

A numeral is read twice: by PHP's `is_numeric`, which looks at the whole text,
and by MySQL, which takes the text for a signed literal or for a word. Where
both take a number they take the same digits, except behind the prefix `0X`.
But PHP reads more of them as doubles than MySQL does.
-/

namespace Vortex

open Ascii

/-! ## Values -/

inductive Numeral
  | integer (digits : Bytes)
  -- with a point
  | exact (whole fraction : Bytes)
  | float (whole fraction : Bytes) (exponent : Int)
  | hex (digits : Bytes)
  deriving DecidableEq

def isXDigit (c : Byte) : Bool := isHexDigit c || (65 ≤ c && c ≤ 70)

def xdigitVal (c : Byte) : Nat :=
  if isDigit c then c.toNat - 48 else if isLower c then c.toNat - 87 else c.toNat - 55

def hexVal (x : Bytes) : Nat := x.foldl (fun n c => 16 * n + xdigitVal c) 0

/-- The number as it is written. -/
def Numeral.value : Numeral → ℚ
  | .integer digits => digitsVal digits
  | .exact whole fraction => digitsVal (whole ++ fraction) / 10 ^ fraction.length
  | .float whole fraction e => digitsVal (whole ++ fraction) / 10 ^ fraction.length * 10 ^ e
  | .hex digits => hexVal digits

def signed (negative : Bool) (v : ℚ) : ℚ := if negative then -v else v

/-- `zend_hex_strtod`, digit by digit in double arithmetic. -/
def hexDouble (digits : Bytes) : Option ℚ := digits.foldlM (fun v c => Binary64.read (16 * v + xdigitVal c)) 0

/-- In PHP an integer is one below 2^63; everything else is a double, or
infinity. The integer -2^63 is a double too. -/
def Numeral.number : Numeral → Option ℚ
  | .integer digits => if digitsVal digits < 2 ^ 63 then some (digitsVal digits) else Binary64.read (digitsVal digits)
  | .hex digits => if hexVal digits < 2 ^ 63 then some (hexVal digits) else hexDouble digits
  | n => Binary64.read n.value

/-- In a MySQL condition a literal is exact unless it has an exponent, and
hexadecimal literals are 64-bit. -/
def Numeral.sqlNumber : Numeral → ℚ
  | .float whole fraction e => Binary64.nearest (Numeral.float whole fraction e).value
  | .hex digits => (hexVal digits % 2 ^ 64 : Nat)
  | n => n.value

/-- A float literal that overflows is an error of the statement. -/
def Numeral.overflows : Numeral → Bool
  | .float whole fraction e => decide (Binary64.limit ≤ (Numeral.float whole fraction e).value)
  | _ => false

/-- What PHP reads as a double and MySQL does not is one. -/
def Numeral.Fits : Numeral → Prop
  | .integer digits => digitsVal digits < 2 ^ 63 ∨
      ((digitsVal digits : ℚ) < Binary64.limit ∧ Binary64.IsDouble (digitsVal digits))
  | .exact whole fraction => (Numeral.exact whole fraction).value < Binary64.limit ∧
      Binary64.IsDouble (Numeral.exact whole fraction).value
  | .float whole fraction e => (Numeral.float whole fraction e).value < Binary64.limit
  | .hex digits => hexVal digits < 2 ^ 63 ∨ (hexVal digits < 2 ^ 64 ∧ Binary64.IsDouble (hexVal digits))

/-! ## The same number -/

theorem hexVal_concat (x : Bytes) (c : Byte) : hexVal (x ++ [c]) = 16 * hexVal x + xdigitVal c := by
  simp [hexVal]

theorem hexDouble_concat (x : Bytes) (c : Byte) :
    hexDouble (x ++ [c]) = (hexDouble x).bind fun v => Binary64.read (16 * v + xdigitVal c) := by
  rw [hexDouble, List.foldlM_append]
  simp [hexDouble]

theorem xdigitVal_lt {c : Byte} (h : isXDigit c = true) : xdigitVal c < 16 := by
  simp only [isXDigit, isHexDigit, isDigit, Bool.or_eq_true, Bool.and_eq_true, decide_eq_true_eq, UInt8.le_iff_toNat_le] at h
  rw [xdigitVal, isDigit, isLower]
  simp only [Bool.and_eq_true, decide_eq_true_eq, UInt8.le_iff_toNat_le]
  simp at h ⊢
  split <;> [skip; split] <;> omega

/-- A double is read digit by digit without rounding. -/
theorem hexDouble_of_isDouble {x : Bytes} (hx : x.all isXDigit = true) (h : Binary64.IsDouble (hexVal x))
    (hlim : (hexVal x : ℚ) < Binary64.limit) : hexDouble x = some (hexVal x : ℚ) := by
  induction x using List.reverseRecOn with
  | nil => rfl
  | append_singleton x c ih =>
    rw [List.all_append, Bool.and_eq_true, List.all_cons, List.all_nil, Bool.and_true] at hx
    have hdiv : hexVal x = hexVal (x ++ [c]) / 2 ^ 4 := by
      have := xdigitVal_lt hx.2
      rw [hexVal_concat]
      omega
    have hle : (hexVal x : ℚ) ≤ hexVal (x ++ [c]) := by
      rw [hdiv]
      exact_mod_cast Nat.div_le_self ..
    have hval : (16 * hexVal x + xdigitVal c : ℚ) = (hexVal (x ++ [c]) : ℚ) := by
      rw [hexVal_concat]
      push_cast
      rfl
    have hprefix : Binary64.IsDouble (hexVal x) := by
      rw [hdiv]
      exact h.div_pow 4
    rw [hexDouble_concat, ih hx.1 hprefix (hle.trans_lt hlim), Option.bind_some, hval]
    exact (Binary64.read_eq_self_iff (Nat.cast_nonneg _)).mpr ⟨hlim, h⟩

theorem hexDouble_isDouble {x : Bytes} {v : ℚ} (h : hexDouble x = some v) : 0 ≤ v ∧ Binary64.IsDouble v := by
  induction x using List.reverseRecOn generalizing v with
  | nil =>
    cases h
    exact ⟨le_rfl, 0, 0, by decide, by decide, by simp⟩
  | append_singleton x c ih =>
    rw [hexDouble_concat] at h
    obtain ⟨u, hu, hv⟩ := Option.bind_eq_some_iff.mp h
    have hnonneg : 0 ≤ 16 * u + xdigitVal c := by
      have := (ih hu).1
      positivity
    obtain rfl := Binary64.eq_nearest_of_read hv
    exact ⟨Binary64.nearest_nonneg hnonneg, Binary64.isDouble_nearest hnonneg⟩

/-- The rounding never falls below a power of sixteen. -/
theorem pow_le_hexDouble {x : Bytes} (hx : x.all isXDigit = true) {v : ℚ} (h : hexDouble x = some v) {j : Nat}
    (hj : 16 ^ j ≤ hexVal x) : 16 ^ j ≤ v := by
  induction x using List.reverseRecOn generalizing v j with
  | nil =>
    simp [hexVal] at hj
  | append_singleton x c ih =>
    rw [List.all_append, Bool.and_eq_true, List.all_cons, List.all_nil, Bool.and_true] at hx
    rw [hexDouble_concat] at h
    obtain ⟨u, hu, hv⟩ := Option.bind_eq_some_iff.mp h
    have hc := xdigitVal_lt hx.2
    rw [hexVal_concat] at hj
    have hpow : (16 : ℚ) ^ j = 2 ^ (4 * j) := by
      rw [pow_mul]
      norm_num
    have hsum : (16 : ℚ) ^ j ≤ 16 * u + xdigitVal c := by
      cases j with
      | zero =>
        by_cases hz : hexVal x = 0
        · have := (hexDouble_isDouble hu).1
          have : 1 ≤ (xdigitVal c : ℚ) := by exact_mod_cast (by omega : 1 ≤ xdigitVal c)
          rw [pow_zero]
          linarith
        · have := ih hx.1 hu (j := 0) (by omega)
          have : 0 ≤ (xdigitVal c : ℚ) := Nat.cast_nonneg _
          rw [pow_zero] at *
          linarith
      | succ j =>
        have := ih hx.1 hu (j := j) (by omega)
        have : 0 ≤ (xdigitVal c : ℚ) := Nat.cast_nonneg _
        rw [pow_succ]
        linarith
    obtain rfl := Binary64.eq_nearest_of_read hv
    rw [hpow] at hsum ⊢
    exact Binary64.pow_le_nearest hsum

theorem hex_number_iff {digits : Bytes} (hx : digits.all isXDigit = true) :
    (Numeral.hex digits).number = some (Numeral.hex digits).sqlNumber ↔ (Numeral.hex digits).Fits := by
  rw [Numeral.number, Numeral.sqlNumber, Numeral.Fits]
  by_cases hlong : hexVal digits < 2 ^ 63
  · rw [if_pos hlong, Nat.mod_eq_of_lt (by omega)]
    exact iff_of_true rfl (.inl hlong)
  · rw [if_neg hlong, or_iff_right hlong]
    constructor
    · intro h
      have hlt : hexVal digits < 2 ^ 64 := by
        by_contra hge
        have hle : (16 : ℚ) ^ 16 ≤ (hexVal digits % 2 ^ 64 : ℕ) := pow_le_hexDouble hx h (by omega)
        have : 16 ^ 16 ≤ hexVal digits % 2 ^ 64 := by exact_mod_cast hle
        omega
      rw [Nat.mod_eq_of_lt hlt] at h
      exact ⟨hlt, (hexDouble_isDouble h).2⟩
    · rintro ⟨hlt, hd⟩
      rw [Nat.mod_eq_of_lt hlt]
      have hlim : (2 : ℚ) ^ 64 < Binary64.limit := by decide +kernel
      exact hexDouble_of_isDouble hx hd (lt_trans (mod_cast hlt) hlim)

/-- Where the query does not fail, PHP and MySQL read the same number. -/
theorem number_iff_fits {n : Numeral} (hn : ∀ digits, n = .hex digits → digits.all isXDigit = true) :
    (n.overflows = false ∧ n.number = some n.sqlNumber) ↔ n.Fits := by
  cases n with
  | integer digits =>
    apply (and_iff_right rfl).trans
    simp only [Numeral.number, Numeral.sqlNumber, Numeral.value, Numeral.Fits]
    rw [← Binary64.read_eq_self_iff (Nat.cast_nonneg _)]
    by_cases hlong : digitsVal digits < 2 ^ 63
    · rw [if_pos hlong]
      exact iff_of_true rfl (.inl hlong)
    · rw [if_neg hlong, or_iff_right hlong]
  | exact whole fraction =>
    have hv : 0 ≤ (Numeral.exact whole fraction).value := by
      rw [Numeral.value]
      positivity
    exact (and_iff_right rfl).trans (Binary64.read_eq_self_iff hv)
  | float whole fraction e =>
    simp only [Numeral.overflows, Numeral.number, Numeral.sqlNumber, Numeral.Fits, Binary64.read,
      decide_eq_false_iff_not, not_le]
    constructor
    · exact And.left
    · intro h
      exact ⟨h, if_neg (not_le.mpr h)⟩
  | hex digits => exact (and_iff_right rfl).trans (hex_number_iff (hn digits rfl))

-- MySQL keeps the last digit
example : (Numeral.exact (str "58") (str "00000000000000001")).number = some 58 := by decide +kernel

/-! ## Pieces of numerals -/

def readSign : Bytes → Bool × Bytes
  | c :: x => if c = dash then (true, x) else if c = 43 then (false, x) else (false, c :: x)
  | [] => (false, [])

/-- `[eE][+-]?[0-9]+`, and what follows it. -/
def readExponent : Bytes → Option (Int × Bytes)
  | c :: x =>
    let (negative, y) := readSign x
    let digits := y.takeWhile isDigit
    if (c = 101 ∨ c = 69) ∧ digits ≠ [] then
      some (if negative then -digitsVal digits else digitsVal digits, y.dropWhile isDigit)
    else none
  | [] => none

/-- After the digits: the end, or an exponent and the end. -/
def readFloat (whole fraction : Bytes) : Bytes → Option Numeral
  | [] => some (.exact whole fraction)
  | r =>
    match readExponent r with
    | some (e, []) => some (.float whole fraction e)
    | _ => none

/-- After the point. -/
def readFraction (whole y : Bytes) : Option Numeral :=
  readFloat whole (y.takeWhile isDigit) (y.dropWhile isDigit)

/-! ## is_numeric -/

def isPhpSpace (c : Byte) : Bool := c == 32 || c == 9 || c == 10 || c == 13 || c == 11 || c == 12

/-- `0x` or `0X` with something behind it. -/
def hasHexPrefix : Bytes → Bool
  | c :: d :: _ :: _ => c == zero && (d == 120 || d == 88)
  | _ => false

def phpDecimal (u : Bytes) : Option Numeral :=
  let whole := u.takeWhile isDigit
  match u.dropWhile isDigit with
  | [] => if whole = [] then none else some (.integer whole)
  | c :: y =>
    if c = dot then
      -- a digit on one side of the point is enough
      if whole = [] ∧ y.takeWhile isDigit = [] then none else readFraction whole y
    else if whole = [] then none
    else readFloat whole [] (c :: y)

/-- The sign and the numeral that `is_numeric` recognizes. Only a numeral
without a sign may be hexadecimal. -/
def phpNumber (x : Bytes) : Option (Bool × Numeral) :=
  let s := x.dropWhile isPhpSpace
  if hasHexPrefix s then
    if (s.drop 2).all isXDigit then some (false, .hex (s.drop 2)) else none
  else (phpDecimal (readSign s).2).map fun n => ((readSign s).1, n)

def isNumeric (x : Bytes) : Bool := (phpNumber x).isSome

/-! ## MySQL literals -/

inductive Operand
  | literal (n : Numeral)
  | word (w : Bytes)
  deriving DecidableEq

def wordOperand (u : Bytes) : Option Operand := if u.all isWordByte then some (.word u) else none

/-- A text that begins with a digit is a number, unless it goes on as a word. -/
def numberOrWord (u : Bytes) : Option Operand :=
  if (str "0x").isPrefixOf u then
    if u.drop 2 ≠ [] ∧ (u.drop 2).all isXDigit then some (.literal (.hex (u.drop 2))) else wordOperand u
  else if (str "0b").isPrefixOf u then none
  else
    let whole := u.takeWhile isDigit
    match u.dropWhile isDigit with
    | [] => some (.literal (.integer whole))
    | c :: y =>
      if c = dot then (readFraction whole y).map .literal
      else
        match readExponent (c :: y) with
        | some _ => (readFloat whole [] (c :: y)).map .literal
        | none => wordOperand u

/-- The sign and the literal or word that a text consists of, nothing if it is
any other text. -/
def readOperand (x : Bytes) : Option (Bool × Operand) :=
  let (negative, u) := readSign (x.dropWhile isSqlSpace)
  let operand :=
    match u with
    | [] => none
    | c :: y =>
      if isDigit c then numberOrWord u
      else if c = dot ∧ y.takeWhile isDigit ≠ [] then (readFraction [] y).map .literal
      else none
  operand.map fun o => (negative, o)

/-! ## White space and signs -/

theorem isSqlSpace_of_isPhpSpace {c : Byte} (h : isPhpSpace c = true) : isSqlSpace c = true := by
  simp only [isPhpSpace, Bool.or_eq_true, beq_iff_eq] at h
  obtain (((((rfl | rfl) | rfl) | rfl) | rfl) | rfl) := h <;> decide +kernel

theorem dropWhile_of_imp {α : Type*} {p q : α → Bool} (hpq : ∀ a, p a = true → q a = true) {x : List α} {a : α}
    {y : List α} (h : x.dropWhile p = a :: y) (ha : q a = false) : x.dropWhile q = a :: y := by
  induction x with
  | nil => cases h
  | cons b x ih =>
    by_cases hb : p b = true
    · rw [List.dropWhile_cons_of_pos (hpq b hb)]
      rw [List.dropWhile_cons_of_pos hb] at h
      exact ih h
    · rw [List.dropWhile_cons_of_neg hb] at h
      cases h
      rw [List.dropWhile_cons_of_neg (by simp [ha])]

/-- A byte that a numeral can begin with. -/
def startsNumeral (c : Byte) : Bool := isDigit c || c == dot

theorem startsNumeral_not_space {c : Byte} (h : startsNumeral c = true) : isSqlSpace c = false := by
  simp only [startsNumeral, isDigit, isSqlSpace, Bool.or_eq_true, Bool.and_eq_true, decide_eq_true_eq,
    beq_iff_eq, Bool.or_eq_false_iff, Bool.and_eq_false_iff, decide_eq_false_iff_not, beq_eq_false_iff_ne] at *
  grind

theorem phpDecimal_starts {u : Bytes} {n : Numeral} (h : phpDecimal u = some n) :
    ∃ c y, u = c :: y ∧ startsNumeral c = true := by
  cases u with
  | nil => cases h
  | cons c y =>
    refine ⟨c, y, rfl, ?_⟩
    by_cases hc : isDigit c = true
    · simp [startsNumeral, hc]
    · simp only [phpDecimal, List.takeWhile_cons_of_neg hc, List.dropWhile_cons_of_neg hc] at h
      split at h
      · rename_i hd
        simp [startsNumeral, hd]
      · cases h

theorem readSign_starts {s : Bytes} {c : Byte} {y : Bytes} (h : (readSign s).2 = c :: y)
    (hc : startsNumeral c = true) : ∃ d t, s = d :: t ∧ isSqlSpace d = false := by
  cases s with
  | nil => cases h
  | cons d t =>
    refine ⟨d, t, rfl, ?_⟩
    by_cases hm : d = dash
    · rw [hm]
      decide
    · by_cases hp : d = 43
      · rw [hp]
        decide
      · rw [readSign, if_neg hm, if_neg hp] at h
        cases h
        exact startsNumeral_not_space hc

/-! ## What is_numeric accepts, read by MySQL -/

theorem readFloat_cons (whole fraction : Bytes) (c : Byte) (y : Bytes) :
    readFloat whole fraction (c :: y) =
      match readExponent (c :: y) with
      | some (e, []) => some (.float whole fraction e)
      | _ => none := rfl

theorem readFloat_not_hex {whole fraction r : Bytes} {n : Numeral} (h : readFloat whole fraction r = some n)
    (digits : Bytes) : n ≠ .hex digits := by
  unfold readFloat at h
  split at h
  · cases h
    nofun
  · split at h
    · cases h
      nofun
    · cases h

theorem phpDecimal_not_hex {u : Bytes} {n : Numeral} (h : phpDecimal u = some n) (digits : Bytes) : n ≠ .hex digits := by
  simp only [phpDecimal] at h
  split at h
  · split at h
    · cases h
    · cases h
      nofun
  · split at h
    · split at h
      · cases h
      · exact readFloat_not_hex h digits
    · split at h
      · cases h
      · exact readFloat_not_hex h digits

/-- No letter but `e` follows the digits of a decimal numeral. -/
theorem phpDecimal_letter {u : Bytes} {n : Numeral} (h : phpDecimal u = some n) {c : Byte} (hd : isDigit c = false)
    (hdot : c ≠ dot) (he : ¬(c = 101 ∨ c = 69)) : [zero, c].isPrefixOf u = false := by
  rw [Bool.eq_false_iff]
  intro hp
  obtain ⟨t, rfl⟩ := List.isPrefixOf_iff_prefix.mp hp
  have hz : isDigit zero = true := by decide
  have hr : readExponent (c :: t) = none := by simp [readExponent, he]
  simp [phpDecimal, hz, hd, hdot, readFloat_cons, hr] at h

theorem numberOrWord_of_phpDecimal {u : Bytes} {n : Numeral} (h : phpDecimal u = some n)
    (hu : u.takeWhile isDigit ≠ []) : numberOrWord u = some (.literal n) := by
  have hx : (str "0x").isPrefixOf u = false := phpDecimal_letter h (by decide) (by decide) (by decide)
  have hb : (str "0b").isPrefixOf u = false := phpDecimal_letter h (by decide) (by decide) (by decide)
  rw [numberOrWord, hx, hb]
  unfold phpDecimal at h
  split at h
  · rename_i hr
    rw [if_neg hu] at h
    cases h
    simp
  · rename_i c y hr
    split at h
    · rename_i hc
      rw [if_neg fun hw => hu hw.1] at h
      simp [hc, h]
    · rename_i hc
      rw [if_neg hu] at h
      obtain ⟨e, he⟩ : ∃ e, readExponent (c :: y) = some e := by
        rw [← Option.ne_none_iff_exists']
        intro he
        rw [readFloat_cons, he] at h
        cases h
      simp [hc, he, h]

theorem unsigned_of_phpDecimal {c : Byte} {y : Bytes} {n : Numeral} (h : phpDecimal (c :: y) = some n) :
    (if isDigit c then numberOrWord (c :: y)
      else if c = dot ∧ y.takeWhile isDigit ≠ [] then (readFraction [] y).map .literal
      else none) = some (.literal n) := by
  by_cases hc : isDigit c = true
  · rw [if_pos hc]
    exact numberOrWord_of_phpDecimal h (by rw [List.takeWhile_cons_of_pos hc]; simp)
  · rw [if_neg hc]
    simp only [phpDecimal, List.takeWhile_cons_of_neg hc, List.dropWhile_cons_of_neg hc, true_and, if_true] at h
    split at h
    · rename_i hd
      split at h
      · cases h
      · rename_i hy
        rw [if_pos ⟨hd, hy⟩, h]
        rfl
    · cases h

theorem hasHexPrefix_iff {s : Bytes} : hasHexPrefix s = true ↔
    s.drop 2 ≠ [] ∧ (s = zero :: 120 :: s.drop 2 ∨ s = zero :: 88 :: s.drop 2) := by
  unfold hasHexPrefix
  split
  · simp only [Bool.and_eq_true, Bool.or_eq_true, beq_iff_eq, List.drop_succ_cons, List.drop_zero, List.cons.injEq]
    simp only [ne_eq, reduceCtorEq, not_false_eq_true, true_and, and_true]
    exact and_or_left
  · rename_i hne
    simp only [Bool.false_eq_true, false_iff]
    rintro ⟨hs, h | h⟩ <;> obtain ⟨e, t, ht⟩ := List.exists_cons_of_ne_nil hs <;>
      exact hne _ _ _ _ (ht ▸ h)

theorem numberOrWord_hex {t : Bytes} (ht : t ≠ []) (hx : t.all isXDigit = true) :
    numberOrWord (zero :: 120 :: t) = some (.literal (.hex t)) := by
  have hp : (str "0x").isPrefixOf (zero :: 120 :: t) = true := List.isPrefixOf_iff_prefix.mpr ⟨t, rfl⟩
  simp [numberOrWord, hp, ht, hx]

theorem isXDigit_word {c : Byte} (h : isXDigit c = true) : isWordByte c = true := by
  simp only [isXDigit, isHexDigit, isWordByte, isLetter, isUpper, isLower, isDigit, Bool.or_eq_true, Bool.and_eq_true,
    decide_eq_true_eq, bne_iff_ne, beq_iff_eq] at *
  grind

/-- Behind `0X` the digits belong to a word. -/
theorem numberOrWord_upper {t : Bytes} (hx : t.all isXDigit = true) :
    numberOrWord (zero :: 88 :: t) = some (.word (zero :: 88 :: t)) := by
  have hpx : (str "0x").isPrefixOf (zero :: 88 :: t) = false := rfl
  have hpb : (str "0b").isPrefixOf (zero :: 88 :: t) = false := rfl
  have hz : isDigit zero = true := by decide
  have h88 : isDigit 88 = false := by decide
  have hdot : (88 : Byte) ≠ dot := by decide
  have hr : readExponent (88 :: t) = none := by simp [readExponent]
  have hw : (zero :: 88 :: t).all isWordByte = true := by
    rw [List.all_eq_true] at *
    simp only [List.forall_mem_cons]
    exact ⟨by decide, by decide, fun c hc => isXDigit_word (hx c hc)⟩
  rw [numberOrWord, hpx, hpb]
  simp only [Bool.false_eq_true, if_false, List.dropWhile_cons, hz, h88, if_true, if_neg hdot, hr]
  rw [wordOperand, if_pos hw]

def hasUpperPrefix (x : Bytes) : Bool := (str "0X").isPrefixOf (x.dropWhile isPhpSpace)

theorem phpNumber_cases {x : Bytes} {negative : Bool} {n : Numeral} (h : phpNumber x = some (negative, n)) :
    (∃ t, t ≠ [] ∧ t.all isXDigit = true ∧ negative = false ∧ n = .hex t ∧
      (x.dropWhile isPhpSpace = zero :: 120 :: t ∨ x.dropWhile isPhpSpace = zero :: 88 :: t)) ∨
      (phpDecimal (readSign (x.dropWhile isPhpSpace)).2 = some n ∧
        negative = (readSign (x.dropWhile isPhpSpace)).1) := by
  simp only [phpNumber] at h
  split at h
  · rename_i hp
    obtain ⟨ht, hs⟩ := hasHexPrefix_iff.mp hp
    split at h
    · rename_i hx
      cases h
      exact .inl ⟨_, ht, hx, rfl, rfl, hs⟩
    · cases h
  · obtain ⟨m, hm, he⟩ := Option.map_eq_some_iff.mp h
    cases he
    exact .inr ⟨hm, rfl⟩

/-- MySQL reads a numeral of `is_numeric` as the same literal; behind `0X` it
reads a word. -/
theorem readOperand_of_phpNumber {x : Bytes} {negative : Bool} {n : Numeral} (h : phpNumber x = some (negative, n)) :
    readOperand x = some (if hasUpperPrefix x then (false, .word (x.dropWhile isPhpSpace))
      else (negative, .literal n)) := by
  have hspace := fun c => isSqlSpace_of_isPhpSpace (c := c)
  have hzero : isSqlSpace zero = false := by decide
  rcases phpNumber_cases h with ⟨t, ht, hx, rfl, rfl, hs | hs⟩ | ⟨hm, hneg⟩
  · have hu : hasUpperPrefix x = false := by rw [hasUpperPrefix, hs]; rfl
    rw [hu, readOperand, dropWhile_of_imp hspace hs hzero]
    exact congrArg (Option.map fun o => (false, o)) (numberOrWord_hex ht hx)
  · have hu : hasUpperPrefix x = true := by rw [hasUpperPrefix, hs]; rfl
    rw [hu, if_pos rfl, readOperand, dropWhile_of_imp hspace hs hzero, hs]
    exact congrArg (Option.map fun o => (false, o)) (numberOrWord_upper hx)
  · obtain ⟨c, y, hu, hc⟩ := phpDecimal_starts hm
    obtain ⟨d, t, hs, hd⟩ := readSign_starts hu hc
    have hup : hasUpperPrefix x = false := by
      rw [hasUpperPrefix, Bool.eq_false_iff]
      intro hpre
      obtain ⟨r, hr⟩ := List.isPrefixOf_iff_prefix.mp hpre
      rw [← hr] at hm
      have hno := phpDecimal_letter hm (c := 88) (by decide) (by decide) (by decide)
      cases hno
    rw [hup, readOperand, dropWhile_of_imp hspace hs hd, ← hs]
    rw [hu] at hm
    simp only [hu]
    rw [unsigned_of_phpDecimal hm, hneg]
    rfl

end Vortex
