import Mathlib.Data.List.DropRight
import Vortex.Bytes

/-!
# The PHP functions the site calls

PHP 5.5 string functions with the arguments the site gives them, and
`ClientName`, a file name as PHP's upload parser leaves it.
-/

namespace Vortex

open Ascii

/-! ## trim, stripslashes, htmlspecialchars, strtr -/

def isTrimmed (c : Byte) : Bool := c == 32 || c == 9 || c == 10 || c == 13 || c == 0 || c == 11

def trim (x : Bytes) : Bytes := (x.dropWhile isTrimmed).rdropWhile isTrimmed

def unslash (c : Byte) : Byte := if c = zero then 0 else c

/-- One level of backslashes; a backslash at the very end is dropped. -/
def stripslashes : Bytes → Bytes
  | [] => []
  | [c] => if c = backslash then [] else [c]
  | c :: d :: x => if c = backslash then unslash d :: stripslashes x else c :: stripslashes (d :: x)

/-- `n` continuation bytes are still due, the first of them between `lo` and `hi`. -/
def utf8From : Nat → Byte → Byte → Bytes → Bool
  | 0, _, _, [] => true
  | 0, _, _, c :: x =>
    if c < 0x80 then utf8From 0 0x80 0xBF x
    else if 0xC2 ≤ c && c ≤ 0xDF then utf8From 1 0x80 0xBF x
    else if c = 0xE0 then utf8From 2 0xA0 0xBF x
    else if c = 0xED then utf8From 2 0x80 0x9F x
    else if 0xE1 ≤ c && c ≤ 0xEF then utf8From 2 0x80 0xBF x
    else if c = 0xF0 then utf8From 3 0x90 0xBF x
    else if 0xF1 ≤ c && c ≤ 0xF3 then utf8From 3 0x80 0xBF x
    else if c = 0xF4 then utf8From 3 0x80 0x8F x
    else false
  | _ + 1, _, _, [] => false
  | n + 1, lo, hi, c :: x => lo ≤ c && c ≤ hi && utf8From n 0x80 0xBF x

def validUtf8 (x : Bytes) : Bool := utf8From 0 0x80 0xBF x

/-- The replacement of one byte under the default flags (double quotes only). -/
def htmlEscape (c : Byte) : Bytes :=
  if c = amp then str "&amp;"
  else if c = dquote then str "&quot;"
  else if c = lt then str "&lt;"
  else if c = gt then str "&gt;"
  else [c]

/-- Text that is not UTF-8 becomes the empty string. -/
def htmlspecialchars (x : Bytes) : Bytes := if validUtf8 x then x.flatMap htmlEscape else []

def isParen (c : Byte) : Bool := c == lparen || c == rparen

/-- `strtr($input, array('(' => '', ')' => ''))`. -/
def strtrParens (x : Bytes) : Bytes := x.filter fun c => !isParen c

/-! ## basename and pathinfo -/

/-- The character set of `LC_CTYPE`: the length of the character that a text
begins with, if it begins with one. ASCII is part of every one of them. -/
structure Locale where
  mblen : Bytes → Option Nat
  ascii : ∀ c x, c < 128 → mblen (c :: x) = some 1

/-- `LANG=C`: ASCII only. -/
def posixLocale : Locale where
  mblen
    | c :: _ => if c < 128 then some 1 else none
    | [] => none
  ascii _ _ h := if_pos h

/-- `php_basename`: `comp` is the last component met, `skip` what is left of the
current character. Within a component (`state`) only a slash matters; outside,
slashes and bytes that begin no character are passed over. -/
def basenameFrom (L : Locale) : Nat → Bool → Bytes → Bytes → Bytes
  | _, _, comp, [] => comp
  | skip + 1, state, comp, c :: x => basenameFrom L skip state (comp ++ [c]) x
  | 0, state, comp, c :: x =>
    match L.mblen (c :: x) with
    | none => basenameFrom L 0 state (if state then comp ++ [c] else comp) x
    | some n =>
      if c = slash then basenameFrom L 0 false comp x
      else basenameFrom L (n - 1) true (if state then comp ++ [c] else [c]) x

def basename (L : Locale) (x : Bytes) : Bytes := basenameFrom L 0 false [] x

def afterLastDot (x : Bytes) : Bytes := if dot ∈ x then x.rtakeWhile (· != dot) else []

/-- `pathinfo($path, PATHINFO_EXTENSION)`: the text after the last dot of the
base name, empty without a dot. -/
def pathinfoExtension (L : Locale) (x : Bytes) : Bytes := afterLastDot (basename L x)

/-- `$_FILES[..]["name"]`: the upload parser keeps what follows the last slash
or backslash, and a header holds no NUL. -/
structure ClientName where
  bytes : Bytes
  clean : ∀ c ∈ bytes, c ≠ 0 ∧ c ≠ slash ∧ c ≠ backslash

theorem ClientName.no_slash (name : ClientName) : ∀ c ∈ name.bytes, c ≠ slash :=
  fun c hc => (name.clean c hc).2.1

theorem rtakeWhile_append_of_neg {α : Type*} {p : α → Bool} (x : List α) {a : α} (ha : p a = false)
    {y : List α} (hy : ∀ b ∈ y, p b = true) : (x ++ a :: y).rtakeWhile p = y := by
  have hr : ∀ z : List α, (∀ b ∈ z, p b = true) → (z ++ a :: x.reverse).takeWhile p = z := by
    intro z hz
    induction z with
    | nil => simp [ha]
    | cons b z ih => simp [hz b (List.mem_cons_self ..), ih fun c hc => hz c (List.mem_cons_of_mem _ hc)]
  have := hr y.reverse fun b hb => hy b (List.mem_reverse.mp hb)
  simp [List.rtakeWhile, this]

theorem afterLastDot_append (x : Bytes) {y : Bytes} (hy : ∀ c ∈ y, c ≠ dot) : afterLastDot (x ++ dot :: y) = y := by
  rw [afterLastDot, if_pos (by simp)]
  exact rtakeWhile_append_of_neg x (by simp) fun c hc => by simpa using hy c hc

section
variable {L : Locale} {x : Bytes}

/-- Within a component a text without slashes is kept, characters or not. -/
theorem basenameFrom_within (hx : ∀ c ∈ x, c ≠ slash) (skip : Nat) (comp : Bytes) :
    basenameFrom L skip true comp x = comp ++ x := by
  induction x generalizing skip comp with
  | nil => cases skip <;> simp [basenameFrom]
  | cons c x ih =>
    have hc := hx c (List.mem_cons_self ..)
    have ih := ih fun d hd => hx d (List.mem_cons_of_mem _ hd)
    cases skip with
    | succ skip => simp [basenameFrom, ih]
    | zero =>
      unfold basenameFrom
      cases L.mblen (c :: x) <;> simp [hc, ih]

/-- What is lost of a text without slashes is bytes at its front that begin no
character; an ASCII byte never does. -/
theorem basename_lead (hx : ∀ c ∈ x, c ≠ slash) :
    ∃ lead, x = lead ++ basename L x ∧ (∀ c ∈ lead, 128 ≤ c) ∧
      (basename L x = [] ∨ (L.mblen (basename L x)).isSome) := by
  induction x with
  | nil => exact ⟨[], rfl, by simp, .inl rfl⟩
  | cons c x ih =>
    cases hm : L.mblen (c :: x) with
    | none =>
      have hb : basename L (c :: x) = basename L x := by simp [basename, basenameFrom, hm]
      obtain ⟨lead, he, hl, hs⟩ := ih fun d hd => hx d (List.mem_cons_of_mem _ hd)
      refine ⟨c :: lead, ?_, List.forall_mem_cons.mpr ⟨?_, hl⟩, hb ▸ hs⟩
      · rw [hb, List.cons_append, ← he]
      · apply UInt8.not_lt.mp
        intro hlt
        rw [L.ascii c x hlt] at hm
        cases hm
    | some n =>
      have hb : basename L (c :: x) = c :: x := by
        have hc := hx c (List.mem_cons_self ..)
        simp [basename, basenameFrom, hm, hc, basenameFrom_within fun d hd => hx d (List.mem_cons_of_mem _ hd)]
      exact ⟨[], by rw [hb]; rfl, by simp, .inr (by rw [hb, hm]; rfl)⟩

/-- On ASCII text all locales agree. -/
theorem basenameFrom_ascii (L L' : Locale) (hx : ∀ c ∈ x, c < 128) (state : Bool) (comp : Bytes) :
    basenameFrom L 0 state comp x = basenameFrom L' 0 state comp x := by
  induction x generalizing state comp with
  | nil => rfl
  | cons c x ih =>
    have ih := ih fun d hd => hx d (List.mem_cons_of_mem _ hd)
    have hc := hx c (List.mem_cons_self ..)
    rw [basenameFrom, basenameFrom, L.ascii c x hc, L'.ascii c x hc]
    dsimp only
    split <;> exact ih ..

theorem basenameFrom_char (hx : ∀ c ∈ x, c ≠ slash) (hm : (L.mblen x).isSome) (hne : x ≠ []) (comp : Bytes) :
    basenameFrom L 0 false comp x = x := by
  obtain ⟨c, y, rfl⟩ := List.exists_cons_of_ne_nil hne
  obtain ⟨n, hn⟩ := Option.isSome_iff_exists.mp hm
  have hc := hx c (List.mem_cons_self ..)
  simp [basenameFrom, hn, hc, basenameFrom_within fun d hd => hx d (List.mem_cons_of_mem _ hd)]

theorem basename_below {dir : Bytes} (hd : ∀ c ∈ dir, c < 128) (hx : ∀ c ∈ x, c ≠ slash)
    (hm : (L.mblen x).isSome) (hne : x ≠ []) : basename L (dir ++ slash :: x) = x := by
  have hrun : ∀ state comp, basenameFrom L 0 state comp (dir ++ slash :: x) = x := by
    induction dir with
    | nil =>
      intro state comp
      simp [basenameFrom, L.ascii slash x (by decide), basenameFrom_char hx hm hne]
    | cons c dir ih =>
      intro state comp
      have ih := ih fun d hd' => hd d (List.mem_cons_of_mem _ hd')
      have hc := L.ascii c (dir ++ slash :: x) (hd c (List.mem_cons_self ..))
      rw [List.cons_append, basenameFrom, hc]
      dsimp only
      split <;> exact ih ..
  exact hrun false []

end

/-! ## What the rewriting passes keep -/

theorem mem_htmlEscape {c d : Byte} (h : d ∈ htmlEscape c) :
    (d = c ∧ c ≠ amp ∧ c ≠ dquote ∧ c ≠ lt ∧ c ≠ gt) ∨ d = amp ∨ d = 59 ∨ isLower d = true := by
  have ht : ∀ t ∈ [str "&amp;", str "&quot;", str "&lt;", str "&gt;"],
      ∀ d ∈ t, d = amp ∨ d = 59 ∨ isLower d = true := by decide +kernel
  unfold htmlEscape at h
  split at h
  · exact Or.inr (ht _ (by simp) d h)
  · split at h
    · exact Or.inr (ht _ (by simp) d h)
    · split at h
      · exact Or.inr (ht _ (by simp) d h)
      · split at h
        · exact Or.inr (ht _ (by simp) d h)
        · rename_i h₁ h₂ h₃ h₄
          exact Or.inl ⟨List.mem_singleton.mp h, h₁, h₂, h₃, h₄⟩

theorem mem_htmlspecialchars {x : Bytes} {d : Byte} (h : d ∈ htmlspecialchars x) :
    (d ∈ x ∧ d ≠ dquote ∧ d ≠ lt ∧ d ≠ gt) ∨ d = amp ∨ d = 59 ∨ isLower d = true := by
  unfold htmlspecialchars at h
  split at h
  · obtain ⟨c, hc, hd⟩ := List.mem_flatMap.mp h
    rcases mem_htmlEscape hd with ⟨rfl, -, hq, hl, hg⟩ | h
    · exact Or.inl ⟨hc, hq, hl, hg⟩
    · exact Or.inr h
  · cases h

theorem mem_strtrParens {x : Bytes} {c : Byte} (h : c ∈ strtrParens x) : c ∈ x ∧ c ≠ lparen ∧ c ≠ rparen := by
  simp only [strtrParens, isParen, List.mem_filter, Bool.not_eq_true', Bool.or_eq_false_iff,
    beq_eq_false_iff_ne] at h
  exact h

end Vortex
