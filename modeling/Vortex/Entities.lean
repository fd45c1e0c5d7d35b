import Vortex.SqlShape
import Vortex.VideoUpload

/-!
# Reading the entities back

`verifyInput` escapes first and removes the parentheses afterwards, from text
that is already escaped. Decoding its entities from left to right gives back
the unslashed text without parentheses, as long as `htmlspecialchars` takes
the text at all.
-/

namespace Vortex

open Ascii

/-! ## Decoding -/

def entities : List (Bytes × Byte) :=
  [(str "&amp;", amp), (str "&lt;", lt), (str "&gt;", gt), (str "&quot;", dquote)]

/-- The entity a text begins with: the byte it stands for and its length. -/
def entityAt (x : Bytes) : Option (Byte × Nat) :=
  (entities.find? fun e => e.1.isPrefixOf x).map fun e => (e.2, e.1.length)

/-- The first `n` bytes belong to an entity that is decoded already. -/
def decodeFrom : Nat → Bytes → Bytes
  | _, [] => []
  | n + 1, _ :: x => decodeFrom n x
  | 0, c :: x =>
    match entityAt (c :: x) with
    | some (d, n) => d :: decodeFrom (n - 1) x
    | none => c :: decodeFrom 0 x

def decodeEntities (x : Bytes) : Bytes := decodeFrom 0 x

theorem decodeFrom_append : ∀ (t x : Bytes), decodeFrom t.length (t ++ x) = decodeFrom 0 x
  | [], _ => rfl
  | _ :: t, x => decodeFrom_append t x

theorem entity_head : ∀ e ∈ entities, ∃ t, e.1 = amp :: t := by
  intro e he
  simp only [entities, List.mem_cons, List.not_mem_nil, or_false] at he
  rcases he with rfl | rfl | rfl | rfl <;> exact ⟨_, rfl⟩

theorem entityAt_of_ne {c : Byte} (h : c ≠ amp) (x : Bytes) : entityAt (c :: x) = none := by
  have hc : ∀ e ∈ entities, e.1.isPrefixOf (c :: x) = false := by
    intro e he
    obtain ⟨t, ht⟩ := entity_head e he
    rw [ht, List.isPrefixOf, beq_false_of_ne (Ne.symm h), Bool.false_and]
  rw [entityAt, List.find?_eq_none.mpr fun e he => by rw [hc e he]; simp]
  rfl

theorem entityAt_append : ∀ e ∈ entities, ∀ x, entityAt (e.1 ++ x) = some (e.2, e.1.length) := by
  intro e he x
  simp only [entities, List.mem_cons, List.not_mem_nil, or_false] at he
  rcases he with rfl | rfl | rfl | rfl <;> simp [entityAt, entities, str]

/-- An entity is decoded as a whole, whatever follows it. -/
theorem decodeEntities_entity {e : Bytes × Byte} (he : e ∈ entities) (x : Bytes) :
    decodeEntities (e.1 ++ x) = e.2 :: decodeEntities x := by
  obtain ⟨t, ht⟩ := entity_head e he
  have ha := entityAt_append e he x
  rw [ht] at ha ⊢
  rw [decodeEntities, List.cons_append, decodeFrom, ← List.cons_append, ha]
  simp only [List.length_cons, Nat.add_sub_cancel, decodeFrom_append, decodeEntities]

theorem htmlEscape_entity (c : Byte) : (htmlEscape c, c) ∈ entities ∨ (htmlEscape c = [c] ∧ c ≠ amp) := by
  by_cases h : c ∈ [amp, dquote, lt, gt]
  · left
    simp only [List.mem_cons, List.not_mem_nil, or_false] at h
    rcases h with rfl | rfl | rfl | rfl <;> decide +kernel
  · right
    simp only [List.mem_cons, List.not_mem_nil, or_false, not_or] at h
    obtain ⟨h₁, h₂, h₃, h₄⟩ := h
    exact ⟨by simp [htmlEscape, h₁, h₂, h₃, h₄], h₁⟩

theorem decodeEntities_htmlEscape (c : Byte) (x : Bytes) :
    decodeEntities (htmlEscape c ++ x) = c :: decodeEntities x := by
  rcases htmlEscape_entity c with h | ⟨h, hc⟩
  · exact decodeEntities_entity h x
  · rw [h, List.singleton_append, decodeEntities, decodeFrom, entityAt_of_ne hc]
    rfl

theorem decodeEntities_flatMap (x : Bytes) : decodeEntities (x.flatMap htmlEscape) = x := by
  induction x with
  | nil => rfl
  | cons c x ih => rw [List.flatMap_cons, decodeEntities_htmlEscape, ih]

/-! ## Parentheses removed after escaping -/

/-- No entity is broken and none is made: it does not matter whether the
parentheses go before or after decoding. -/
theorem decodeEntities_strtrParens (x : Bytes) :
    decodeEntities (strtrParens (htmlspecialchars x)) = strtrParens (decodeEntities (htmlspecialchars x)) := by
  unfold htmlspecialchars
  split
  · rw [strtrParens_htmlEscape, decodeEntities_flatMap, decodeEntities_flatMap]
  · rfl

/-! ## What verifyInput keeps -/

/-- Text that is all parentheses is ASCII. -/
theorem validUtf8_of_strtrParens : ∀ {x : Bytes}, strtrParens x = [] → validUtf8 x = true
  | [], _ => rfl
  | c :: x, h => by
    rw [strtrParens, List.filter_eq_nil_iff] at h
    have hc : c = lparen ∨ c = rparen := by
      have := h c (List.mem_cons_self ..)
      rwa [Bool.not_not_eq, isParen, Bool.or_eq_true, beq_iff_eq, beq_iff_eq] at this
    have ih : validUtf8 x = true :=
      validUtf8_of_strtrParens (List.filter_eq_nil_iff.mpr fun d hd => h d (List.mem_cons_of_mem _ hd))
    have hlt : c < 0x80 := by rcases hc with rfl | rfl <;> decide +kernel
    rw [validUtf8, utf8From, if_pos hlt]
    exact ih

/-- The text comes back exactly when it is UTF-8 once it is trimmed and
unslashed; then, and in any case, removing the parentheses commutes with
decoding. -/
theorem verifyInput_faithful (x : Bytes) :
    (decodeEntities (verifyInput x) = strtrParens (stripslashes (trim x)) ∧
      decodeEntities (verifyInput x) =
        strtrParens (decodeEntities (htmlspecialchars (stripslashes (trim x))))) ↔
      validUtf8 (stripslashes (trim x)) = true := by
  constructor
  · rintro ⟨h, -⟩
    by_contra hv
    have he : verifyInput x = [] := by rw [verifyInput, htmlspecialchars, if_neg hv]; rfl
    rw [he] at h
    exact hv (validUtf8_of_strtrParens h.symm)
  · intro hv
    refine ⟨?_, decodeEntities_strtrParens _⟩
    rw [verifyInput, htmlspecialchars, if_pos hv, strtrParens_htmlEscape, decodeEntities_flatMap]

/-- A title with one Latin-1 letter, as a form without a charset may post it. -/
def latinTitle : Bytes := [67, 97, 102, 0xE9]

theorem latinTitle_lost : decodeEntities (verifyInput latinTitle) ≠ strtrParens (stripslashes (trim latinTitle)) := by
  decide +kernel

end Vortex
