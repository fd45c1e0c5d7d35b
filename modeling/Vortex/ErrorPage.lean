import Mathlib.Data.List.Nodup
import Vortex.Pages

/-!
# The error page

`error.php` looks its message up under the path of the request. Different
paths are different keys, so a message is shown for its own code only, and
nothing of the request gets onto the page.
-/

namespace Vortex

open Ascii

/-! ## Keys of arrays -/

theorem isIndex_digits {x : Bytes} (h : isIndex x = true) : decimal (digitsVal x) = x := by
  unfold isIndex at h
  rw [Bool.or_eq_true, beq_iff_eq, Bool.and_eq_true, Bool.and_eq_true, bne_iff_ne, bne_iff_ne, List.all_eq_true] at h
  rcases h with rfl | ⟨⟨hne, hd⟩, hz⟩
  · decide
  · exact (decimal_digitsVal hd hne hz).1

theorem isIndex_pos {x : Bytes} (h : isIndex x = true) (hz : x ≠ [zero]) : 0 < digitsVal x := by
  apply Nat.pos_of_ne_zero
  intro h0
  apply hz
  rw [← isIndex_digits h, h0]
  rfl

theorem phpKey_cases (x : Bytes) :
    (isIndex x = true ∧ phpKey x = .int (digitsVal x)) ∨
      (∃ y, x = dash :: y ∧ isIndex y = true ∧ 0 < digitsVal y ∧ phpKey x = .int (-digitsVal y)) ∨ phpKey x = .str x := by
  unfold phpKey
  split
  · exact .inr (.inr rfl)
  · rename_i c y
    split
    · rename_i h
      rw [Bool.and_eq_true] at h
      exact .inl ⟨h.1, rfl⟩
    · split
      · rename_i h
        simp only [Bool.and_eq_true, beq_iff_eq, bne_iff_ne] at h
        obtain ⟨⟨⟨rfl, hi⟩, hz⟩, -⟩ := h
        exact .inr (.inl ⟨y, rfl, hi, isIndex_pos hi hz, rfl⟩)
      · exact .inr (.inr rfl)

/-- Different strings are different keys. -/
theorem phpKey_inj {x y : Bytes} (h : phpKey x = phpKey y) : x = y := by
  rcases phpKey_cases x with ⟨hx, kx⟩ | ⟨x', rfl, hx, px, kx⟩ | kx <;>
    rcases phpKey_cases y with ⟨hy, ky⟩ | ⟨y', rfl, hy, py, ky⟩ | ky
  all_goals rw [kx, ky] at h
  · rw [← isIndex_digits hx, ← isIndex_digits hy, Int.ofNat_inj.mp (PhpKey.int.inj h)]
  · have := PhpKey.int.inj h
    omega
  · cases h
  · have := PhpKey.int.inj h
    omega
  · have hv : digitsVal x' = digitsVal y' := by
      have := PhpKey.int.inj h
      omega
    rw [← isIndex_digits hx, ← isIndex_digits hy, hv]
  · cases h
  · cases h
  · cases h
  · exact PhpKey.str.inj h

/-! ## The message of a code -/

theorem codes_nodup : (errorMsg.map Prod.fst).Nodup := by
  decide +kernel

theorem messages_nodup : (errorMsg.map Prod.snd).Nodup := by
  decide +kernel

/-- An entry is known by its code, and by its message. -/
theorem errorMsg_code : ∀ e ∈ errorMsg, ∀ e' ∈ errorMsg, e.1 = e'.1 → e = e' := fun _ he _ he' =>
  List.inj_on_of_nodup_map codes_nodup he he'

theorem errorMsg_inj : ∀ e ∈ errorMsg, ∀ e' ∈ errorMsg, e.2 = e'.2 → e = e' := fun _ he _ he' =>
  List.inj_on_of_nodup_map messages_nodup he he'

theorem messageOf_some {x m : Bytes} (h : messageOf x = some m) : (x, m) ∈ errorMsg := by
  obtain ⟨⟨code, m'⟩, hfind, rfl⟩ := Option.map_eq_some_iff.mp h
  have hkey := List.find?_some hfind
  rw [beq_iff_eq] at hkey
  obtain rfl := phpKey_inj hkey
  exact List.mem_of_find?_eq_some hfind

theorem messageOf_code (e : Bytes × Bytes) (he : e ∈ errorMsg) : messageOf e.1 = some e.2 := by
  cases hm : messageOf e.1 with
  | some m => exact congrArg (fun e => some e.2) (errorMsg_code _ (messageOf_some hm) e he rfl)
  | none => exact absurd (beq_self_eq_true (phpKey e.1)) (List.find?_eq_none.mp (Option.map_eq_none_iff.mp hm) e he)

theorem messageOf_none {x : Bytes} : messageOf x = none ↔ ∀ e ∈ errorMsg, x ≠ e.1 := by
  constructor
  · rintro h e he rfl
    rw [messageOf_code e he] at h
    cases h
  · intro h
    cases hm : messageOf x with
    | none => rfl
    | some m => exact absurd rfl (h _ (messageOf_some hm))

theorem errorFrame_inj {m m' : Bytes} (h : errorFrame m = errorFrame m') : m = m' := by
  unfold errorFrame at h
  exact List.append_cancel_right (List.append_cancel_left (List.append_cancel_left h))

/-- The entry that the page shows. -/
def shownFor (x : Bytes) (e : Bytes × Bytes) : Prop :=
  e ∈ errorMsg ∧ (x = e.1 ∨ e.1 = str "51" ∧ ∀ e' ∈ errorMsg, x ≠ e'.1)

theorem shownFor_unique {x : Bytes} {e e' : Bytes × Bytes} (h : shownFor x e) (h' : shownFor x e') : e = e' := by
  apply errorMsg_code e h.1 e' h'.1
  rcases h.2 with rfl | ⟨h51, hno⟩
  · rcases h'.2 with he | ⟨-, hno'⟩
    · exact he
    · exact absurd rfl (hno' e h.1)
  · rcases h'.2 with rfl | ⟨h51', -⟩
    · exact absurd rfl (hno e' h'.1)
    · rw [h51, h51']

theorem errorPage_shown (pathInfo : Option Bytes) :
    ∃ e, shownFor (trimSlashes (pathInfo.getD [])) e ∧ errorPage pathInfo = errorFrame e.2 := by
  have hempty : messageOf [] = none := by decide +kernel
  unfold errorPage
  cases hm : messageOf (trimSlashes (pathInfo.getD [])) with
  | some m =>
    have hne : (trimSlashes (pathInfo.getD []) == []) = false := by
      rw [beq_eq_false_iff_ne]
      intro he
      rw [he, hempty] at hm
      cases hm
    refine ⟨(_, m), ⟨messageOf_some hm, .inl rfl⟩, ?_⟩
    simp only [hm, hne, Option.isNone_some, Bool.or_self, Bool.false_eq_true, if_false, Option.getD_some]
  | none =>
    have h51 : ∃ e ∈ errorMsg, e.1 = str "51" := by decide +kernel
    obtain ⟨e, hmem, he⟩ := h51
    refine ⟨e, ⟨hmem, .inr ⟨he, messageOf_none.mp hm⟩⟩, ?_⟩
    simp only [hm, Option.isNone_none, Bool.or_true, if_true, ← he, messageOf_code e hmem, Option.getD_some]

theorem errorPage_of_shownFor {pathInfo : Option Bytes} {e : Bytes × Bytes} (h : shownFor (trimSlashes (pathInfo.getD [])) e) :
    errorPage pathInfo = errorFrame e.2 := by
  obtain ⟨e₀, hshown, hpage⟩ := errorPage_shown pathInfo
  rw [hpage, shownFor_unique hshown h]

/-- The page is one of the eleven, and the message of a code is shown exactly
for the paths that trim to it, that of 51 for those that trim to no code too. -/
theorem error_page_own_code (pathInfo : Option Bytes) :
    (∃ e ∈ errorMsg, errorPage pathInfo = errorFrame e.2) ∧
    ∀ e ∈ errorMsg, errorPage pathInfo = errorFrame e.2 ↔
      (trimSlashes (pathInfo.getD []) = e.1 ∨
        e.1 = str "51" ∧ ∀ e' ∈ errorMsg, trimSlashes (pathInfo.getD []) ≠ e'.1) := by
  obtain ⟨e₀, hshown, hpage⟩ := errorPage_shown pathInfo
  refine ⟨⟨e₀, hshown.1, hpage⟩, fun e he => ?_⟩
  constructor
  · intro h
    rw [hpage] at h
    rw [← errorMsg_inj e₀ hshown.1 e he (errorFrame_inj h)]
    exact hshown.2
  · intro h
    exact errorPage_of_shownFor ⟨he, h⟩

end Vortex
