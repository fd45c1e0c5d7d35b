import Mathlib.Data.List.Chain
import Mathlib.Data.List.Infix

/-!
# Windows on a growing list

A reader looks at a list through windows of width `k`, one after the other,
while elements are appended at the end. As long as every window it leaves was
full, the windows lie side by side in whatever the list has become.
-/

namespace Windows

structure View (α : Type*) where
  list : List α
  start : Nat

variable {α : Type*} (k : Nat)

def page (v : View α) : List α := (v.list.drop v.start).take k

/-- The view after `v`: nothing was removed, the window moved by its width, and
`v` showed a full page. -/
structure Next (v w : View α) : Prop where
  grows : v.list <+: w.list
  moves : w.start = v.start + k
  full : v.start + k ≤ v.list.length

variable {k}

theorem page_of_prefix {v : View α} {l : List α} (hl : v.list <+: l) (hf : v.start + k ≤ v.list.length) :
    page k v = (l.drop v.start).take k := by
  obtain ⟨new, rfl⟩ := hl
  rw [page, List.drop_append_of_le_length (by omega), List.take_append_of_le_length (by simp; omega)]

theorem grows_last : ∀ {vs : List (View α)} {v l : View α}, (v :: vs).IsChain (Next k) →
    (v :: vs).getLast? = some l → v.list <+: l.list
  | [], v, l, _, hl => by
    cases hl
    exact List.prefix_refl _
  | w :: vs, v, l, hc, hl => by
    rw [List.isChain_cons_cons] at hc
    rw [List.getLast?_cons_cons] at hl
    exact hc.1.grows.trans (grows_last hc.2 hl)

theorem start_last : ∀ {vs : List (View α)} {v l : View α}, (v :: vs).IsChain (Next k) →
    (v :: vs).getLast? = some l → l.start = v.start + k * vs.length
  | [], v, l, _, hl => by
    cases hl
    rfl
  | w :: vs, v, l, hc, hl => by
    rw [List.isChain_cons_cons] at hc
    rw [List.getLast?_cons_cons] at hl
    rw [start_last hc.2 hl, hc.1.moves, List.length_cons, Nat.mul_succ]
    omega

theorem pages_eq : ∀ {vs : List (View α)} {v l : View α}, (v :: vs).IsChain (Next k) →
    (v :: vs).getLast? = some l → (v :: vs).flatMap (page k) = (l.list.drop v.start).take (k * (vs.length + 1))
  | [], v, l, _, hl => by
    cases hl
    simp [page]
  | w :: vs, v, l, hc, hl => by
    have hg := grows_last hc hl
    rw [List.isChain_cons_cons] at hc
    rw [List.getLast?_cons_cons] at hl
    have ih := pages_eq hc.2 hl
    have hd : l.list.drop w.start = (l.list.drop v.start).drop k := by
      rw [List.drop_drop, hc.1.moves]
    have hk : k * ((w :: vs).length + 1) = k + k * (vs.length + 1) := by
      rw [List.length_cons, Nat.mul_succ, Nat.add_comm]
    rw [List.flatMap_cons, ih, page_of_prefix hg hc.1.full, hd, hk, List.take_add]

/-- Windows that start at the beginning and end on a page that is not full
show the list as it is when the last page is shown. -/
theorem pages_eq_list {vs : List (View α)} {v l : View α} (hc : (v :: vs).IsChain (Next k))
    (hl : (v :: vs).getLast? = some l) (h₀ : v.start = 0) (hs : l.list.length < l.start + k) :
    (v :: vs).flatMap (page k) = l.list := by
  have hst := start_last hc hl
  rw [pages_eq hc hl, h₀, List.drop_zero, List.take_of_length_le]
  rw [Nat.mul_succ]
  omega

/-- The number of windows is the length of the list divided by the width, plus
one, when the list did not grow. -/
theorem count_eq {vs : List (View α)} {v l : View α} (hc : (v :: vs).IsChain (Next k))
    (hl : (v :: vs).getLast? = some l) (h₀ : v.start = 0) (hs : l.list.length < l.start + k)
    (hle : l.start ≤ l.list.length) : (v :: vs).length = l.list.length / k + 1 := by
  have hst := start_last hc hl
  rw [h₀, Nat.zero_add] at hst
  rw [List.length_cons, Nat.succ_inj]
  symm
  apply Nat.div_eq_of_lt_le
  · rw [Nat.mul_comm, ← hst]
    exact hle
  · rw [Nat.mul_comm, Nat.mul_succ, ← hst]
    exact hs

end Windows
