import Vortex.Simulation

/-!
# Catalogues

What a publishing site is for: a list of published items that only grows. An
item is published at once, by an owner who has not published before and under
a key of its own, and gets the next id.
-/

structure Entry (ι α : Type*) where
  owner : ι
  item : α
  id : Nat

/-- `key` names an item. -/
structure Catalogue (ι : Type*) {α κ : Type*} (key : α → κ) where
  entries : List (Entry ι α)
  nextId : Nat
  owners : entries.Pairwise fun e e' => e.owner ≠ e'.owner
  keys : entries.Pairwise fun e e' => key e.item ≠ key e'.item
  ids : entries.Pairwise fun e e' => e.id < e'.id
  fresh : ∀ e ∈ entries, e.id < nextId

namespace Catalogue

variable {ι α κ : Type*} {key : α → κ}

def empty (nextId : Nat) : Catalogue ι key where
  entries := []
  nextId := nextId
  owners := .nil
  keys := .nil
  ids := .nil
  fresh := by simp

theorem pairwise_concat {R : Entry ι α → Entry ι α → Prop} {es : List (Entry ι α)} (h : es.Pairwise R) {e' : Entry ι α}
    (hn : ∀ e ∈ es, R e e') : (es ++ [e']).Pairwise R := by
  rw [List.pairwise_append]
  refine ⟨h, List.pairwise_singleton .., fun e he e'' he'' => ?_⟩
  rw [List.mem_singleton.mp he'']
  exact hn e he

/-- Neither the owner nor the key was there before. -/
def New (c : Catalogue ι key) (p : ι × α) : Prop := ∀ e ∈ c.entries, e.owner ≠ p.1 ∧ key e.item ≠ key p.2

instance [DecidableEq ι] [DecidableEq κ] (c : Catalogue ι key) (p : ι × α) : Decidable (c.New p) :=
  inferInstanceAs (Decidable (∀ e ∈ c.entries, _))

def publish (c : Catalogue ι key) (p : ι × α) (h : c.New p) : Catalogue ι key where
  entries := c.entries ++ [⟨p.1, p.2, c.nextId⟩]
  nextId := c.nextId + 1
  owners := pairwise_concat c.owners fun e he => (h e he).1
  keys := pairwise_concat c.keys fun e he => (h e he).2
  ids := pairwise_concat c.ids c.fresh
  fresh e he := by
    rcases List.mem_append.mp he with he | he
    · exact Nat.lt_succ_of_lt (c.fresh e he)
    · rw [List.mem_singleton.mp he]
      exact Nat.lt_succ_self _

/-- An event is one publication. -/
def machine [DecidableEq ι] [DecidableEq κ] (key : α → κ) : Machine (Catalogue ι key) (ι × α) where
  step c p := if h : c.New p then some (c.publish p h) else none

variable [DecidableEq ι] [DecidableEq κ] {c c' : Catalogue ι key}

theorem step_eq {p : ι × α} (h : c.New p) : (machine key).step c p = some (c.publish p h) := dif_pos h

end Catalogue
