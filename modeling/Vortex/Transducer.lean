import Mathlib.Algebra.GroupWithZero.Nat
import Mathlib.Data.List.Basic

/-!
# Deterministic transducers

A transducer reads its input one symbol at a time, may refuse it, and emits
tokens on the way; what it still holds at the end of the input is emitted by
`finish`. `feed` reads a part of an input, `read` a whole one. Every lexer of
this development is a `Transducer`, and its proofs go through the rules below:
how reading splits at `++`, which texts a state absorbs, and the two
inductions (`feed_invariant`, `feed_potential`) over an input.
-/

structure Transducer (σ α ω : Type*) where
  step : σ → α → Option (σ × List ω)
  finish : σ → Option (List ω)

namespace Transducer

variable {σ α ω : Type*} (M : Transducer σ α ω)

/-- The state after a text and the tokens emitted on the way. -/
def feed : σ → List α → Option (σ × List ω)
  | s, [] => some (s, [])
  | s, a :: x =>
    match M.step s a with
    | none => none
    | some (s', out) =>
      match feed s' x with
      | none => none
      | some (s'', out') => some (s'', out ++ out')

def read (s : σ) (x : List α) : Option (List ω) :=
  match M.feed s x with
  | none => none
  | some (s', out) =>
    match M.finish s' with
    | none => none
    | some out' => some (out ++ out')

@[simp] theorem feed_nil (s : σ) : M.feed s [] = some (s, []) := rfl

theorem feed_cons {s t : σ} {a : α} {o : List ω} (h : M.step s a = some (t, o)) (x : List α) :
    M.feed s (a :: x) = (M.feed t x).map fun p => (p.1, o ++ p.2) := by
  simp only [feed, h]
  cases M.feed t x <;> rfl

theorem feed_cons_none {s : σ} {a : α} (h : M.step s a = none) (x : List α) :
    M.feed s (a :: x) = none := by
  simp [feed, h]

theorem feed_cons_some {s s'' : σ} {a : α} {x : List α} {out : List ω}
    (h : M.feed s (a :: x) = some (s'', out)) :
    ∃ s' o₁ o₂, M.step s a = some (s', o₁) ∧ M.feed s' x = some (s'', o₂) ∧ out = o₁ ++ o₂ := by
  cases hs : M.step s a with
  | none => simp [feed, hs] at h
  | some p =>
    obtain ⟨s', o₁⟩ := p
    rw [M.feed_cons hs, Option.map_eq_some_iff] at h
    obtain ⟨⟨t, o₂⟩, ht, he⟩ := h
    obtain ⟨rfl, rfl⟩ := Prod.mk.inj he
    exact ⟨s', o₁, o₂, rfl, ht, rfl⟩

theorem feed_append {s s' : σ} {x : List α} {out : List ω} (h : M.feed s x = some (s', out)) (y : List α) :
    M.feed s (x ++ y) = (M.feed s' y).map fun p => (p.1, out ++ p.2) := by
  induction x generalizing s out with
  | nil =>
    obtain ⟨rfl, rfl⟩ := Prod.mk.inj (Option.some.inj h)
    simp
  | cons a x ih =>
    obtain ⟨t, o₁, o₂, hs, hx, rfl⟩ := M.feed_cons_some h
    rw [List.cons_append, M.feed_cons hs, ih hx, Option.map_map]
    simp [Function.comp_def]

theorem feed_append_none {s : σ} {x : List α} (h : M.feed s x = none) (y : List α) :
    M.feed s (x ++ y) = none := by
  induction x generalizing s with
  | nil => simp at h
  | cons a x ih =>
    cases hs : M.step s a with
    | none => exact M.feed_cons_none hs _
    | some p =>
      rw [M.feed_cons hs, Option.map_eq_none_iff] at h
      rw [List.cons_append, M.feed_cons hs, ih h]
      rfl

theorem feed_append_some {s s'' : σ} {x y : List α} {out : List ω}
    (h : M.feed s (x ++ y) = some (s'', out)) :
    ∃ s' o₁ o₂, M.feed s x = some (s', o₁) ∧ M.feed s' y = some (s'', o₂) ∧ out = o₁ ++ o₂ := by
  cases hx : M.feed s x with
  | none => rw [M.feed_append_none hx] at h; cases h
  | some p =>
    obtain ⟨s', o₁⟩ := p
    rw [M.feed_append hx, Option.map_eq_some_iff] at h
    obtain ⟨⟨t, o₂⟩, ht, he⟩ := h
    obtain ⟨rfl, rfl⟩ := Prod.mk.inj he
    exact ⟨s', o₁, o₂, rfl, ht, rfl⟩

theorem read_nil (s : σ) : M.read s [] = M.finish s := by
  simp only [read, feed_nil]
  cases M.finish s <;> rfl

theorem read_append {s s' : σ} {x : List α} {out : List ω} (h : M.feed s x = some (s', out)) (y : List α) :
    M.read s (x ++ y) = (M.read s' y).map (out ++ ·) := by
  simp only [read, M.feed_append h]
  cases M.feed s' y with
  | none => rfl
  | some p => simp only [Option.map_some]; cases M.finish p.1 <;> simp

theorem read_append_none {s : σ} {x : List α} (h : M.feed s x = none) (y : List α) :
    M.read s (x ++ y) = none := by
  simp only [read, M.feed_append_none h]

theorem read_cons {s t : σ} {a : α} {o : List ω} (h : M.step s a = some (t, o)) (x : List α) :
    M.read s (a :: x) = (M.read t x).map (o ++ ·) :=
  M.read_append (x := [a]) (by simp [feed, h]) x

theorem feed_cons_silent {s t : σ} {a : α} (h : M.step s a = some (t, [])) (x : List α) :
    M.feed s (a :: x) = M.feed t x := by
  rw [M.feed_cons h]; simp

theorem read_cons_silent {s t : σ} {a : α} (h : M.step s a = some (t, [])) (x : List α) :
    M.read s (a :: x) = M.read t x := by
  rw [M.read_cons h]; simp

theorem read_cons_none {s : σ} {a : α} (h : M.step s a = none) (x : List α) : M.read s (a :: x) = none := by
  simp only [read, M.feed_cons_none h]

theorem read_append_some {s : σ} {x y : List α} {ts : List ω} (h : M.read s (x ++ y) = some ts) :
    ∃ s' o₁ o₂, M.feed s x = some (s', o₁) ∧ M.read s' y = some o₂ ∧ ts = o₁ ++ o₂ := by
  cases hx : M.feed s x with
  | none => rw [M.read_append_none hx] at h; cases h
  | some p =>
    obtain ⟨s', o₁⟩ := p
    rw [M.read_append hx, Option.map_eq_some_iff] at h
    obtain ⟨o₂, ho, rfl⟩ := h
    exact ⟨s', o₁, o₂, rfl, ho, rfl⟩

theorem read_cons_some {s : σ} {a : α} {x : List α} {ts : List ω} (h : M.read s (a :: x) = some ts) :
    ∃ s' o₁ o₂, M.step s a = some (s', o₁) ∧ M.read s' x = some o₂ ∧ ts = o₁ ++ o₂ := by
  cases hs : M.step s a with
  | none => rw [M.read_cons_none hs] at h; cases h
  | some p =>
    obtain ⟨s', o₁⟩ := p
    rw [M.read_cons hs, Option.map_eq_some_iff] at h
    obtain ⟨o₂, ho, rfl⟩ := h
    exact ⟨s', o₁, o₂, rfl, ho, rfl⟩

/-! ## Texts that a state absorbs -/

/-- A family of states that collects its input: reading `x` from `f acc` leads
to `f (acc ++ x)` and emits nothing. -/
theorem feed_collect (f : List α → σ) {x : List α}
    (h : ∀ a ∈ x, ∀ acc, M.step (f acc) a = some (f (acc ++ [a]), [])) (acc : List α) :
    M.feed (f acc) x = some (f (acc ++ x), []) := by
  induction x generalizing acc with
  | nil => simp
  | cons a x ih =>
    rw [M.feed_cons_silent (h a (List.mem_cons_self ..) acc), ih fun b hb => h b (List.mem_cons_of_mem _ hb)]
    simp

theorem feed_stay {s : σ} {x : List α} (h : ∀ a ∈ x, M.step s a = some (s, [])) :
    M.feed s x = some (s, []) :=
  M.feed_collect (fun _ => s) (fun a ha _ => h a ha) []

/-! ## Inductions over an input -/

theorem feed_invariant {I : σ → Prop} {P : ω → Prop} {x : List α}
    (h : ∀ a ∈ x, ∀ s s' out, I s → M.step s a = some (s', out) → I s' ∧ ∀ t ∈ out, P t)
    {s s' : σ} {out : List ω} (hs : I s) (hx : M.feed s x = some (s', out)) : I s' ∧ ∀ t ∈ out, P t := by
  induction x generalizing s out with
  | nil =>
    obtain ⟨rfl, rfl⟩ := Prod.mk.inj (Option.some.inj hx)
    exact ⟨hs, by simp⟩
  | cons a x ih =>
    obtain ⟨t, o₁, o₂, hst, hf, rfl⟩ := M.feed_cons_some hx
    obtain ⟨ht, h₁⟩ := h a (List.mem_cons_self ..) s t o₁ hs hst
    obtain ⟨hs', h₂⟩ := ih (fun b hb => h b (List.mem_cons_of_mem _ hb)) ht hf
    refine ⟨hs', fun u hu => ?_⟩
    rcases List.mem_append.mp hu with hu | hu
    · exact h₁ u hu
    · exact h₂ u hu

/-- If each step pays for the weight it emits out of the potential `φ` and the
cost of its symbol, so does a whole text. -/
theorem feed_potential (φ : σ → Nat) (cost : α → Nat) (weight : ω → Nat)
    (h : ∀ s a s' out, M.step s a = some (s', out) → (out.map weight).sum + φ s' ≤ φ s + cost a)
    {s s' : σ} {x : List α} {out : List ω} (hx : M.feed s x = some (s', out)) :
    (out.map weight).sum + φ s' ≤ φ s + (x.map cost).sum := by
  induction x generalizing s out with
  | nil =>
    obtain ⟨rfl, rfl⟩ := Prod.mk.inj (Option.some.inj hx)
    simp
  | cons a x ih =>
    obtain ⟨t, o₁, o₂, hst, hf, rfl⟩ := M.feed_cons_some hx
    have h₁ := h s a t o₁ hst
    have h₂ := ih hf
    simp only [List.map_append, List.sum_append, List.map_cons, List.sum_cons]
    omega

end Transducer
