import Vortex.Runs

/-!
# Simulation

An abstract machine says what a machine is for. Each step of the concrete
machine, where it meets a guard, stands for a list of abstract events, often
an empty one, and the abstract machine can take them between related states.
Then every guarded run stands for an abstract run, and what holds of all
abstract runs holds of the concrete ones.
-/

namespace Machine

variable {σ ε τ α : Type*} {M : Machine σ ε} {A : Machine τ α}

theorem run_concat {s s' s'' : σ} {es es' : List ε} (h : M.run s es = some s') (h' : M.run s' es' = some s'') :
    M.run s (es ++ es') = some s'' := by
  induction es generalizing s with
  | nil =>
    cases h
    exact h'
  | cons e es ih =>
    obtain ⟨t, ht, hr⟩ := run_cons h
    rw [List.cons_append, run, ht]
    exact ih hr

/-- A guard that an invariant of the run implies, for events that meet a
condition on what is still to come. -/
theorem guarded_of_ahead {G : σ → ε → Prop} {I : σ → List ε → Prop}
    (hguard : ∀ s e es s', I s (e :: es) → M.step s e = some s' → G s e)
    (hstep : ∀ s e es s', I s (e :: es) → M.step s e = some s' → I s' es) {s s' : σ} {es : List ε} (hi : I s es)
    (h : M.run s es = some s') : M.Guarded G s es := by
  induction es generalizing s with
  | nil => trivial
  | cons e es ih =>
    obtain ⟨t, ht, hr⟩ := run_cons h
    refine ⟨hguard s e es t hi ht, fun t' ht' => ?_⟩
    obtain rfl := Option.some.inj (ht.symm.trans ht')
    exact ih (hstep s e es t hi ht) hr

/-- The abstract events that a run stands for. -/
def trace (M : Machine σ ε) (label : σ → ε → List α) : σ → List ε → List α
  | _, [] => []
  | s, e :: es => label s e ++ (M.step s e).elim [] fun s' => trace M label s' es

structure Simulation (M : Machine σ ε) (A : Machine τ α) where
  guard : σ → ε → Prop
  label : σ → ε → List α
  rel : σ → τ → Prop
  step : ∀ {s s' : σ} {a : τ} {e : ε}, rel s a → guard s e → M.step s e = some s' →
    ∃ a', A.run a (label s e) = some a' ∧ rel s' a'

theorem Simulation.run (S : Simulation M A) {s s' : σ} {a : τ} {es : List ε} (h₀ : S.rel s a)
    (hg : M.Guarded S.guard s es) (h : M.run s es = some s') :
    ∃ a', A.run a (M.trace S.label s es) = some a' ∧ S.rel s' a' := by
  induction es generalizing s a with
  | nil =>
    cases h
    exact ⟨a, rfl, h₀⟩
  | cons e es ih =>
    obtain ⟨t, ht, hr⟩ := run_cons h
    obtain ⟨b, hb, hrel⟩ := S.step h₀ hg.1 ht
    obtain ⟨a', ha, hrel'⟩ := ih hrel (hg.2 t ht) hr
    refine ⟨a', ?_, hrel'⟩
    rw [trace, ht]
    exact run_concat hb ha

end Machine
