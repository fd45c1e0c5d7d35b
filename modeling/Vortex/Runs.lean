import Mathlib.Data.List.Induction

/-!
# Machines and their runs

A machine takes events; an event may be impossible in a state. A run is a list
of events, all of them possible in turn. An invariant of the steps is one of
the runs, also when the steps only keep it under a condition on the state
before them and the event: then it holds in the runs whose every step meets
that condition.
-/

structure Machine (σ ε : Type*) where
  step : σ → ε → Option σ

namespace Machine

variable {σ ε : Type*} (M : Machine σ ε)

def run : σ → List ε → Option σ
  | s, [] => some s
  | s, e :: es => (M.step s e).bind fun s' => run s' es

def Guarded (G : σ → ε → Prop) : σ → List ε → Prop
  | _, [] => True
  | s, e :: es => G s e ∧ ∀ s' ∈ M.step s e, Guarded G s' es

instance decidableGuarded {G : σ → ε → Prop} [∀ s e, Decidable (G s e)] :
    ∀ (s : σ) (es : List ε), Decidable (M.Guarded G s es)
  | _, [] => inferInstanceAs (Decidable True)
  | s, e :: es =>
    have : ∀ s', Decidable (M.Guarded G s' es) := fun s' => decidableGuarded s' es
    inferInstanceAs (Decidable (G s e ∧ ∀ s' ∈ M.step s e, M.Guarded G s' es))

variable {M}

theorem run_cons {s s'' : σ} {e : ε} {es : List ε} (h : M.run s (e :: es) = some s'') :
    ∃ s', M.step s e = some s' ∧ M.run s' es = some s'' :=
  Option.bind_eq_some_iff.mp h

theorem run_append {s s'' : σ} {es es' : List ε} (h : M.run s (es ++ es') = some s'') :
    ∃ s', M.run s es = some s' ∧ M.run s' es' = some s'' := by
  induction es generalizing s with
  | nil => exact ⟨s, rfl, h⟩
  | cons e es ih =>
    obtain ⟨t, ht, hr⟩ := run_cons h
    obtain ⟨s', h₁, h₂⟩ := ih hr
    refine ⟨s', ?_, h₂⟩
    rw [run, ht]
    exact h₁

/-- The run rule under a condition on the steps. -/
theorem guarded_invariant {G : σ → ε → Prop} {I : σ → Prop}
    (hstep : ∀ s e s', I s → G s e → M.step s e = some s' → I s') {s s' : σ} {es : List ε} (h₀ : I s)
    (hg : M.Guarded G s es) (h : M.run s es = some s') : I s' := by
  induction es generalizing s with
  | nil =>
    cases h
    exact h₀
  | cons e es ih =>
    obtain ⟨t, ht, hr⟩ := run_cons h
    exact ih (hstep s e t h₀ hg.1 ht) (hg.2 t ht) hr

theorem guarded_of_events {G : σ → ε → Prop} {es : List ε} (h : ∀ e ∈ es, ∀ s, G s e) (s : σ) : M.Guarded G s es := by
  induction es generalizing s with
  | nil => trivial
  | cons e es ih => exact ⟨h e (List.mem_cons_self ..) s, fun s' _ => ih (fun e' he => h e' (List.mem_cons_of_mem _ he)) s'⟩

theorem guarded_and {G H : σ → ε → Prop} {s : σ} {es : List ε} (hg : M.Guarded G s es) (hh : M.Guarded H s es) :
    M.Guarded (fun s e => G s e ∧ H s e) s es := by
  induction es generalizing s with
  | nil => trivial
  | cons e es ih => exact ⟨⟨hg.1, hh.1⟩, fun s' hs' => ih (hg.2 s' hs') (hh.2 s' hs')⟩

/-- In a run every step is possible, so a guard may be replaced by what it
makes true of possible steps. -/
theorem guarded_of_run {G H : σ → ε → Prop} (himp : ∀ s e s', G s e → M.step s e = some s' → H s e) {s s' : σ}
    {es : List ε} (hg : M.Guarded G s es) (h : M.run s es = some s') : M.Guarded H s es := by
  induction es generalizing s with
  | nil => trivial
  | cons e es ih =>
    obtain ⟨t, ht, hr⟩ := run_cons h
    refine ⟨himp s e t hg.1 ht, fun t' ht' => ?_⟩
    obtain rfl := Option.some.inj (ht.symm.trans ht')
    exact ih (hg.2 t ht) hr

theorem guarded_left {G : σ → ε → Prop} {s : σ} {es es' : List ε} (hg : M.Guarded G s (es ++ es')) : M.Guarded G s es := by
  induction es generalizing s with
  | nil => trivial
  | cons e es ih => exact ⟨hg.1, fun s' hs' => ih (hg.2 s' hs')⟩

theorem guarded_right {G : σ → ε → Prop} {s t : σ} {es es' : List ε} (hg : M.Guarded G s (es ++ es'))
    (h : M.run s es = some t) : M.Guarded G t es' := by
  induction es generalizing s with
  | nil =>
    cases h
    exact hg
  | cons e es ih =>
    obtain ⟨s₁, h₁, hr⟩ := run_cons h
    exact ih (hg.2 s₁ h₁) hr

theorem guarded_trivial (s : σ) (es : List ε) : M.Guarded (fun _ _ => True) s es := by
  induction es generalizing s with
  | nil => trivial
  | cons e es ih => exact ⟨trivial, fun s' _ => ih s'⟩

theorem run_invariant {I : σ → Prop} (hstep : ∀ s e s', I s → M.step s e = some s' → I s') {s s' : σ}
    {es : List ε} (h₀ : I s) (h : M.run s es = some s') : I s' :=
  guarded_invariant (fun s e s' hs _ => hstep s e s' hs) h₀ (guarded_trivial s es) h

/-- What a machine records beside its state takes no part in its runs. -/
theorem run_map {τ : Type*} {N : Machine τ ε} (f : σ → τ) (hstep : ∀ s e, (M.step s e).map f = N.step (f s) e)
    (s : σ) (es : List ε) : (M.run s es).map f = N.run (f s) es := by
  induction es generalizing s with
  | nil => rfl
  | cons e es ih =>
    rw [run, run, ← hstep, Option.map_bind, Option.bind_map]
    exact Option.bind_congr fun s' _ => ih s'

/-- The run rule for invariants that also speak of the events so far. -/
theorem run_history {s₀ : σ} {I : List ε → σ → Prop} (h₀ : I [] s₀)
    (hstep : ∀ es s e s', M.run s₀ es = some s → I es s → M.step s e = some s' → I (es ++ [e]) s') {s : σ}
    {es : List ε} (h : M.run s₀ es = some s) : I es s := by
  induction es using List.reverseRecOn generalizing s with
  | nil =>
    cases h
    exact h₀
  | append_singleton es e ih =>
    obtain ⟨t, ht, hr⟩ := run_append h
    obtain ⟨s', hs, hs'⟩ := run_cons hr
    cases hs'
    exact hstep es t e s ht (ih ht) hs

end Machine
