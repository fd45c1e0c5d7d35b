import Mathlib.Data.List.Basic

/-!
# Backtracking matchers

A regex is run from a cursor and yields all its results in the order in which
a backtracking matcher tries them; the match is the first one. Which words a
regex can take is its language, which results come first is told by the lemmas
on lazy and greedy runs.
-/

namespace Backtrack

inductive Regex (α : Type*)
  | empty
  | sat (p : α → Bool)
  | seq (r s : Regex α)
  | alt (r s : Regex α)
  -- greedy and lazy runs of one kind of symbol
  | many (p : α → Bool)
  | few (p : α → Bool)
  | group (n : Nat) (r : Regex α)

structure Cursor (α : Type*) where
  pos : Nat
  rest : List α
  -- number, start and length of each group, the last one first
  groups : List (Nat × Nat × Nat)

variable {α : Type*}

def Cursor.group (a : Cursor α) (n : Nat) : Option (Nat × Nat) := a.groups.lookup n

def longestFirst (p : α → Bool) (g : List (Nat × Nat × Nat)) : Nat → List α → List (Cursor α)
  | i, [] => [⟨i, [], g⟩]
  | i, c :: x => if p c then longestFirst p g (i + 1) x ++ [⟨i, c :: x, g⟩] else [⟨i, c :: x, g⟩]

def shortestFirst (p : α → Bool) (g : List (Nat × Nat × Nat)) : Nat → List α → List (Cursor α)
  | i, [] => [⟨i, [], g⟩]
  | i, c :: x => ⟨i, c :: x, g⟩ :: if p c then shortestFirst p g (i + 1) x else []

namespace Regex

def opt (r : Regex α) : Regex α := .alt r .empty

def many1 (p : α → Bool) : Regex α := .seq (.sat p) (.many p)

def run : Regex α → Cursor α → List (Cursor α)
  | .empty, a => [a]
  | .sat p, a =>
    match a.rest with
    | c :: x => if p c then [⟨a.pos + 1, x, a.groups⟩] else []
    | [] => []
  | .seq r s, a => (run r a).flatMap (run s)
  | .alt r s, a => run r a ++ run s a
  | .many p, a => longestFirst p a.groups a.pos a.rest
  | .few p, a => shortestFirst p a.groups a.pos a.rest
  | .group n r, a => (run r a).map fun b => { b with groups := (n, a.pos, b.pos - a.pos) :: b.groups }

attribute [grind =] run

def first (r : Regex α) (a : Cursor α) : Option (Cursor α) := (r.run a).head?

/-- The leftmost match, its groups in the cursor at its end. -/
def search (r : Regex α) (x : List α) : Option (Cursor α) :=
  (List.range (x.length + 1)).findSome? fun i => r.first ⟨i, x.drop i, []⟩

/-! ## Languages -/

def Lang : Regex α → List α → Prop
  | .empty, w => w = []
  | .sat p, w => ∃ c, w = [c] ∧ p c = true
  | .seq r s, w => ∃ u v, w = u ++ v ∧ Lang r u ∧ Lang s v
  | .alt r s, w => Lang r w ∨ Lang s w
  | .many p, w | .few p, w => ∀ c ∈ w, p c = true
  | .group _ r, w => Lang r w

end Regex

open Regex

theorem lang_sat_sat {p q : α → Bool} {w : List α} :
    (Regex.seq (.sat p) (.sat q)).Lang w ↔ ∃ a b, w = [a, b] ∧ p a = true ∧ q b = true := by
  constructor
  · rintro ⟨_, _, rfl, ⟨a, rfl, ha⟩, b, rfl, hb⟩
    exact ⟨a, b, rfl, ha, hb⟩
  · rintro ⟨a, b, rfl, ha, hb⟩
    exact ⟨[a], [b], rfl, ⟨a, rfl, ha⟩, b, rfl, hb⟩

theorem lang_sat_seq {p : α → Bool} {r : Regex α} {w : List α} :
    (Regex.seq (.sat p) r).Lang w ↔ ∃ a u, w = a :: u ∧ p a = true ∧ r.Lang u := by
  constructor
  · rintro ⟨_, u, rfl, ⟨a, rfl, ha⟩, hu⟩
    exact ⟨a, u, rfl, ha, hu⟩
  · rintro ⟨a, u, rfl, ha, hu⟩
    exact ⟨[a], u, rfl, ⟨a, rfl, ha⟩, hu⟩

theorem lang_many1 {p : α → Bool} {w : List α} : (Regex.many1 p).Lang w ↔ w ≠ [] ∧ ∀ c ∈ w, p c = true := by
  rw [Regex.many1, lang_sat_seq]
  constructor
  · rintro ⟨a, u, rfl, ha, hu⟩
    exact ⟨by simp, List.forall_mem_cons.mpr ⟨ha, hu⟩⟩
  · rintro ⟨hne, hw⟩
    obtain ⟨a, u, rfl⟩ := List.exists_cons_of_ne_nil hne
    obtain ⟨ha, hu⟩ := List.forall_mem_cons.mp hw
    exact ⟨a, u, rfl, ha, hu⟩

/-! ## The results of a run -/

/-- `b` is where a run of symbols of one kind may end. -/
def Splits (p : α → Bool) (g : List (Nat × Nat × Nat)) (i : Nat) (x : List α) (b : Cursor α) : Prop :=
  ∃ w y, x = w ++ y ∧ (∀ c ∈ w, p c = true) ∧ b = ⟨i + w.length, y, g⟩

section
variable {p : α → Bool} {g : List (Nat × Nat × Nat)} {i : Nat} {x : List α} {b : Cursor α}

theorem splits_nil : Splits p g i [] b ↔ b = ⟨i, [], g⟩ := by
  constructor
  · rintro ⟨w, y, h, -, rfl⟩
    obtain ⟨rfl, rfl⟩ := List.append_eq_nil_iff.mp h.symm
    rfl
  · rintro rfl
    exact ⟨[], [], rfl, by simp, rfl⟩

theorem splits_cons {c : α} :
    Splits p g i (c :: x) b ↔ b = ⟨i, c :: x, g⟩ ∨ (p c = true ∧ Splits p g (i + 1) x b) := by
  constructor
  · rintro ⟨w, y, h, hw, rfl⟩
    cases w with
    | nil => exact .inl (by rw [h]; rfl)
    | cons d w =>
      obtain ⟨rfl, rfl⟩ := List.cons.inj h
      refine .inr ⟨hw c (List.mem_cons_self ..), w, y, rfl, fun e he => hw e (List.mem_cons_of_mem _ he), ?_⟩
      rw [List.length_cons, Nat.add_assoc, Nat.add_comm 1]
  · rintro (rfl | ⟨hc, w, y, rfl, hw, rfl⟩)
    · exact ⟨[], c :: x, rfl, by simp, rfl⟩
    · refine ⟨c :: w, y, rfl, List.forall_mem_cons.mpr ⟨hc, hw⟩, ?_⟩
      rw [List.length_cons, Nat.add_assoc, Nat.add_comm 1]

theorem mem_longestFirst : b ∈ longestFirst p g i x ↔ Splits p g i x b := by
  induction x generalizing i with
  | nil => rw [longestFirst, List.mem_singleton, splits_nil]
  | cons c x ih =>
    rw [longestFirst, splits_cons]
    by_cases hc : p c = true
    · simp [hc, ih, or_comm]
    · simp [hc]

theorem mem_shortestFirst : b ∈ shortestFirst p g i x ↔ Splits p g i x b := by
  induction x generalizing i with
  | nil => rw [shortestFirst, List.mem_singleton, splits_nil]
  | cons c x ih =>
    rw [shortestFirst, splits_cons]
    by_cases hc : p c = true
    · simp [hc, ih]
    · simp [hc]

end

/-- A cursor after another one, `w` being the text between them. -/
def Cursor.Reads (a : Cursor α) (w : List α) (b : Cursor α) : Prop := a.rest = w ++ b.rest ∧ b.pos = a.pos + w.length

theorem Cursor.Reads.trans {a b c : Cursor α} {v w : List α} (h : a.Reads v b) (h' : b.Reads w c) :
    a.Reads (v ++ w) c :=
  ⟨by rw [h.1, h'.1, List.append_assoc], by rw [h'.2, h.2, List.length_append, Nat.add_assoc]⟩

/-- Every result has read a word of the language. -/
theorem run_sound {r : Regex α} {a b : Cursor α} (h : b ∈ r.run a) : ∃ w, a.Reads w b ∧ r.Lang w := by
  induction r generalizing a b with
  | empty =>
    rw [List.mem_singleton.mp h]
    exact ⟨[], ⟨rfl, rfl⟩, rfl⟩
  | sat p =>
    unfold run at h
    split at h
    · rename_i c x hx
      split at h
      · rename_i hc
        rw [List.mem_singleton.mp h]
        exact ⟨[c], ⟨hx, rfl⟩, c, rfl, hc⟩
      · cases h
    · cases h
  | seq r s ihr ihs =>
    obtain ⟨m, hm, hb⟩ := List.mem_flatMap.mp h
    obtain ⟨u, hu, hr⟩ := ihr hm
    obtain ⟨v, hv, hs⟩ := ihs hb
    exact ⟨u ++ v, hu.trans hv, u, v, rfl, hr, hs⟩
  | alt r s ihr ihs =>
    rcases List.mem_append.mp h with h | h
    · obtain ⟨w, hw, hr⟩ := ihr h
      exact ⟨w, hw, .inl hr⟩
    · obtain ⟨w, hw, hs⟩ := ihs h
      exact ⟨w, hw, .inr hs⟩
  | many p =>
    obtain ⟨w, y, hx, hw, rfl⟩ := mem_longestFirst.mp h
    exact ⟨w, ⟨hx, rfl⟩, hw⟩
  | few p =>
    obtain ⟨w, y, hx, hw, rfl⟩ := mem_shortestFirst.mp h
    exact ⟨w, ⟨hx, rfl⟩, hw⟩
  | group n r ih =>
    obtain ⟨m, hm, rfl⟩ := List.mem_map.mp h
    obtain ⟨w, hw, hr⟩ := ih hm
    exact ⟨w, hw, hr⟩

/-- Every word of the language that comes next is read by some result. -/
theorem run_complete {r : Regex α} {a : Cursor α} {w y : List α} (h : r.Lang w) (ha : a.rest = w ++ y) :
    ∃ b ∈ r.run a, b.rest = y ∧ b.pos = a.pos + w.length := by
  induction r generalizing a w y with
  | empty =>
    cases (h : w = [])
    exact ⟨a, List.mem_singleton_self a, ha, rfl⟩
  | sat p =>
    obtain ⟨c, rfl, hc⟩ := h
    refine ⟨⟨a.pos + 1, y, a.groups⟩, ?_, rfl, rfl⟩
    simp [run, ha, hc]
  | seq r s ihr ihs =>
    obtain ⟨u, v, rfl, hr, hs⟩ := h
    obtain ⟨m, hm, hmr, hmp⟩ := ihr hr (y := v ++ y) (by rw [ha, List.append_assoc])
    obtain ⟨b, hb, hbr, hbp⟩ := ihs hs hmr
    exact ⟨b, List.mem_flatMap.mpr ⟨m, hm, hb⟩, hbr, by rw [hbp, hmp, List.length_append, Nat.add_assoc]⟩
  | alt r s ihr ihs =>
    rcases h with h | h
    · obtain ⟨b, hb, hp⟩ := ihr h ha
      exact ⟨b, List.mem_append_left _ hb, hp⟩
    · obtain ⟨b, hb, hp⟩ := ihs h ha
      exact ⟨b, List.mem_append_right _ hb, hp⟩
  | many p => exact ⟨_, mem_longestFirst.mpr ⟨w, y, ha, h, rfl⟩, rfl, rfl⟩
  | few p => exact ⟨_, mem_shortestFirst.mpr ⟨w, y, ha, h, rfl⟩, rfl, rfl⟩
  | group n r ih =>
    obtain ⟨b, hb, hp⟩ := ih h ha
    exact ⟨_, List.mem_map.mpr ⟨b, hb, rfl⟩, hp⟩

theorem run_ne_nil_iff {r : Regex α} {a : Cursor α} : r.run a ≠ [] ↔ ∃ w y, a.rest = w ++ y ∧ r.Lang w := by
  constructor
  · intro h
    obtain ⟨b, hb⟩ := List.exists_mem_of_ne_nil _ h
    obtain ⟨w, hw, hr⟩ := run_sound hb
    exact ⟨w, b.rest, hw.1, hr⟩
  · rintro ⟨w, y, ha, hw⟩
    obtain ⟨b, hb, -⟩ := run_complete hw ha
    exact List.ne_nil_of_mem hb

/-- Without groups in it. -/
def Regex.plain : Regex α → Bool
  | .seq r s | .alt r s => plain r && plain s
  | .group .. => false
  | _ => true

theorem groups_of_plain {r : Regex α} (hr : r.plain = true) {a b : Cursor α} (h : b ∈ r.run a) :
    b.groups = a.groups := by
  induction r generalizing a b with
  | empty => rw [List.mem_singleton.mp h]
  | sat p =>
    unfold run at h
    split at h
    · split at h
      · rw [List.mem_singleton.mp h]
      · cases h
    · cases h
  | seq r s ihr ihs =>
    obtain ⟨h₁, h₂⟩ := Bool.and_eq_true_iff.mp hr
    obtain ⟨m, hm, hb⟩ := List.mem_flatMap.mp h
    rw [ihs h₂ hb, ihr h₁ hm]
  | alt r s ihr ihs =>
    obtain ⟨h₁, h₂⟩ := Bool.and_eq_true_iff.mp hr
    rcases List.mem_append.mp h with h | h
    · exact ihr h₁ h
    · exact ihs h₂ h
  | many p =>
    obtain ⟨w, y, -, -, rfl⟩ := mem_longestFirst.mp h
    rfl
  | few p =>
    obtain ⟨w, y, -, -, rfl⟩ := mem_shortestFirst.mp h
    rfl
  | group => cases hr

/-! ## Which result comes first -/

theorem first_mem {r : Regex α} {a b : Cursor α} (h : r.first a = some b) : b ∈ r.run a := List.mem_of_head? h

theorem first_eq_none_iff {r : Regex α} {a : Cursor α} : r.first a = none ↔ r.run a = [] := List.head?_eq_none_iff

theorem first_seq (r s : Regex α) (a : Cursor α) : (Regex.seq r s).first a = (r.run a).findSome? s.first :=
  List.head?_flatMap

theorem first_seq_of {r s : Regex α} {a m b : Cursor α} (hr : r.first a = some m) (hs : s.first m = some b) :
    (Regex.seq r s).first a = some b := by
  obtain ⟨l, hl⟩ : ∃ l, r.run a = m :: l := List.head?_eq_some_iff.mp hr
  rw [first_seq, hl, List.findSome?_cons, hs]

theorem first_alt_left {r s : Regex α} {a b : Cursor α} (h : r.first a = some b) : (Regex.alt r s).first a = some b := by
  rw [first, run, List.head?_append, ← first, h]
  rfl

theorem first_alt_right {r s : Regex α} {a : Cursor α} (h : r.run a = []) : (Regex.alt r s).first a = s.first a := by
  rw [first, run, h]
  rfl

theorem first_group {r : Regex α} {a b : Cursor α} (h : r.first a = some b) (n : Nat) :
    (Regex.group n r).first a = some { b with groups := (n, a.pos, b.pos - a.pos) :: b.groups } := by
  rw [first, run, List.head?_map, ← first, h]
  rfl

section
variable {p : α → Bool} {s : Regex α} {g : List (Nat × Nat × Nat)}

theorem first_sat {c : α} (hc : p c = true) (i : Nat) (x : List α) :
    (Regex.sat p).first ⟨i, c :: x, g⟩ = some ⟨i + 1, x, g⟩ := by
  rw [first, run]
  simp [hc]

/-- A greedy run stops at the first symbol of another kind. -/
theorem first_many {w y : List α} (i : Nat) (hw : ∀ c ∈ w, p c = true) (hy : ∀ c ∈ y.head?, p c = false) :
    (Regex.many p).first ⟨i, w ++ y, g⟩ = some ⟨i + w.length, y, g⟩ := by
  rw [first, run]
  induction w generalizing i with
  | nil =>
    cases y with
    | nil => rfl
    | cons c y => simp [longestFirst, hy c rfl]
  | cons c w ih =>
    obtain ⟨hc, hw⟩ := List.forall_mem_cons.mp hw
    have := ih (i + 1) hw
    rw [List.cons_append, longestFirst, if_pos hc, List.head?_append, this, List.length_cons, Nat.add_assoc, Nat.add_comm 1]
    rfl

theorem first_many1 {w y : List α} (i : Nat) (hne : w ≠ []) (hw : ∀ c ∈ w, p c = true) (hy : ∀ c ∈ y.head?, p c = false) :
    (Regex.many1 p).first ⟨i, w ++ y, g⟩ = some ⟨i + w.length, y, g⟩ := by
  obtain ⟨c, w, rfl⟩ := List.exists_cons_of_ne_nil hne
  obtain ⟨hc, hw⟩ := List.forall_mem_cons.mp hw
  have := first_many (g := g) (i + 1) hw hy
  rw [Nat.add_assoc, Nat.add_comm 1] at this
  exact first_seq_of (first_sat hc i _) this

theorem shortestFirst_head (i : Nat) (x : List α) : ∃ l, shortestFirst p g i x = ⟨i, x, g⟩ :: l := by
  cases x <;> exact ⟨_, rfl⟩

/-- A lazy run passes over the places where the rest does not match. -/
theorem first_few_seq {w y : List α} {i : Nat} (hw : ∀ c ∈ w, p c = true)
    (hfail : ∀ u v, w = u ++ v → v ≠ [] → s.run ⟨i + u.length, v ++ y, g⟩ = []) {b : Cursor α}
    (hb : s.first ⟨i + w.length, y, g⟩ = some b) : (Regex.seq (.few p) s).first ⟨i, w ++ y, g⟩ = some b := by
  rw [first_seq, run]
  induction w generalizing i with
  | nil =>
    obtain ⟨l, hl⟩ := shortestFirst_head (p := p) (g := g) i y
    rw [List.nil_append, hl, List.findSome?_cons, show s.first ⟨i, y, g⟩ = some b from hb]
  | cons c w ih =>
    obtain ⟨hc, hw⟩ := List.forall_mem_cons.mp hw
    have h₀ : s.first ⟨i, c :: (w ++ y), g⟩ = none := first_eq_none_iff.mpr (hfail [] (c :: w) rfl (by simp))
    rw [List.cons_append, shortestFirst, if_pos hc, List.findSome?_cons, h₀]
    refine ih hw (fun u v hv hne => ?_) ?_
    · have := hfail (c :: u) v (by rw [hv]; rfl) hne
      rwa [List.length_cons, ← Nat.add_assoc, Nat.add_right_comm] at this
    · rwa [List.length_cons, ← Nat.add_assoc, Nat.add_right_comm] at hb

/-- A lazy run goes no further than to a place where the rest matches. -/
theorem first_few_seq_le {w y : List α} {i : Nat} (hw : ∀ c ∈ w, p c = true)
    (hs : s.run ⟨i + w.length, y, g⟩ ≠ []) :
    ∃ u v b, w = u ++ v ∧ (Regex.seq (.few p) s).first ⟨i, w ++ y, g⟩ = some b ∧
      s.first ⟨i + u.length, v ++ y, g⟩ = some b := by
  rw [first_seq, run]
  induction w generalizing i with
  | nil =>
    obtain ⟨b, hb⟩ := Option.ne_none_iff_exists'.mp (mt first_eq_none_iff.mp hs)
    obtain ⟨l, hl⟩ := shortestFirst_head (p := p) (g := g) i y
    refine ⟨[], [], b, rfl, ?_, hb⟩
    rw [List.nil_append, hl, List.findSome?_cons, show s.first ⟨i, y, g⟩ = some b from hb]
  | cons c w ih =>
    obtain ⟨hc, hw⟩ := List.forall_mem_cons.mp hw
    rw [List.cons_append, shortestFirst, if_pos hc, List.findSome?_cons]
    cases hf : s.first ⟨i, c :: (w ++ y), g⟩ with
    | some b => exact ⟨[], c :: w, b, rfl, rfl, hf⟩
    | none =>
      rw [List.length_cons, ← Nat.add_assoc, Nat.add_right_comm] at hs
      obtain ⟨u, v, b, rfl, h₁, h₂⟩ := ih hw hs
      refine ⟨c :: u, v, b, rfl, h₁, ?_⟩
      rwa [List.length_cons, ← Nat.add_assoc, Nat.add_right_comm]

end

theorem mem_few_seq {p : α → Bool} {s : Regex α} {g : List (Nat × Nat × Nat)} {i : Nat} {x : List α} {b : Cursor α} :
    b ∈ (Regex.seq (.few p) s).run ⟨i, x, g⟩ ↔
      ∃ w y, x = w ++ y ∧ (∀ c ∈ w, p c = true) ∧ b ∈ s.run ⟨i + w.length, y, g⟩ := by
  constructor
  · intro h
    obtain ⟨m, hm, hb⟩ := List.mem_flatMap.mp h
    obtain ⟨w, y, hx, hw, rfl⟩ := mem_shortestFirst.mp hm
    exact ⟨w, y, hx, hw, hb⟩
  · rintro ⟨w, y, hx, hw, hb⟩
    exact List.mem_flatMap.mpr ⟨_, mem_shortestFirst.mpr ⟨w, y, hx, hw, rfl⟩, hb⟩

/-- A regex that begins with a lazy run over anything matches at the start of
the text or nowhere. -/
theorem search_few_seq (s : Regex α) (x : List α) :
    (Regex.seq (.few fun _ => true) s).search x = (Regex.seq (.few fun _ => true) s).first ⟨0, x, []⟩ := by
  rw [search, List.range_succ_eq_map, List.findSome?_cons, List.drop_zero]
  cases h : (Regex.seq (.few fun _ => true) s).first ⟨0, x, []⟩ with
  | some b => rfl
  | none =>
    rw [List.findSome?_eq_none_iff]
    intro i hi
    obtain ⟨j, hj, rfl⟩ := List.mem_map.mp hi
    rw [first_eq_none_iff, List.eq_nil_iff_forall_not_mem]
    intro b hb
    obtain ⟨w, y, hx, hw, hb⟩ := mem_few_seq.mp hb
    have hlen : (x.take (j + 1)).length = j + 1 := List.length_take_of_le (List.mem_range.mp hj)
    have : b ∈ (Regex.seq (.few fun _ => true) s).run ⟨0, x, []⟩ := by
      refine mem_few_seq.mpr ⟨x.take (j + 1) ++ w, y, ?_, by simp, ?_⟩
      · rw [List.append_assoc, ← hx, List.take_append_drop]
      · rwa [List.length_append, hlen, Nat.zero_add]
    rw [first_eq_none_iff.mp h] at this
    cases this

end Backtrack
