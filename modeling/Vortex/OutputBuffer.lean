import Mathlib.Data.List.Basic

/-!
# Output through a buffer

Text is held until `size` units of it are there; then all of it is sent at
once. What was sent cannot be taken back, so the question is always whether
anything was sent yet, and the answer is the total length of what was written.
-/

structure OutputBuffer (α : Type*) (size : Nat) where
  held : List α
  sent : List α
  room : held.length < size

namespace OutputBuffer

variable {α : Type*} {size : Nat}

def empty (h : 0 < size) : OutputBuffer α size := ⟨[], [], h⟩

def write (b : OutputBuffer α size) (x : List α) : OutputBuffer α size :=
  if h : (b.held ++ x).length < size then ⟨b.held ++ x, b.sent, h⟩
  else ⟨[], b.sent ++ (b.held ++ x), Nat.zero_lt_of_lt b.room⟩

def writeAll (b : OutputBuffer α size) (xs : List (List α)) : OutputBuffer α size := xs.foldl write b

theorem write_fits {b : OutputBuffer α size} {x : List α} (h : (b.held ++ x).length < size) :
    b.write x = ⟨b.held ++ x, b.sent, h⟩ := by
  rw [write, dif_pos h]

theorem write_full {b : OutputBuffer α size} {x : List α} (h : ¬(b.held ++ x).length < size) :
    b.write x = ⟨[], b.sent ++ (b.held ++ x), Nat.zero_lt_of_lt b.room⟩ := by
  rw [write, dif_neg h]

theorem writeAll_append (b : OutputBuffer α size) (xs ys : List (List α)) :
    b.writeAll (xs ++ ys) = (b.writeAll xs).writeAll ys := by
  rw [writeAll, writeAll, writeAll, List.foldl_append]

theorem write_sent_eq_nil_iff (b : OutputBuffer α size) (x : List α) :
    (b.write x).sent = [] ↔ b.sent = [] ∧ (b.held ++ x).length < size := by
  by_cases h : (b.held ++ x).length < size
  · rw [write_fits h]
    exact ⟨fun hs => ⟨hs, h⟩, And.left⟩
  · rw [write_full h]
    refine iff_of_false (fun hs => h ?_) fun hs => h hs.2
    rw [(List.append_eq_nil_iff.mp hs).2]
    exact Nat.zero_lt_of_lt b.room

/-- Nothing was sent exactly when all that was written still fits. -/
theorem writeAll_sent_eq_nil_iff (b : OutputBuffer α size) (xs : List (List α)) :
    (b.writeAll xs).sent = [] ↔ b.sent = [] ∧ (b.held ++ xs.flatten).length < size := by
  induction xs generalizing b with
  | nil => simpa [writeAll] using fun _ => b.room
  | cons x xs ih =>
    have hw : b.writeAll (x :: xs) = (b.write x).writeAll xs := rfl
    rw [hw, ih, write_sent_eq_nil_iff]
    constructor
    · rintro ⟨⟨hs, hx⟩, hxs⟩
      rw [write_fits hx, List.append_assoc] at hxs
      exact ⟨hs, hxs⟩
    · rintro ⟨hs, hxs⟩
      have hx : (b.held ++ x).length < size := by
        simp only [List.flatten_cons, List.length_append] at *
        omega
      rw [write_fits hx, List.append_assoc]
      exact ⟨⟨hs, hx⟩, hxs⟩

theorem empty_writeAll_sent (h : 0 < size) (xs : List (List α)) :
    ((empty h).writeAll xs).sent = [] ↔ xs.flatten.length < size := by
  rw [writeAll_sent_eq_nil_iff]
  exact ⟨And.right, fun hs => ⟨rfl, hs⟩⟩

end OutputBuffer
