import Vortex.Bytes

/-!
# What ffmpeg logs

`av_log` prints each message as it comes, unless a message that ends a line
repeats the one before it; then it counts. Control characters are printed as
question marks.
-/

namespace Vortex

open Ascii

def sanitize (c : Byte) : Byte := if c < 8 || (13 < c && c < 32) then 63 else c

structure Log where
  printPrefix : Bool
  count : Nat
  -- the last message, as far as it fits its buffer
  prev : Bytes
  out : Bytes

def endsLine (m : Bytes) : Bool := m.getLast? == some newline || m.getLast? == some 13

def lineSize : Nat := 1024

def repeated (count : Nat) : Bytes :=
  if 0 < count then str "    Last message repeated " ++ decimal count ++ str " times\n" else []

/-- `av_log_default_callback` without a context, for stderr in a pipe, with a
message that fits the 64 KiB it is formatted in. -/
def Log.write (l : Log) (m : Bytes) : Log :=
  let printPrefix := if m = [] then l.printPrefix else endsLine m
  let line := m.take (lineSize - 1)
  if printPrefix && line == l.prev && line != [] && line.getLast? != some 13 then
    { l with printPrefix := printPrefix, count := l.count + 1 }
  else { printPrefix := printPrefix, count := 0, prev := line, out := l.out ++ repeated l.count ++ m.map sanitize }

/-- A message that ends a line is not the one before it. -/
def Fresh : Bytes → List Bytes → Prop
  | _, [] => True
  | prev, m :: ms => (m = [] ∨ endsLine m = false ∨ m.take (lineSize - 1) ≠ prev) ∧ Fresh (m.take (lineSize - 1)) ms

theorem Log.write_fresh {l : Log} {m : Bytes} (h : m = [] ∨ endsLine m = false ∨ m.take (lineSize - 1) ≠ l.prev) :
    (l.write m).out = l.out ++ repeated l.count ++ m.map sanitize ∧ (l.write m).count = 0 ∧
      (l.write m).prev = m.take (lineSize - 1) := by
  have hno : ((if m = [] then l.printPrefix else endsLine m) && m.take (lineSize - 1) == l.prev &&
      m.take (lineSize - 1) != [] && (m.take (lineSize - 1)).getLast? != some 13) = false := by
    rcases h with rfl | h | h
    · simp
    · by_cases hm : m = []
      · simp [hm]
      · simp [hm, h]
    · simp [h]
  unfold Log.write
  simp only [hno, Bool.false_eq_true, if_false, and_self]

/-- Fresh messages are all printed, one behind the other. -/
theorem Log.write_all : ∀ {ms : List Bytes} {l : Log}, ms ≠ [] → Fresh l.prev ms →
    (ms.foldl Log.write l).out = l.out ++ repeated l.count ++ ms.flatten.map sanitize ∧ (ms.foldl Log.write l).count = 0
  | [m], l, _, h => by
    obtain ⟨ho, hc, -⟩ := l.write_fresh h.1
    rw [List.foldl_cons, List.foldl_nil, List.flatten_singleton]
    exact ⟨ho, hc⟩
  | m :: m' :: ms, l, _, h => by
    obtain ⟨ho, hc, hp⟩ := l.write_fresh h.1
    have hrep : repeated 0 = [] := rfl
    have hf : Fresh (l.write m).prev (m' :: ms) := by
      rw [hp]
      exact h.2
    obtain ⟨hout, hcount⟩ := write_all (List.cons_ne_nil m' ms) hf
    rw [List.foldl_cons]
    refine ⟨?_, hcount⟩
    rw [hout, ho, hc, hrep, List.append_nil]
    simp only [List.flatten_cons, List.map_append, List.append_assoc]

/-! ## Lines -/

def textLines : Bytes → List Bytes
  | [] => [[]]
  | c :: x =>
    if c = newline then [] :: textLines x
    else
      match textLines x with
      | [] => [[c]]
      | l :: ls => (c :: l) :: ls

theorem textLines_ne_nil (x : Bytes) : textLines x ≠ [] := by
  induction x with
  | nil => nofun
  | cons c x ih =>
    rw [textLines]
    repeat' split
    all_goals nofun

theorem textLines_line : ∀ (x : Bytes), newline ∉ x → ∀ y, textLines (x ++ newline :: y) = x :: textLines y
  | [], _, y => by rw [List.nil_append, textLines, if_pos rfl]
  | c :: x, h, y => by
    have hc : c ≠ newline := fun e => h (by rw [e]; exact List.mem_cons_self ..)
    rw [List.cons_append, textLines, if_neg hc, textLines_line x (fun hx => h (List.mem_cons_of_mem _ hx))]

/-- Text behind the end of a line is in lines of its own. -/
theorem textLines_append : ∀ (x y : Bytes), textLines (x ++ newline :: y) = textLines x ++ textLines y
  | [], y => textLines_line [] (List.not_mem_nil) y
  | c :: x, y => by
    have ih := textLines_append x y
    rw [List.cons_append, textLines, textLines]
    by_cases hc : c = newline
    · rw [if_pos hc, if_pos hc, ih]
      rfl
    · rw [if_neg hc, if_neg hc, ih]
      obtain ⟨l, ls, hl⟩ := List.exists_cons_of_ne_nil (textLines_ne_nil x)
      rw [hl]
      rfl

theorem textLines_no_newline : ∀ (x : Bytes), ∀ l ∈ textLines x, newline ∉ l
  | [], l, h => by
    rw [List.mem_singleton.mp h]
    nofun
  | c :: x, l, h => by
    have ih := textLines_no_newline x
    rw [textLines] at h
    by_cases hc : c = newline
    · rw [if_pos hc] at h
      rcases List.mem_cons.mp h with rfl | h
      · nofun
      · exact ih l h
    · rw [if_neg hc] at h
      obtain ⟨l₀, ls, hl⟩ := List.exists_cons_of_ne_nil (textLines_ne_nil x)
      rw [hl] at h ih
      rcases List.mem_cons.mp h with rfl | h
      · intro hn
        rcases List.mem_cons.mp hn with he | hn
        · exact hc he.symm
        · exact ih l₀ (List.mem_cons_self ..) hn
      · exact ih l (List.mem_cons_of_mem _ h)

end Vortex
