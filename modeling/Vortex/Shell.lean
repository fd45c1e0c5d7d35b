import Vortex.Transducer
import Vortex.Bytes

/-!
# POSIX shell words

The shell's token recognition for command lines without expansions: a reading
exists only if the text has no parameter expansion, command substitution,
tilde prefix or pathname pattern left active and every quote is closed. `$` is
active where an expansion can start after it; inside double quotes it stays
so, together with the backquote and the backslash.
-/

namespace Vortex

open Ascii

inductive ShellToken
  | word (w : Bytes)
  -- the descriptor number of a redirection
  | io (n : Bytes)
  | op (o : Bytes)
  deriving DecidableEq

/-- What is known of a word besides its bytes: a part of it was quoted, or it
began with a `~` and no slash or quote has come since. -/
inductive WordForm
  | bare
  | tilde
  | quoted
  deriving DecidableEq

inductive ShellState
  | blank
  | word (k : WordForm) (w : Bytes)
  | escape (k : WordForm) (w : Bytes)
  | dollar (k : WordForm) (w : Bytes)
  | single (w : Bytes)
  | double (w : Bytes)
  | doubleEscape (w : Bytes)
  | doubleDollar (w : Bytes)
  | comment
  | oper (o : Bytes)
  deriving DecidableEq

def isBlank (c : Byte) : Bool := c == space || c == tab

def isOperator (c : Byte) : Bool :=
  c == 124 || c == amp || c == 59 || c == lt || c == gt || c == lparen || c == rparen

def isPattern (c : Byte) : Bool := c == star || c == 63 || c == 91

/-- A name, a digit, a special parameter, `{` or `(`. -/
def startsExpansion (c : Byte) : Bool :=
  isLetter c || isDigit c || c == 95 || c == 64 || c == star || c == hash || c == 63 || c == dash || c == dollar ||
    c == 33 || c == lparen || c == 123

def extendsOperator (o : Bytes) (c : Byte) : Bool :=
  [str "&&", str "||", str ";;", str "<<", str ">>", str "<&", str ">&", str "<>", str "<<-", str ">|"].contains
    (o ++ [c])

def wordByte (k : WordForm) (w : Bytes) (c : Byte) : Option ShellState :=
  if c = dquote then some (.double w)
  else if c = Ascii.quote then some (.single w)
  else if c = backslash then some (.escape k w)
  else if c = Ascii.dollar then some (.dollar k w)
  else if c = backquote || isPattern c then none
  -- the slash completes a tilde prefix
  else if k = .tilde && c = slash then none
  else some (.word (if c = 126 && k = .bare && w.isEmpty then .tilde else k) (w ++ [c]))

def fromBlank (c : Byte) : Option (ShellState × List ShellToken) :=
  if isBlank c then some (.blank, [])
  else if c = newline then some (.blank, [.op [newline]])
  else if c = hash then some (.comment, [])
  else if isOperator c then some (.oper [c], [])
  else (wordByte .bare [] c).map (·, [])

/-- Digits right before a redirection are its descriptor, unless quoted. -/
def endWord (k : WordForm) (w : Bytes) (c : Byte) : ShellToken :=
  if (c == lt || c == gt) && k = .bare && w != [] && w.all isDigit then .io w else .word w

def inWord (k : WordForm) (w : Bytes) (c : Byte) : Option (ShellState × List ShellToken) :=
  if isBlank c || c == newline || isOperator c then
    if k = .tilde then none else (fromBlank c).map fun p => (p.1, endWord k w c :: p.2)
  else (wordByte k w c).map (·, [])

def inDouble (w : Bytes) (c : Byte) : Option ShellState :=
  if c = dquote then some (.word .quoted w)
  else if c = backslash then some (.doubleEscape w)
  else if c = Ascii.dollar then some (.doubleDollar w)
  else if c = backquote then none
  else some (.double (w ++ [c]))

def shellStep : ShellState → Byte → Option (ShellState × List ShellToken)
  | .blank, c => fromBlank c
  | .word k w, c => inWord k w c
  | .escape k w, c =>
    -- an escaped newline is taken out of the line
    if c = newline then some (if k = .bare && w.isEmpty then .blank else .word k w, [])
    else some (.word .quoted (w ++ [c]), [])
  | .dollar k w, c => if startsExpansion c then none else inWord k (w ++ [Ascii.dollar]) c
  | .single w, c => some (if c = Ascii.quote then .word .quoted w else .single (w ++ [c]), [])
  | .double w, c => (inDouble w c).map (·, [])
  | .doubleEscape w, c =>
    some (if c = Ascii.dollar || c = backquote || c = dquote || c = backslash then .double (w ++ [c])
      else if c = newline then .double w else .double (w ++ [backslash, c]), [])
  | .doubleDollar w, c => if startsExpansion c then none else (inDouble (w ++ [Ascii.dollar]) c).map (·, [])
  | .comment, c => some (if c = newline then (.blank, [.op [newline]]) else (.comment, []))
  | .oper o, c =>
    if extendsOperator o c then some (.oper (o ++ [c]), [])
    else (fromBlank c).map fun p => (p.1, .op o :: p.2)

def shellFinish : ShellState → Option (List ShellToken)
  | .blank => some []
  | .word k w => if k = .tilde then none else some [.word w]
  | .dollar k w => if k = .tilde then none else some [.word (w ++ [Ascii.dollar])]
  | .escape _ _ => none
  | .single _ => none
  | .double _ => none
  | .doubleEscape _ => none
  | .doubleDollar _ => none
  | .comment => some []
  | .oper o => some [.op o]

def shellLexer : Transducer ShellState Byte ShellToken where
  step := shellStep
  finish := shellFinish

def shellRead (x : Bytes) : Option (List ShellToken) := shellLexer.read .blank x

/-! ## Text inside double quotes -/

/-- Nothing in the text is active between double quotes (backslashes aside). -/
def shellInert : Bytes → Bool
  | [] => true
  | [c] => c != dquote && c != backquote
  | c :: d :: x =>
    if c = dquote || c = backquote then false
    else if c = Ascii.dollar && startsExpansion d then false
    else shellInert (d :: x)

theorem startsExpansion_dquote : startsExpansion dquote = false := rfl

theorem shellStep_double {c : Byte} (h₁ : c ≠ dquote) (h₂ : c ≠ backslash) (h₃ : c ≠ Ascii.dollar)
    (h₄ : c ≠ backquote) (w : Bytes) : shellLexer.step (.double w) c = some (.double (w ++ [c]), []) := by
  simp [shellLexer, shellStep, inDouble, h₁, h₂, h₃, h₄]

/-- After a `$` that starts no expansion the shell reads on as if it were any
other byte. -/
theorem read_dollar {c : Byte} (h : startsExpansion c = false) (w x : Bytes) :
    shellLexer.read (.doubleDollar w) (c :: x) = shellLexer.read (.double (w ++ [Ascii.dollar])) (c :: x) := by
  have hs : shellLexer.step (.doubleDollar w) c = shellLexer.step (.double (w ++ [Ascii.dollar])) c := by
    simp [shellLexer, shellStep, h]
  simp only [Transducer.read, Transducer.feed, hs]

theorem read_double_inert {x : Bytes} (hb : ∀ c ∈ x, c ≠ backslash) (h : shellInert x = true) (w y : Bytes) :
    shellLexer.read (.double w) (x ++ dquote :: y) = shellLexer.read (.word .quoted (w ++ x)) y := by
  fun_induction shellInert x generalizing w with
  | case1 => rw [List.nil_append, shellLexer.read_cons_silent (t := .word .quoted w) rfl, List.append_nil]
  | case2 c =>
    simp only [Bool.and_eq_true, bne_iff_ne, ne_eq] at h
    have hc := hb c (List.mem_singleton_self c)
    rw [List.singleton_append]
    by_cases hd : c = Ascii.dollar
    · subst hd
      rw [shellLexer.read_cons_silent (t := .doubleDollar w) rfl, read_dollar startsExpansion_dquote,
        shellLexer.read_cons_silent (t := .word .quoted (w ++ [Ascii.dollar])) rfl]
    · rw [shellLexer.read_cons_silent (shellStep_double h.1 hc hd h.2 w),
        shellLexer.read_cons_silent (t := .word .quoted (w ++ [c])) rfl]
  | case3 c d x => cases h
  | case4 c d x => cases h
  | case5 c d x hq he ih =>
    simp only [Bool.or_eq_true, decide_eq_true_eq, not_or] at hq
    have hc := hb c (List.mem_cons_self ..)
    have ih := ih (fun e he => hb e (List.mem_cons_of_mem _ he)) h (w ++ [c])
    rw [List.append_assoc, List.singleton_append] at ih
    rw [← ih]
    by_cases hd : c = Ascii.dollar
    · subst hd
      have hs : startsExpansion d = false := by simpa using he
      rw [List.cons_append, shellLexer.read_cons_silent (t := .doubleDollar w) rfl, List.cons_append, read_dollar hs]
    · rw [List.cons_append, shellLexer.read_cons_silent (shellStep_double hq.1 hc hd hq.2 w)]

/-! ## The word in progress -/

/-- What the word in progress has collected, a pending `$` included; an escape
does not count as a place in a word. -/
def ShellState.collected : ShellState → Option Bytes
  | .word _ w | .single w | .double w => some w
  | .dollar _ w | .doubleDollar w => some (w ++ [Ascii.dollar])
  | .escape _ _ | .doubleEscape _ | .blank | .comment | .oper _ => none

/-- No quote, and nothing that is active between quotes. -/
def isPlain (c : Byte) : Bool := c != dquote && c != Ascii.quote && c != backslash && c != Ascii.dollar && c != backquote

theorem isPlain_ne {c : Byte} (h : isPlain c = true) :
    c ≠ dquote ∧ c ≠ Ascii.quote ∧ c ≠ backslash ∧ c ≠ Ascii.dollar ∧ c ≠ backquote := by
  simpa [isPlain, and_assoc] using h

theorem feed_double {y : Bytes} (h : ∀ c ∈ y, isPlain c = true) (w : Bytes) :
    shellLexer.feed (.double w) y = some (.double (w ++ y), []) := by
  apply shellLexer.feed_collect .double
  intro c hc acc
  obtain ⟨hquote, -, hb, hdollar, hback⟩ := isPlain_ne (h c hc)
  exact shellStep_double hquote hb hdollar hback acc

theorem feed_single {y : Bytes} (h : ∀ c ∈ y, isPlain c = true) (w : Bytes) :
    shellLexer.feed (.single w) y = some (.single (w ++ y), []) := by
  apply shellLexer.feed_collect .single
  intro c hc acc
  obtain ⟨-, hquote, -⟩ := isPlain_ne (h c hc)
  simp [shellLexer, shellStep, hquote]

/-- The state is in the word that `w` begins, by one byte further at most. -/
def ShellState.Extends (s : ShellState) (w : Bytes) : Prop :=
  ∃ v, s.collected = some v ∧ w <+: v ∧ v.length ≤ w.length + 1

theorem wordByte_extends {k : WordForm} {w : Bytes} {c : Byte} {s : ShellState} (hb : c ≠ backslash)
    (h : wordByte k w c = some s) : s.Extends w := by
  unfold wordByte at h
  repeat' split at h
  all_goals first | cases h; simp [ShellState.Extends, ShellState.collected] | contradiction

theorem inDouble_extends {w : Bytes} {c : Byte} {s : ShellState} (hb : c ≠ backslash) (h : inDouble w c = some s) :
    s.Extends w := by
  unfold inDouble at h
  repeat' split at h
  all_goals first | cases h; simp [ShellState.Extends, ShellState.collected] | contradiction

/-- A step inside a word adds one byte to it at most, or emits it as it is. -/
theorem shellStep_extends {s s' : ShellState} {w : Bytes} {c : Byte} {out : List ShellToken}
    (hs : s.collected = some w) (hb : c ≠ backslash) (h : shellLexer.step s c = some (s', out)) :
    (out = [] ∧ s'.Extends w) ∨ ∃ ts, out = .word w :: ts ∨ out = .io w :: ts := by
  have word : ∀ k v, w = v → inWord k v c = some (s', out) →
      (out = [] ∧ s'.Extends w) ∨ ∃ ts, out = .word w :: ts ∨ out = .io w :: ts := by
    rintro k _ rfl hi
    unfold inWord at hi
    split at hi
    · split at hi
      · cases hi
      · obtain ⟨p, -, he⟩ := Option.map_eq_some_iff.mp hi
        obtain ⟨-, rfl⟩ := Prod.mk.inj he
        refine .inr ⟨p.2, ?_⟩
        unfold endWord
        split
        · exact .inr rfl
        · exact .inl rfl
    · obtain ⟨t, ht, he⟩ := Option.map_eq_some_iff.mp hi
      obtain ⟨rfl, rfl⟩ := Prod.mk.inj he
      exact .inl ⟨rfl, wordByte_extends hb ht⟩
  have double : ∀ v, w = v → (inDouble v c).map (·, []) = some (s', out) → out = [] ∧ s'.Extends w := by
    rintro _ rfl hi
    obtain ⟨t, ht, he⟩ := Option.map_eq_some_iff.mp hi
    obtain ⟨rfl, rfl⟩ := Prod.mk.inj he
    exact ⟨rfl, inDouble_extends hb ht⟩
  cases s with
  | word k v => exact word k v (Option.some.inj hs).symm h
  | double v => exact .inl (double v (Option.some.inj hs).symm h)
  | single v =>
    obtain rfl := Option.some.inj hs
    obtain ⟨rfl, rfl⟩ := Prod.mk.inj (Option.some.inj h)
    refine .inl ⟨rfl, ?_⟩
    split <;> simp [ShellState.Extends, ShellState.collected]
  | dollar k v =>
    change (if startsExpansion c then none else _) = _ at h
    split at h
    · cases h
    · exact word k _ (Option.some.inj hs).symm h
  | doubleDollar v =>
    change (if startsExpansion c then none else _) = _ at h
    split at h
    · cases h
    · exact .inl (double _ (Option.some.inj hs).symm h)
  | escape | doubleEscape | blank | comment | oper => cases hs

/-- The word that is read in the end begins with what was collected. -/
theorem collected_grows {x : Bytes} {s : ShellState} {w v : Bytes} {ts : List ShellToken}
    (hx : ∀ c ∈ x, c ≠ backslash) (hs : s.collected = some w) (h : shellLexer.read s x = some (.word v :: ts)) :
    w <+: v := by
  induction x generalizing s w with
  | nil =>
    have finished : ∀ (k : WordForm) (u : Bytes), w = u →
        (if k = .tilde then none else some [.word u]) = some (ShellToken.word v :: ts) → w <+: v := by
      rintro k _ rfl hf
      split at hf
      · cases hf
      · cases hf
        exact List.prefix_refl _
    rw [shellLexer.read_nil] at h
    cases s with
    | word k u | dollar k u => exact finished k _ (Option.some.inj hs).symm h
    | _ => cases h
  | cons c x ih =>
    obtain ⟨s', o₁, o₂, hst, hr, he⟩ := shellLexer.read_cons_some h
    rcases shellStep_extends hs (hx c (List.mem_cons_self ..)) hst with ⟨rfl, u, hu, hwu, -⟩ | ⟨ts', rfl | rfl⟩
    · rw [List.nil_append] at he
      exact hwu.trans (ih (fun d hd => hx d (List.mem_cons_of_mem _ hd)) hu (he ▸ hr))
    · cases (List.cons.inj he).1
      exact List.prefix_refl _
    · cases (List.cons.inj he).1

theorem read_open_quote {y : Bytes} (h : ∀ c ∈ y, isPlain c = true) (w : Bytes) :
    shellLexer.read (.double w) y = none ∧ shellLexer.read (.single w) y = none := by
  rw [Transducer.read, Transducer.read, feed_double h, feed_single h]
  exact ⟨rfl, rfl⟩

/-- A word that starts before `x"` and ends before the plain text after it has
lost one byte at least to the quote. -/
theorem word_length_le {y : Bytes} (hy : ∀ c ∈ y, isPlain c = true) :
    ∀ {x : Bytes} {s : ShellState} {w v : Bytes} {ts : List ShellToken}, (∀ c ∈ x, c ≠ backslash) →
      s.collected = some w → shellLexer.read s (x ++ dquote :: space :: y) = some (.word v :: ts) →
      v.length ≤ w.length + x.length
  | [], s, w, v, ts, _, hs, h => by
    have hp : ∀ c ∈ space :: y, isPlain c = true := List.forall_mem_cons.mpr ⟨rfl, hy⟩
    have opened : ∀ u, shellLexer.read (.double u) (space :: y) = some (.word v :: ts) →
        v.length ≤ w.length + ([] : Bytes).length := by
      intro u hr
      rw [(read_open_quote hp u).1] at hr
      cases hr
    have closed : ∀ u, w = u → shellLexer.read (.word .quoted u) (space :: y) = some (.word v :: ts) →
        v.length ≤ w.length + ([] : Bytes).length := by
      rintro _ rfl hr
      rw [shellLexer.read_cons (t := .blank) (o := [.word w]) rfl, Option.map_eq_some_iff] at hr
      obtain ⟨_, -, he⟩ := hr
      cases (List.cons.inj he).1
      exact Nat.le_refl _
    rw [List.nil_append] at h
    cases s with
    | word k u =>
      rw [shellLexer.read_cons_silent (t := .double u) rfl] at h
      exact opened _ h
    | dollar k u =>
      rw [shellLexer.read_cons_silent (t := .double (u ++ [Ascii.dollar])) rfl] at h
      exact opened _ h
    | double u =>
      rw [shellLexer.read_cons_silent (t := .word .quoted u) rfl] at h
      exact closed u (Option.some.inj hs).symm h
    | doubleDollar u =>
      rw [shellLexer.read_cons_silent (t := .word .quoted (u ++ [Ascii.dollar])) rfl] at h
      exact closed _ (Option.some.inj hs).symm h
    | single u =>
      rw [shellLexer.read_cons_silent (t := .single (u ++ [dquote])) rfl, (read_open_quote hp _).2] at h
      cases h
    | escape | doubleEscape | blank | comment | oper => cases hs
  | c :: x, s, w, v, ts, hb, hs, h => by
    obtain ⟨s', o₁, o₂, hst, hr, he⟩ := shellLexer.read_cons_some h
    rcases shellStep_extends hs (hb c (List.mem_cons_self ..)) hst with ⟨rfl, u, hu, -, hl⟩ | ⟨ts', rfl | rfl⟩
    · rw [List.nil_append] at he
      have := word_length_le hy (fun d hd => hb d (List.mem_cons_of_mem _ hd)) hu (he ▸ hr)
      simp only [List.length_cons]
      omega
    · rw [List.cons_append] at he
      cases (List.cons.inj he).1
      omega
    · rw [List.cons_append] at he
      cases (List.cons.inj he).1

/-- Between double quotes, text after a lead `p` never reads as itself alone:
the word begins with `p`, so the text does, and so does what follows in it. -/
theorem lead_of_read_double {y : Bytes} (hy : ∀ c ∈ y, isPlain c = true) {p : Bytes} (hp : ∀ c ∈ p, isPlain c = true)
    {x : Bytes} (hx : ∀ c ∈ x, c ≠ backslash) {w : Bytes} {ts : List ShellToken}
    (h : shellLexer.read (.double w) (p ++ (x ++ dquote :: space :: y)) = some (.word (w ++ x) :: ts)) : p = [] := by
  by_contra hne
  have hnb : ∀ c ∈ x ++ dquote :: space :: y, c ≠ backslash := by
    simp only [List.forall_mem_append, List.forall_mem_cons]
    exact ⟨hx, by decide, by decide, fun c hc => (isPlain_ne (hy c hc)).2.2.1⟩
  induction hn : x.length using Nat.strongRecOn generalizing x w with
  | ind n ih =>
    rw [shellLexer.read_append (feed_double hp w), Option.map_eq_some_iff] at h
    obtain ⟨ts', hr, rfl⟩ := h
    obtain ⟨x₁, rfl⟩ := (List.prefix_append_right_inj w).mp (collected_grows hnb rfl hr)
    rw [List.append_assoc, ← List.append_assoc w] at hr
    have hlt : x₁.length < n := by
      have := List.length_pos_of_ne_nil hne
      simp only [List.length_append] at hn
      omega
    exact ih x₁.length hlt (fun c hc => hx c (List.mem_append_right p hc)) hr
      (fun c hc => hnb c (by simp only [List.append_assoc]; exact List.mem_append_right p hc)) rfl

/-- Between double quotes, text that is not inert never reads as itself. -/
theorem inert_of_read_double {y : Bytes} (hy : ∀ c ∈ y, isPlain c = true) {x : Bytes} (hb : ∀ c ∈ x, c ≠ backslash)
    {w : Bytes} {ts : List ShellToken}
    (h : shellLexer.read (.double w) (x ++ dquote :: space :: y) = some (.word (w ++ x) :: ts)) :
    shellInert x = true := by
  have quoted : ∀ x' : Bytes, (∀ c ∈ x', c ≠ backslash) → ∀ w,
      shellLexer.read (.double w) (dquote :: x' ++ dquote :: space :: y) ≠ some (.word (w ++ dquote :: x') :: ts) := by
    intro x' hb' w hw
    rw [List.cons_append, shellLexer.read_cons_silent (t := .word .quoted w) rfl] at hw
    have := word_length_le hy hb' rfl hw
    simp only [List.length_append, List.length_cons] at this
    omega
  have backquoted : ∀ z w, shellLexer.read (.double w) (backquote :: z) = none := fun z w =>
    shellLexer.read_cons_none rfl z
  fun_induction shellInert x generalizing w with
  | case1 => rfl
  | case2 c =>
    simp only [Bool.and_eq_true, bne_iff_ne, ne_eq]
    constructor
    · rintro rfl
      exact quoted [] (by simp) w h
    · rintro rfl
      rw [List.cons_append, backquoted] at h
      cases h
  | case3 c d x hc =>
    simp only [Bool.or_eq_true, decide_eq_true_eq] at hc
    rcases hc with rfl | rfl
    · exact absurd h (quoted (d :: x) (fun e he => hb e (List.mem_cons_of_mem _ he)) w)
    · rw [List.cons_append, backquoted] at h
      cases h
  | case4 c d x hc he =>
    simp only [Bool.and_eq_true, decide_eq_true_eq] at he
    obtain ⟨rfl, he⟩ := he
    rw [List.cons_append, shellLexer.read_cons_silent (t := .doubleDollar w) rfl, List.cons_append,
      shellLexer.read_cons_none (by simp [shellLexer, shellStep, he])] at h
    cases h
  | case5 c d x hc he ih =>
    simp only [Bool.or_eq_true, decide_eq_true_eq, not_or] at hc
    have hcb := hb c (List.mem_cons_self ..)
    refine ih (fun e he => hb e (List.mem_cons_of_mem _ he)) (w := w ++ [c]) ?_
    rw [List.append_assoc, List.singleton_append]
    by_cases hd : c = Ascii.dollar
    · subst hd
      have hs : startsExpansion d = false := by simpa using he
      rw [List.cons_append, shellLexer.read_cons_silent (t := .doubleDollar w) rfl, List.cons_append, read_dollar hs] at h
      exact h
    · rw [List.cons_append, shellLexer.read_cons_silent (shellStep_double hc.1 hcb hd hc.2 w)] at h
      exact h

end Vortex
