import Vortex.Transducer
import Vortex.Bytes

/-!
# MySQL's lexical rules

Statements are read as MySQL 5.5 reads them over a latin1 connection: string
literals in either quote, doubled quotes and backslash escapes inside them,
words and integer literals, the three kinds of comment. A literal or a block
comment that is still open at the end is an error, and so is `/*!`, whose
contents MySQL would run.
-/

namespace Vortex

open Ascii

inductive Token
  | word (w : Bytes)
  | int (n : Nat)
  | str (s : Bytes)
  | punct (c : Byte)
  deriving DecidableEq

inductive LexState
  | gap
  | word (w : Bytes)
  -- inside a literal opened by `q`; just after a backslash; just after a `q`
  | str (q : Byte) (s : Bytes)
  | esc (q : Byte) (s : Bytes)
  | quote (q : Byte) (s : Bytes)
  | slash
  | dash
  | dashes
  | line
  | opened
  | block
  | star
  deriving DecidableEq

-- latin1 counts the no-break space as white space
def isSqlSpace (c : Byte) : Bool := c == 32 || (9 ≤ c && c ≤ 13) || c == 0xA0

def isWordByte (c : Byte) : Bool := (isLetter c || isDigit c || c == 95 || c == 36 || 0x80 ≤ c) && c != 0xA0

def isQuote (c : Byte) : Bool := c == quote || c == dquote

/-- A run of digits is an integer literal as long as it fits 64 bits. -/
def wordToken (w : Bytes) : Token :=
  if w.all isDigit && digitsVal w < 2 ^ 64 then .int (digitsVal w) else .word w

/-- What a backslash and `c` stand for inside a literal. -/
def escapeOf (c : Byte) : Bytes :=
  if c = 48 then [0] else if c = 98 then [8] else if c = 110 then [10] else if c = 114 then [13]
  else if c = 116 then [9] else if c = 90 then [26]
  else if c = 37 || c = 95 then [backslash, c]
  else [c]

def fromGap (c : Byte) : LexState × List Token :=
  if isSqlSpace c then (.gap, [])
  else if isQuote c then (.str c [], [])
  else if isWordByte c then (.word [c], [])
  else if c = hash then (.line, [])
  else if c = Ascii.slash then (.slash, [])
  else if c = Ascii.dash then (.dash, [])
  else (.gap, [.punct c])

def flush (ts : List Token) (c : Byte) : LexState × List Token := ((fromGap c).1, ts ++ (fromGap c).2)

def blockStep (c : Byte) : LexState := if c = Ascii.star then .star else .block

/-- Behind two dashes white space or a control byte opens a comment. -/
def opensLine (c : Byte) : Bool := isSqlSpace c || c < 32 || c == 127

def lexStep : LexState → Byte → Option (LexState × List Token)
  | .gap, c => some (fromGap c)
  | .word w, c => some (if isWordByte c then (.word (w ++ [c]), []) else flush [wordToken w] c)
  | .str q s, c =>
    some (if c = q then (.quote q s, []) else if c = backslash then (.esc q s, []) else (.str q (s ++ [c]), []))
  | .esc q s, c => some (.str q (s ++ escapeOf c), [])
  | .quote q s, c => some (if c = q then (.str q (s ++ [c]), []) else flush [.str s] c)
  | .slash, c => some (if c = Ascii.star then (.opened, []) else flush [.punct Ascii.slash] c)
  | .dash, c => some (if c = Ascii.dash then (.dashes, []) else flush [.punct Ascii.dash] c)
  | .dashes, c =>
    some (if c = newline then (.gap, []) else if c = 0 then flush [] c else if opensLine c then (.line, [])
      else if c = Ascii.dash then (.dashes, [.punct Ascii.dash])
      else flush [.punct Ascii.dash, .punct Ascii.dash] c)
  -- a NUL ends a line comment, and is no white space
  | .line, c => some (if c = newline then (.gap, []) else if c = 0 then flush [] c else (.line, []))
  | .opened, c => if c = 33 then none else some (blockStep c, [])
  | .block, c => some (blockStep c, [])
  | .star, c => some (if c = Ascii.slash then .gap else blockStep c, [])

def lexFinish : LexState → Option (List Token)
  | .gap => some []
  | .word w => some [wordToken w]
  | .str _ _ => none
  | .esc _ _ => none
  | .quote _ s => some [.str s]
  | .slash => some [.punct Ascii.slash]
  | .dash => some [.punct Ascii.dash]
  | .dashes => some []
  | .line => some []
  | .opened => none
  | .block => none
  | .star => none

def sqlLexer : Transducer LexState Byte Token where
  step := lexStep
  finish := lexFinish

def lexSql (x : Bytes) : Option (List Token) := sqlLexer.read .gap x

/-! ## What a step can do -/

/-- Between tokens: white space, comments, and the first byte of an operator. -/
def LexState.quiet : LexState → Bool
  | .word _ | .str _ _ | .esc _ _ | .quote _ _ => false
  | _ => true

/-- The tokens that wait for the byte that ends them. -/
def LexState.pending : LexState → List Token
  | .word w => [wordToken w]
  | .quote _ s => [.str s]
  | .slash => [.punct Ascii.slash]
  | .dash => [.punct Ascii.dash]
  | .dashes => [.punct Ascii.dash, .punct Ascii.dash]
  | _ => []

inductive Silent : LexState → Byte → LexState → Prop
  | word (w : Bytes) (c : Byte) : Silent (.word w) c (.word (w ++ [c]))
  | char (q : Byte) (s : Bytes) (c : Byte) : Silent (.str q s) c (.str q (s ++ [c]))
  | escape (q : Byte) (s : Bytes) (c : Byte) : Silent (.str q s) c (.esc q s)
  | escaped (q : Byte) (s : Bytes) (c : Byte) : Silent (.esc q s) c (.str q (s ++ escapeOf c))
  | close (q : Byte) (s : Bytes) : Silent (.str q s) q (.quote q s)
  | doubled (q : Byte) (s : Bytes) : Silent (.quote q s) q (.str q (s ++ [q]))
  | between {s s' : LexState} (c : Byte) : s.quiet = true → s'.quiet = true → Silent s c s'

theorem blockStep_quiet (c : Byte) : (blockStep c).quiet = true := by
  unfold blockStep
  split <;> rfl

/-- A step emits what was pending, or drops it for a comment, and starts
afresh; or it emits nothing. Of three dashes it emits the first. -/
theorem lexStep_cases {s s' : LexState} {c : Byte} {out : List Token} (h : lexStep s c = some (s', out)) :
    (∃ ts, (ts = s.pending ∨ ts = []) ∧ (s', out) = flush ts c) ∨ (out = [] ∧ Silent s c s') ∨
      (s' = .dashes ∧ out = [.punct Ascii.dash]) := by
  have silent : ∀ t : LexState, Silent s c t → (t, []) = (s', out) →
      (∃ ts, (ts = s.pending ∨ ts = []) ∧ (s', out) = flush ts c) ∨ (out = [] ∧ Silent s c s') ∨
        (s' = .dashes ∧ out = [.punct Ascii.dash]) := by
    intro t ht he
    obtain ⟨rfl, rfl⟩ := Prod.mk.inj he
    exact .inr (.inl ⟨rfl, ht⟩)
  have fresh : ∀ ts, ts = s.pending ∨ ts = [] → flush ts c = (s', out) →
      (∃ ts, (ts = s.pending ∨ ts = []) ∧ (s', out) = flush ts c) ∨ (out = [] ∧ Silent s c s') ∨
        (s' = .dashes ∧ out = [.punct Ascii.dash]) :=
    fun ts hts he => .inl ⟨ts, hts, he.symm⟩
  cases s with
  | gap =>
    simp only [lexStep, Option.some.injEq] at h
    exact fresh [] (.inr rfl) h
  | word w =>
    simp only [lexStep, Option.some.injEq] at h
    split at h
    · exact silent _ (.word w c) h
    · exact fresh _ (.inl rfl) h
  | str q z =>
    simp only [lexStep, Option.some.injEq] at h
    repeat' split at h
    · rename_i hc
      subst hc
      exact silent _ (.close c z) h
    · exact silent _ (.escape q z c) h
    · exact silent _ (.char q z c) h
  | esc q z =>
    simp only [lexStep, Option.some.injEq] at h
    exact silent _ (.escaped q z c) h
  | quote q z =>
    simp only [lexStep, Option.some.injEq] at h
    split at h
    · rename_i hc
      subst hc
      exact silent _ (.doubled c z) h
    · exact fresh _ (.inl rfl) h
  | slash | dash =>
    simp only [lexStep, Option.some.injEq] at h
    split at h
    · exact silent _ (.between c rfl rfl) h
    · exact fresh _ (.inl rfl) h
  | dashes =>
    simp only [lexStep, Option.some.injEq] at h
    repeat' split at h
    · exact silent _ (.between c rfl rfl) h
    · exact fresh [] (.inr rfl) h
    · exact silent _ (.between c rfl rfl) h
    · obtain ⟨rfl, rfl⟩ := Prod.mk.inj h
      exact .inr (.inr ⟨rfl, rfl⟩)
    · exact fresh _ (.inl rfl) h
  | line =>
    simp only [lexStep, Option.some.injEq] at h
    repeat' split at h
    · exact silent _ (.between c rfl rfl) h
    · exact fresh [] (.inr rfl) h
    · exact silent _ (.between c rfl rfl) h
  | opened =>
    simp only [lexStep] at h
    split at h
    · cases h
    · exact silent _ (.between c rfl (blockStep_quiet c)) (Option.some.inj h)
  | block =>
    simp only [lexStep, Option.some.injEq] at h
    exact silent _ (.between c rfl (blockStep_quiet c)) h
  | star =>
    simp only [lexStep, Option.some.injEq] at h
    refine silent _ (.between c rfl ?_) h
    split
    · rfl
    · exact blockStep_quiet c

/-! ## Text placed between single quotes -/

/-- The text reads back as itself inside a single-quoted literal: no quote, and
a backslash only before `%` or `_`, where MySQL keeps it. -/
def selfReading : Bytes → Bool
  | [] => true
  | [c] => c != quote && c != backslash
  | c :: d :: x =>
    if c = quote then false
    else if c = backslash then (d == 37 || d == 95) && selfReading x
    else selfReading (d :: x)

/-- The content of `'x'` where that is one literal: its last quote closes it. -/
def decodeLiteral (x : Bytes) : Option Bytes :=
  match sqlLexer.feed (.str quote []) (x ++ [quote]) with
  | some (.quote q s, []) => if q = quote then some s else none
  | _ => none

theorem decodeLiteral_some {x s : Bytes} (h : decodeLiteral x = some s) :
    sqlLexer.feed (.str quote []) (x ++ [quote]) = some (.quote quote s, []) := by
  unfold decodeLiteral at h
  split at h
  · rename_i q s' hf
    split at h
    · rename_i hq
      cases h
      rw [hf, hq]
    · cases h
  · cases h

theorem escapeOf_keep {c : Byte} (h : (c == 37 || c == 95) = true) : escapeOf c = [backslash, c] := by
  have hc : c = 37 ∨ c = 95 := by simpa using h
  rcases hc with rfl | rfl <;> decide

theorem escapeOf_length (c : Byte) : (escapeOf c).length ≤ 2 := by
  unfold escapeOf
  repeat' split
  all_goals simp

theorem escapeOf_two {c : Byte} (h : (escapeOf c).length = 2) : (c == 37 || c == 95) = true := by
  unfold escapeOf at h
  repeat' split at h
  all_goals simp_all

theorem feed_selfReading {x : Bytes} (h : selfReading x = true) (s : Bytes) :
    sqlLexer.feed (.str quote s) x = some (.str quote (s ++ x), []) := by
  fun_induction selfReading x generalizing s with
  | case1 => simp
  | case2 c =>
    simp only [bne_iff_ne, ne_eq, Bool.and_eq_true] at h
    rw [sqlLexer.feed_cons_silent (t := .str quote (s ++ [c]))]
    · rfl
    · simp [sqlLexer, lexStep, h.1, h.2]
  | case3 d x => cases h
  | case4 d x hq ih =>
    simp only [Bool.and_eq_true] at h
    rw [sqlLexer.feed_cons_silent (t := .esc quote s) (by rfl),
      sqlLexer.feed_cons_silent (t := .str quote (s ++ [backslash, d]))]
    · rw [ih h.2]; simp
    · simp only [sqlLexer, lexStep, escapeOf_keep h.1]
  | case5 c d x hq hb ih =>
    rw [sqlLexer.feed_cons_silent (t := .str quote (s ++ [c]))]
    · rw [ih h]; simp
    · simp [sqlLexer, lexStep, hq, hb]

/-! ## Words of letters and digits -/

theorem wordByte_plain {c : Byte} (h : isLetter c = true ∨ isDigit c = true) : isWordByte c = true := by
  have hn : c ≠ 0xA0 := by
    rintro rfl
    revert h
    decide
  rcases h with h | h <;> simp [isWordByte, h, hn]

theorem fromGap_plain {c : Byte} (h : isLetter c = true ∨ isDigit c = true) : fromGap c = (.word [c], []) := by
  have hs : isSqlSpace c = false ∧ isQuote c = false := by
    simp only [isLetter, isUpper, isLower, isDigit, isSqlSpace, isQuote, Bool.or_eq_true, Bool.and_eq_true,
      decide_eq_true_eq, Bool.or_eq_false_iff, Bool.and_eq_false_iff, decide_eq_false_iff_not,
      beq_eq_false_iff_ne] at *
    grind
  simp [fromGap, hs.1, hs.2, wordByte_plain h]

theorem feed_plain {x : Bytes} (hne : x ≠ []) (h : ∀ c ∈ x, isLetter c = true ∨ isDigit c = true) :
    sqlLexer.feed .gap x = some (.word x, []) := by
  obtain ⟨c, y, rfl⟩ := List.exists_cons_of_ne_nil hne
  rw [sqlLexer.feed_cons_silent (t := .word [c]) (by
    simp [sqlLexer, lexStep, fromGap_plain (h c (List.mem_cons_self ..))])]
  exact sqlLexer.feed_collect .word (fun d hd acc => by
    simp [sqlLexer, lexStep, wordByte_plain (h d (List.mem_cons_of_mem _ hd))]) [c]

/-! ## Splitting a reading at its first token -/

theorem read_flush {s : LexState} {o : List Token} {c : Byte} (h : lexStep s c = some (flush o c)) (x : Bytes) :
    sqlLexer.read s (c :: x) = (sqlLexer.read .gap (c :: x)).map (o ++ ·) := by
  rw [sqlLexer.read_cons (s := s) h, sqlLexer.read_cons (s := .gap) (t := (fromGap c).1) (o := (fromGap c).2) rfl,
    Option.map_map]
  simp [Function.comp_def]

theorem selfReading_cons {c : Byte} (hq : c ≠ quote) (hb : c ≠ backslash) (x : Bytes) :
    selfReading (c :: x) = selfReading x := by
  cases x with
  | nil => simp [selfReading, hq, hb]
  | cons d x => simp [selfReading, hq, hb]

/-- A literal's content is never longer than its text, and equally long only
where the text reads back as itself. -/
theorem read_str {q : Byte} : ∀ (x s : Bytes) {ts : List Token}, sqlLexer.read (.str q s) x = some ts →
    ∃ body rest d ts', x = body ++ q :: rest ∧ ts = .str (s ++ d) :: ts' ∧ sqlLexer.read .gap rest = some ts' ∧
      d.length ≤ body.length ∧ (d.length = body.length → d = body ∧ (q = quote → selfReading body = true))
  | [], s, ts, h => by cases h
  | c :: x, s, ts, h => by
    by_cases hq : c = q
    · subst hq
      rw [sqlLexer.read_cons_silent (t := .quote c s) (by simp [sqlLexer, lexStep])] at h
      cases x with
      | nil =>
        refine ⟨[], [], [], [], rfl, ?_, rfl, Nat.le_refl _, fun _ => ⟨rfl, fun _ => rfl⟩⟩
        change some [Token.str s] = some ts at h
        rw [List.append_nil]; exact (Option.some.inj h).symm
      | cons e x =>
        by_cases he : e = c
        · subst he
          rw [sqlLexer.read_cons_silent (t := .str e (s ++ [e])) (by simp [sqlLexer, lexStep])] at h
          obtain ⟨body, rest, d, ts', rfl, rfl, hr, hl, -⟩ := read_str x _ h
          refine ⟨e :: e :: body, rest, e :: d, ts', rfl, by simp, hr, ?_, ?_⟩
          · simp only [List.length_cons]; omega
          · intro heq; simp only [List.length_cons] at heq; omega
        · rw [read_flush (s := .quote c s) (o := [.str s]) (by simp [lexStep, he])] at h
          obtain ⟨ts', hr, rfl⟩ := Option.map_eq_some_iff.mp h
          exact ⟨[], e :: x, [], ts', rfl, by simp, hr, Nat.le_refl _, fun _ => ⟨rfl, fun _ => rfl⟩⟩
    · by_cases hb : c = backslash
      · subst hb
        rw [sqlLexer.read_cons_silent (t := .esc q s) (by simp [sqlLexer, lexStep, hq])] at h
        cases x with
        | nil => cases h
        | cons e x =>
          rw [sqlLexer.read_cons_silent (t := .str q (s ++ escapeOf e)) rfl] at h
          obtain ⟨body, rest, d, ts', rfl, rfl, hr, hl, hd⟩ := read_str x _ h
          have h2 := escapeOf_length e
          refine ⟨backslash :: e :: body, rest, escapeOf e ++ d, ts', rfl, by simp, hr, ?_, ?_⟩
          · simp only [List.length_cons, List.length_append]; omega
          · intro heq
            simp only [List.length_cons, List.length_append] at heq
            have hk := escapeOf_two (c := e) (by omega)
            obtain ⟨rfl, hs⟩ := hd (by omega)
            refine ⟨by rw [escapeOf_keep hk]; rfl, fun hqq => ?_⟩
            rw [selfReading, if_neg (by decide), if_pos rfl, hk, hs hqq]; rfl
      · rw [sqlLexer.read_cons_silent (t := .str q (s ++ [c])) (by simp [sqlLexer, lexStep, hq, hb])] at h
        obtain ⟨body, rest, d, ts', rfl, rfl, hr, hl, hd⟩ := read_str x _ h
        refine ⟨c :: body, rest, c :: d, ts', rfl, by simp, hr, by simpa using hl, ?_⟩
        intro heq
        obtain ⟨rfl, hs⟩ := hd (by simpa using heq)
        exact ⟨rfl, fun hqq => by rw [selfReading_cons (hqq ▸ hq) hb]; exact hs hqq⟩

theorem wordToken_ne_str (w s : Bytes) : wordToken w ≠ .str s := by
  unfold wordToken; split <;> simp

theorem wordToken_ne_punct (w : Bytes) (c : Byte) : wordToken w ≠ .punct c := by
  unfold wordToken; split <;> simp

end Vortex
