import Vortex.SqlLexer

/-!
# Between MySQL's tokens

What may stand before a token, as text: white space and closed comments. The
reader drops exactly these, so the first token it finds stands behind them.
Behind `/*!` the contents would be run; that is no comment here.
-/

namespace Vortex

open Ascii

/-- A line comment up to the end of its line. -/
def LineComment (y : Bytes) : Prop :=
  ∃ z, (∀ c ∈ z, c ≠ newline ∧ c ≠ 0) ∧
    (y = hash :: z ∨ y = dash :: dash :: z ∧ ∀ c ∈ z.head?, opensLine c = true)

def BlockComment (y : Bytes) : Prop :=
  ∃ z, y = slash :: star :: (z ++ [star, slash]) ∧ z.head? ≠ some 33 ∧ ¬ [star, slash] <:+: z ++ [star]

inductive Blank : Bytes → Prop
  | nil : Blank []
  | space {c : Byte} {x : Bytes} : isSqlSpace c = true → Blank x → Blank (c :: x)
  | line {y x : Bytes} : LineComment y → Blank x → Blank (y ++ newline :: x)
  | block {y x : Bytes} : BlockComment y → Blank x → Blank (y ++ x)

/-- What may stand behind the last token. -/
def Ending (y : Bytes) : Prop := ∃ a z, y = a ++ z ∧ Blank a ∧ (z = [] ∨ LineComment z)

/-! ## Comments, read -/

theorem feed_lineComment {y : Bytes} (h : LineComment y) :
    ∃ s, (s = .line ∨ s = .dashes) ∧ sqlLexer.feed .gap y = some (s, []) := by
  obtain ⟨z, hz, rfl | ⟨rfl, hopen⟩⟩ := h
  all_goals
    have hstay : ∀ w, (∀ c ∈ w, c ≠ newline ∧ c ≠ 0) → sqlLexer.feed .line w = some (.line, []) := fun w hw =>
      sqlLexer.feed_stay fun c hc => by simp [sqlLexer, lexStep, (hw c hc).1, (hw c hc).2]
  · exact ⟨.line, .inl rfl, by rw [sqlLexer.feed_cons_silent (t := .line) rfl, hstay z hz]⟩
  · rw [sqlLexer.feed_cons_silent (t := .dash) rfl, sqlLexer.feed_cons_silent (t := .dashes) rfl]
    cases z with
    | nil => exact ⟨.dashes, .inr rfl, rfl⟩
    | cons c z =>
      obtain ⟨hn, h0⟩ := hz c (List.mem_cons_self ..)
      rw [sqlLexer.feed_cons_silent (t := .line) (by simp [sqlLexer, lexStep, hn, h0, hopen c rfl])]
      exact ⟨.line, .inl rfl, hstay z fun d hd => hz d (List.mem_cons_of_mem _ hd)⟩

/-- Inside a block comment; `star` says whether the byte before was a star. -/
def inBlock (afterStar : Bool) : LexState := if afterStar then .star else .block

def lastStar (afterStar : Bool) : Bytes := if afterStar then [star] else []

theorem not_infix_cons {c : Byte} {z : Bytes} (hc : c ≠ star) (h : ¬ [star, slash] <:+: z) : ¬ [star, slash] <:+: c :: z := by
  rw [List.infix_cons_iff, not_or]
  refine ⟨fun hp => hc ?_, h⟩
  exact (List.cons_prefix_cons.mp hp).1.symm

theorem feed_block {z : Bytes} : ∀ {afterStar : Bool}, ¬ [star, slash] <:+: lastStar afterStar ++ (z ++ [star]) →
    sqlLexer.feed (inBlock afterStar) (z ++ [star, slash]) = some (.gap, []) := by
  induction z with
  | nil => intro afterStar _; cases afterStar <;> rfl
  | cons c z ih =>
    intro afterStar h
    have htail : ¬ [star, slash] <:+: c :: (z ++ [star]) := fun hi => h (hi.trans (List.suffix_append ..).isInfix)
    by_cases hs : c = star
    · subst hs
      rw [List.cons_append, sqlLexer.feed_cons_silent (t := .star) (by cases afterStar <;> rfl)]
      exact @ih true htail
    · have hslash : ¬ (afterStar = true ∧ c = slash) := by
        rintro ⟨rfl, rfl⟩
        exact h ⟨[], z ++ [star], rfl⟩
      rw [List.cons_append, sqlLexer.feed_cons_silent (t := .block)]
      · exact @ih false fun hi => htail (hi.trans (List.suffix_cons ..).isInfix)
      · cases afterStar with
        | false => simp [sqlLexer, lexStep, inBlock, blockStep, hs]
        | true =>
          have : c ≠ slash := fun he => hslash ⟨rfl, he⟩
          simp [sqlLexer, lexStep, inBlock, blockStep, hs, this]

theorem feed_blockComment {y : Bytes} (h : BlockComment y) : sqlLexer.feed .gap y = some (.gap, []) := by
  obtain ⟨z, rfl, hhead, hz⟩ := h
  rw [sqlLexer.feed_cons_silent (t := .slash) rfl, sqlLexer.feed_cons_silent (t := .opened) rfl]
  have hblock := @feed_block z false hz
  cases z with
  | nil => rfl
  | cons c z =>
    have hc : c ≠ 33 := fun he => hhead (by rw [he]; rfl)
    rw [List.cons_append, sqlLexer.feed_cons_silent (t := blockStep c) (by simp [sqlLexer, lexStep, hc])]
    rw [List.cons_append, inBlock, if_neg Bool.false_ne_true, sqlLexer.feed_cons_silent (t := blockStep c) rfl] at hblock
    exact hblock

theorem feed_blank {a : Bytes} (h : Blank a) : sqlLexer.feed .gap a = some (.gap, []) := by
  induction h with
  | nil => rfl
  | space hc _ ih => rw [sqlLexer.feed_cons_silent (t := .gap) (by simp [sqlLexer, lexStep, fromGap, hc]), ih]
  | line hy _ ih =>
    obtain ⟨s, hs, hf⟩ := feed_lineComment hy
    rw [sqlLexer.feed_append hf, sqlLexer.feed_cons_silent (t := .gap) (by rcases hs with rfl | rfl <;> rfl), ih]
    rfl
  | block hy _ ih =>
    rw [sqlLexer.feed_append (feed_blockComment hy), ih]
    rfl

theorem read_blank {a : Bytes} (h : Blank a) (x : Bytes) : sqlLexer.read .gap (a ++ x) = sqlLexer.read .gap x := by
  rw [sqlLexer.read_append (feed_blank h)]
  simp

theorem read_ending {y : Bytes} (h : Ending y) : sqlLexer.read .gap y = some [] := by
  obtain ⟨a, z, rfl, ha, rfl | hz⟩ := h
  · rw [read_blank ha]
    rfl
  · obtain ⟨s, hs, hf⟩ := feed_lineComment hz
    rw [read_blank ha, Transducer.read, hf]
    rcases hs with rfl | rfl <;> rfl

/-! ## The first token -/

/-- The rest of a line comment, a newline or a NUL, and what follows them. -/
theorem read_line_cases : ∀ {y : Bytes} {ts : List Token}, sqlLexer.read .line y = some ts →
    (ts = [] ∧ ∀ c ∈ y, c ≠ newline ∧ c ≠ 0) ∨
      (∃ z x, y = z ++ newline :: x ∧ (∀ c ∈ z, c ≠ newline ∧ c ≠ 0) ∧ sqlLexer.read .gap x = some ts) ∨
        ∃ ts', ts = .punct 0 :: ts'
  | [], ts, h => .inl ⟨(Option.some.inj h).symm, nofun⟩
  | c :: y, ts, h => by
    by_cases hn : c = newline
    · subst hn
      rw [sqlLexer.read_cons_silent (t := .gap) rfl] at h
      exact .inr (.inl ⟨[], y, rfl, nofun, h⟩)
    by_cases h0 : c = 0
    · subst h0
      rw [sqlLexer.read_cons (s := .line) (t := .gap) (o := [.punct 0]) rfl] at h
      obtain ⟨ts', -, rfl⟩ := Option.map_eq_some_iff.mp h
      exact .inr (.inr ⟨ts', rfl⟩)
    rw [sqlLexer.read_cons_silent (t := .line) (by simp [sqlLexer, lexStep, hn, h0])] at h
    rcases read_line_cases h with ⟨hts, hy⟩ | ⟨z, x, rfl, hz, hr⟩ | hnul
    · exact .inl ⟨hts, List.forall_mem_cons.mpr ⟨⟨hn, h0⟩, hy⟩⟩
    · exact .inr (.inl ⟨c :: z, x, rfl, List.forall_mem_cons.mpr ⟨⟨hn, h0⟩, hz⟩, hr⟩)
    · exact .inr (.inr hnul)

theorem read_block_split : ∀ {y : Bytes} {afterStar : Bool} {ts : List Token},
    sqlLexer.read (inBlock afterStar) y = some ts →
      ∃ z x, lastStar afterStar ++ y = z ++ star :: slash :: x ∧ ¬ [star, slash] <:+: z ++ [star] ∧
        sqlLexer.read .gap x = some ts
  | [], afterStar, ts, h => by cases afterStar <;> cases h
  | c :: y, afterStar, ts, h => by
    by_cases hs : c = star
    · subst hs
      rw [sqlLexer.read_cons_silent (t := .star) (by cases afterStar <;> rfl)] at h
      obtain ⟨z, x, he, hz, hr⟩ := @read_block_split y true ts h
      change star :: y = z ++ star :: slash :: x at he
      cases afterStar with
      | false => exact ⟨z, x, he, hz, hr⟩
      | true =>
        refine ⟨star :: z, x, by rw [List.cons_append, ← he]; rfl, ?_, hr⟩
        rw [List.cons_append, List.infix_cons_iff, not_or]
        refine ⟨fun hp => ?_, hz⟩
        -- the byte behind the first star is a star
        have hp' := (List.cons_prefix_cons.mp hp).2
        cases z with
        | nil => exact absurd (List.cons_prefix_cons.mp hp').1 (by decide)
        | cons d z =>
          have hd : d = star := (List.cons.inj he).1.symm
          exact absurd ((List.cons_prefix_cons.mp hp').1.trans hd) (by decide)
    by_cases hclose : afterStar = true ∧ c = slash
    · obtain ⟨rfl, rfl⟩ := hclose
      rw [sqlLexer.read_cons_silent (t := .gap) rfl] at h
      exact ⟨[], y, rfl, by decide, h⟩
    · have hst : sqlLexer.step (inBlock afterStar) c = some (.block, []) := by
        cases afterStar with
        | false => simp [sqlLexer, lexStep, inBlock, blockStep, hs]
        | true =>
          have : c ≠ slash := fun he => hclose ⟨rfl, he⟩
          simp [sqlLexer, lexStep, inBlock, blockStep, hs, this]
      rw [sqlLexer.read_cons_silent hst] at h
      obtain ⟨z, x, he, hz, hr⟩ := @read_block_split y false ts h
      change y = _ at he
      subst he
      have hc : ¬ [star, slash] <:+: c :: (z ++ [star]) := not_infix_cons hs hz
      cases afterStar with
      | false => exact ⟨c :: z, x, rfl, hc, hr⟩
      | true =>
        refine ⟨star :: c :: z, x, rfl, ?_, hr⟩
        rw [List.cons_append, List.cons_append, List.infix_cons_iff, not_or]
        refine ⟨fun hp => hclose ⟨rfl, ?_⟩, hc⟩
        exact (List.cons_prefix_cons.mp (List.cons_prefix_cons.mp hp).2).1.symm

theorem read_word_cases : ∀ {x w : Bytes} {ts : List Token}, sqlLexer.read (.word w) x = some ts →
    ∃ v rest ts', x = v ++ rest ∧ (∀ c ∈ v, isWordByte c = true) ∧ ts = wordToken (w ++ v) :: ts' ∧
      sqlLexer.read .gap rest = some ts'
  | [], w, ts, h => ⟨[], [], [], rfl, nofun, by rw [List.append_nil]; exact (Option.some.inj h).symm, rfl⟩
  | c :: x, w, ts, h => by
    by_cases hc : isWordByte c = true
    · rw [sqlLexer.read_cons_silent (t := .word (w ++ [c])) (by simp [sqlLexer, lexStep, hc])] at h
      obtain ⟨v, rest, ts', rfl, hv, rfl, hr⟩ := read_word_cases h
      exact ⟨c :: v, rest, ts', rfl, List.forall_mem_cons.mpr ⟨hc, hv⟩, by simp, hr⟩
    · rw [read_flush (s := .word w) (o := [wordToken w]) (by simp [lexStep, hc])] at h
      obtain ⟨ts', hr, rfl⟩ := Option.map_eq_some_iff.mp h
      exact ⟨[], c :: x, ts', rfl, nofun, by simp, hr⟩

/-- A text that begins with its first token, and what is read from it. -/
inductive FirstToken : Bytes → List Token → Prop
  | none : FirstToken [] []
  | comment {y : Bytes} : LineComment y → FirstToken y []
  | word {w rest : Bytes} {ts : List Token} : w ≠ [] → sqlLexer.read .gap rest = some ts →
      FirstToken (w ++ rest) (wordToken w :: ts)
  | literal {q : Byte} {x : Bytes} {ts : List Token} : isQuote q = true → sqlLexer.read (.str q []) x = some ts →
      FirstToken (q :: x) ts
  | punct {c : Byte} {rest : Bytes} {ts : List Token} : sqlLexer.read .gap rest = some ts →
      FirstToken (c :: rest) (.punct c :: ts)
  -- the bytes that begin or end comments
  | operator {y : Bytes} {c : Byte} {ts : List Token} : c = slash ∨ c = dash ∨ c = 0 → FirstToken y (.punct c :: ts)

/-- Behind blanks there is a token, or a comment that is left open. -/
def BlankFirst (y : Bytes) (ts : List Token) : Prop := ∃ a z, y = a ++ z ∧ Blank a ∧ FirstToken z ts

theorem FirstToken.here {y : Bytes} {ts : List Token} (h : FirstToken y ts) : BlankFirst y ts := ⟨[], y, rfl, .nil, h⟩

theorem BlankFirst.space {c : Byte} {x : Bytes} {ts : List Token} (hc : isSqlSpace c = true) (h : BlankFirst x ts) :
    BlankFirst (c :: x) ts := by
  obtain ⟨a, z, rfl, ha, hz⟩ := h
  exact ⟨c :: a, z, rfl, .space hc ha, hz⟩

theorem BlankFirst.line {y x : Bytes} {ts : List Token} (hy : LineComment y) (h : BlankFirst x ts) :
    BlankFirst (y ++ newline :: x) ts := by
  obtain ⟨a, z, rfl, ha, hz⟩ := h
  exact ⟨y ++ newline :: a, z, by simp, .line hy ha, hz⟩

theorem BlankFirst.block {y x : Bytes} {ts : List Token} (hy : BlockComment y) (h : BlankFirst x ts) :
    BlankFirst (y ++ x) ts := by
  obtain ⟨a, z, rfl, ha, hz⟩ := h
  exact ⟨y ++ a, z, by simp, .block hy ha, hz⟩

/-- What a line comment leaves to read, given how to read what follows its line. -/
theorem first_after_line {u y : Bytes} {ts : List Token} (hpre : ∀ z, (∀ c ∈ z, c ≠ newline ∧ c ≠ 0) → LineComment (u ++ z))
    (h : sqlLexer.read .line y = some ts)
    (ih : ∀ x ts, x.length < y.length → sqlLexer.read .gap x = some ts → BlankFirst x ts) : BlankFirst (u ++ y) ts := by
  rcases read_line_cases h with ⟨rfl, hy⟩ | ⟨z, x, rfl, hz, hr⟩ | ⟨ts', rfl⟩
  · exact (FirstToken.comment (hpre y hy)).here
  · rw [← List.append_assoc]
    refine (ih x ts ?_ hr).line (hpre z hz)
    simp only [List.length_append, List.length_cons]
    omega
  · exact (FirstToken.operator (.inr (.inr rfl))).here

theorem first_after_slash {y : Bytes} {ts : List Token} (h : sqlLexer.read .slash y = some ts)
    (ih : ∀ x ts, x.length < y.length → sqlLexer.read .gap x = some ts → BlankFirst x ts) : BlankFirst (slash :: y) ts := by
  cases y with
  | nil =>
    cases h
    exact (FirstToken.operator (.inl rfl)).here
  | cons c y =>
    by_cases hc : c = star
    · subst hc
      rw [sqlLexer.read_cons_silent (t := .opened) rfl] at h
      cases y with
      | nil => cases h
      | cons d y =>
        by_cases hd : d = 33
        · rw [sqlLexer.read_cons_none (by simp [sqlLexer, lexStep, hd])] at h
          cases h
        have hblock : sqlLexer.read (inBlock false) (d :: y) = some ts := by
          rw [sqlLexer.read_cons_silent (t := blockStep d) (by simp [sqlLexer, lexStep, hd])] at h
          rw [inBlock, if_neg Bool.false_ne_true, sqlLexer.read_cons_silent (t := blockStep d) rfl, h]
        obtain ⟨z, x, he, hz, hr⟩ := read_block_split hblock
        change d :: y = z ++ star :: slash :: x at he
        have hlen := congrArg List.length he
        simp only [List.length_append, List.length_cons] at hlen
        have hcomment : BlockComment (slash :: star :: (z ++ [star, slash])) := by
          refine ⟨z, rfl, ?_, hz⟩
          cases z with
          | nil => simp
          | cons e z =>
            rw [← (List.cons.inj he).1]
            simpa using hd
        have hall := (ih x ts (by simp only [List.length_cons]; omega) hr).block hcomment
        have htext : slash :: star :: (z ++ [star, slash]) ++ x = slash :: star :: d :: y := by
          rw [he]
          simp
        rwa [htext] at hall
    · rw [read_flush (s := .slash) (o := [.punct slash]) (by simp [lexStep, hc])] at h
      obtain ⟨ts', -, rfl⟩ := Option.map_eq_some_iff.mp h
      exact (FirstToken.operator (.inl rfl)).here

theorem first_after_dash {y : Bytes} {ts : List Token} (h : sqlLexer.read .dash y = some ts)
    (ih : ∀ x ts, x.length < y.length → sqlLexer.read .gap x = some ts → BlankFirst x ts) : BlankFirst (dash :: y) ts := by
  have operator : ∀ {y c ts'}, c = dash ∨ c = 0 → ts = .punct c :: ts' → BlankFirst y ts := by
    rintro y c ts' hc rfl
    exact (FirstToken.operator (.inr hc)).here
  cases y with
  | nil =>
    cases h
    exact operator (.inl rfl) rfl
  | cons c y =>
    by_cases hc : c = dash
    · subst hc
      rw [sqlLexer.read_cons_silent (t := .dashes) rfl] at h
      cases y with
      | nil =>
        cases h
        exact (FirstToken.comment ⟨[], by simp, .inr ⟨rfl, by simp⟩⟩).here
      | cons d y =>
        by_cases hn : d = newline
        · subst hn
          rw [sqlLexer.read_cons_silent (t := .gap) rfl] at h
          exact (ih y ts (by simp only [List.length_cons]; omega) h).line (y := [dash, dash]) ⟨[], by simp, .inr ⟨rfl, by simp⟩⟩
        by_cases h0 : d = 0
        · subst h0
          rw [sqlLexer.read_cons (s := .dashes) (t := .gap) (o := [.punct 0]) rfl] at h
          obtain ⟨ts', -, rfl⟩ := Option.map_eq_some_iff.mp h
          exact operator (.inr rfl) rfl
        by_cases hopen : opensLine d = true
        · rw [sqlLexer.read_cons_silent (t := .line) (by simp [sqlLexer, lexStep, hn, h0, hopen])] at h
          refine first_after_line (u := [dash, dash, d]) (fun z hz => ?_) h fun x ts hx =>
            ih x ts (by simp only [List.length_cons]; omega)
          refine ⟨d :: z, List.forall_mem_cons.mpr ⟨⟨hn, h0⟩, hz⟩, .inr ⟨rfl, ?_⟩⟩
          rintro _ ⟨⟩
          exact hopen
        by_cases hdash : d = dash
        · subst hdash
          rw [sqlLexer.read_cons (s := .dashes) (t := .dashes) (o := [.punct dash]) rfl] at h
          obtain ⟨ts', -, rfl⟩ := Option.map_eq_some_iff.mp h
          exact operator (.inl rfl) rfl
        · rw [read_flush (s := .dashes) (o := [.punct dash, .punct dash])
            (by simp [lexStep, hn, h0, hopen, hdash])] at h
          obtain ⟨ts', -, rfl⟩ := Option.map_eq_some_iff.mp h
          exact operator (.inl rfl) rfl
    · rw [read_flush (s := .dash) (o := [.punct dash]) (by simp [lexStep, hc])] at h
      obtain ⟨ts', -, rfl⟩ := Option.map_eq_some_iff.mp h
      exact operator (.inl rfl) rfl

theorem read_gap_first : ∀ {y : Bytes} {ts : List Token}, sqlLexer.read .gap y = some ts → BlankFirst y ts
  | [], ts, h => by
    cases h
    exact FirstToken.none.here
  | c :: y, ts, h => by
    by_cases h₁ : isSqlSpace c = true
    · rw [sqlLexer.read_cons_silent (t := .gap) (by simp [sqlLexer, lexStep, fromGap, h₁])] at h
      exact (read_gap_first h).space h₁
    by_cases h₂ : isQuote c = true
    · rw [sqlLexer.read_cons_silent (t := .str c []) (by simp [sqlLexer, lexStep, fromGap, h₁, h₂])] at h
      exact (FirstToken.literal h₂ h).here
    by_cases h₃ : isWordByte c = true
    · rw [sqlLexer.read_cons_silent (t := .word [c]) (by simp [sqlLexer, lexStep, fromGap, h₁, h₂, h₃])] at h
      obtain ⟨v, rest, ts', rfl, -, rfl, hr⟩ := read_word_cases h
      exact (FirstToken.word (w := [c] ++ v) (by simp) hr).here
    by_cases h₄ : c = hash
    · subst h₄
      rw [sqlLexer.read_cons_silent (t := .line) rfl] at h
      have ih : ∀ x ts, x.length < y.length → sqlLexer.read .gap x = some ts → BlankFirst x ts := fun x ts hx hr => by
        have : x.length < (hash :: y).length := by simp only [List.length_cons]; omega
        exact read_gap_first hr
      exact first_after_line (u := [hash]) (fun z hz => ⟨z, hz, .inl rfl⟩) h ih
    by_cases h₅ : c = slash
    · subst h₅
      rw [sqlLexer.read_cons_silent (t := .slash) rfl] at h
      exact first_after_slash h fun x ts hx hr => by
        have : x.length < (slash :: y).length := by simp only [List.length_cons]; omega
        exact read_gap_first hr
    by_cases h₆ : c = dash
    · subst h₆
      rw [sqlLexer.read_cons_silent (t := .dash) rfl] at h
      exact first_after_dash h fun x ts hx hr => by
        have : x.length < (dash :: y).length := by simp only [List.length_cons]; omega
        exact read_gap_first hr
    rw [sqlLexer.read_cons (t := .gap) (o := [.punct c])
      (by simp [sqlLexer, lexStep, fromGap, h₁, h₂, h₃, h₄, h₅, h₆])] at h
    obtain ⟨ts', hr, rfl⟩ := Option.map_eq_some_iff.mp h
    exact (FirstToken.punct hr).here
termination_by y => y.length

/-! ## Tokens and their texts -/

/-- The digits of an integer literal. -/
def IntText (n : Nat) (d : Bytes) : Prop := d ≠ [] ∧ d.all isDigit = true ∧ digitsVal d = n ∧ n < 2 ^ 64

instance (n : Nat) (d : Bytes) : Decidable (IntText n d) := inferInstanceAs (Decidable (_ ∧ _))

theorem wordToken_int {w : Bytes} {n : Nat} (hw : w ≠ []) : wordToken w = .int n ↔ IntText n w := by
  rw [wordToken, IntText]
  split
  · rename_i h
    simp only [Bool.and_eq_true, decide_eq_true_eq] at h
    rw [Token.int.injEq]
    constructor
    · rintro rfl
      exact ⟨hw, h.1, rfl, h.2⟩
    · exact fun h => h.2.2.1
  · rename_i h
    constructor
    · nofun
    · rintro ⟨-, hd, rfl, hn⟩
      exact absurd (Bool.and_eq_true_iff.mpr ⟨hd, decide_eq_true hn⟩) h

theorem read_str_head {q : Byte} {x s : Bytes} {ts : List Token} (h : sqlLexer.read (.str q s) x = some ts) :
    ∃ d ts', ts = .str d :: ts' := by
  obtain ⟨_, _, d, ts', -, rfl, -⟩ := read_str x s h
  exact ⟨s ++ d, ts', rfl⟩

theorem read_int {y : Bytes} {n : Nat} {ts : List Token} (h : sqlLexer.read .gap y = some (.int n :: ts)) :
    ∃ a d rest, y = a ++ (d ++ rest) ∧ Blank a ∧ IntText n d ∧ sqlLexer.read .gap rest = some ts := by
  obtain ⟨a, z, rfl, ha, hz⟩ := read_gap_first h
  generalize hts : Token.int n :: ts = l at hz
  cases hz with
  | none | comment | punct | operator => cases hts
  | literal _ hr =>
    obtain ⟨d, ts', rfl⟩ := read_str_head hr
    cases hts
  | word hw hr =>
    obtain ⟨hn, rfl⟩ := List.cons.inj hts
    exact ⟨a, _, _, rfl, ha, (wordToken_int hw).mp hn.symm, hr⟩

theorem read_gap_punct {y : Bytes} {c : Byte} {ts : List Token} (hs : c ≠ slash) (hd : c ≠ dash) (h0 : c ≠ 0)
    (h : sqlLexer.read .gap y = some (.punct c :: ts)) :
    ∃ pre rest, y = pre ++ c :: rest ∧ Blank pre ∧ sqlLexer.read .gap rest = some ts := by
  obtain ⟨a, z, rfl, ha, hz⟩ := read_gap_first h
  generalize hts : Token.punct c :: ts = l at hz
  cases hz with
  | none | comment => cases hts
  | literal _ hr =>
    obtain ⟨d, ts', rfl⟩ := read_str_head hr
    cases hts
  | word hw hr => exact absurd (List.cons.inj hts).1.symm (wordToken_ne_punct _ c)
  | punct hr =>
    cases hts
    exact ⟨a, _, rfl, ha, hr⟩
  | operator hc =>
    cases hts
    rcases hc with rfl | rfl | rfl
    · exact absurd rfl hs
    · exact absurd rfl hd
    · exact absurd rfl h0

/-- A literal read from between tokens: its opening quote, its text, its
closing quote and the rest. -/
theorem read_gap_str {y d : Bytes} {ts : List Token} (h : sqlLexer.read .gap y = some (.str d :: ts)) :
    ∃ pre q body rest, isQuote q = true ∧ y = pre ++ q :: (body ++ q :: rest) ∧
      sqlLexer.read .gap rest = some ts ∧ d.length ≤ body.length ∧
      (d.length = body.length → d = body ∧ (q = quote → selfReading body = true)) := by
  obtain ⟨a, z, rfl, -, hz⟩ := read_gap_first h
  generalize hl : Token.str d :: ts = l at hz
  cases hz with
  | none | comment | punct | operator => cases hl
  | word => exact absurd (List.cons.inj hl).1.symm (wordToken_ne_str _ d)
  | literal hq hr =>
    subst hl
    obtain ⟨body, rest, d', ts', rfl, hts, hrest, hlen, hd⟩ := read_str _ [] hr
    simp only [List.nil_append, List.cons.injEq, Token.str.injEq] at hts
    obtain ⟨rfl, rfl⟩ := hts
    exact ⟨a, _, body, rest, hq, rfl, hrest, hlen, hd⟩

theorem read_end {y : Bytes} (h : sqlLexer.read .gap y = some []) : Ending y := by
  obtain ⟨a, z, rfl, ha, hz⟩ := read_gap_first h
  generalize hts : ([] : List Token) = l at hz
  cases hz with
  | none => exact ⟨a, [], rfl, ha, .inl rfl⟩
  | comment hy => exact ⟨a, z, rfl, ha, .inr hy⟩
  | literal _ hr =>
    obtain ⟨d, ts', rfl⟩ := read_str_head hr
    cases hts
  | word | punct | operator => cases hts

/-! ## Two integers -/

/-- Two integer literals with a comma between them, and blanks around them. -/
def TwoInts (n m : Nat) (x : Bytes) : Prop :=
  ∃ a d b c e t, x = a ++ (d ++ (b ++ comma :: (c ++ (e ++ t)))) ∧ Blank a ∧ IntText n d ∧ Blank b ∧ Blank c ∧
    IntText m e ∧ Ending t

theorem feed_intText {d : Bytes} {n : Nat} (h : IntText n d) : sqlLexer.feed .gap d = some (.word d, []) :=
  feed_plain h.1 fun c hc => .inr (List.all_eq_true.mp h.2.1 c hc)

theorem read_intText {d y : Bytes} {n : Nat} (h : IntText n d) (hy : ∀ c ∈ y.head?, isWordByte c = false) :
    sqlLexer.read .gap (d ++ y) = (sqlLexer.read .gap y).map (.int n :: ·) := by
  rw [sqlLexer.read_append (feed_intText h)]
  have htoken : wordToken d = .int n := (wordToken_int h.1).mpr h
  cases y with
  | nil =>
    rw [sqlLexer.read_nil, sqlLexer.read_nil]
    change (some [wordToken d]).map _ = _
    rw [htoken]
    rfl
  | cons c y =>
    rw [read_flush (s := .word d) (o := [wordToken d]) (by simp [lexStep, hy c rfl]), htoken, Option.map_map]
    rfl

theorem LineComment.head {y : Bytes} (h : LineComment y) : ∃ c x, y = c :: x ∧ isWordByte c = false := by
  obtain ⟨z, -, rfl | ⟨rfl, -⟩⟩ := h
  · exact ⟨hash, z, rfl, rfl⟩
  · exact ⟨dash, _, rfl, rfl⟩

theorem isSqlSpace_not_word {c : Byte} (h : isSqlSpace c = true) : isWordByte c = false := by
  simp only [isSqlSpace, isWordByte, isLetter, isUpper, isLower, isDigit, Bool.or_eq_true, Bool.and_eq_true, beq_iff_eq,
    decide_eq_true_eq, bne, Bool.and_eq_false_iff, Bool.or_eq_false_iff, decide_eq_false_iff_not,
    beq_eq_false_iff_ne, Bool.not_eq_false'] at *
  grind

/-- Blanks end a word. -/
theorem Blank.head {a : Bytes} (h : Blank a) {y : Bytes} (hy : ∀ c ∈ y.head?, isWordByte c = false) :
    ∀ c ∈ (a ++ y).head?, isWordByte c = false := by
  cases h with
  | nil => exact hy
  | space hc _ =>
    rintro _ ⟨⟩
    exact isSqlSpace_not_word hc
  | line hz _ =>
    obtain ⟨c, x, rfl, hc⟩ := hz.head
    rintro _ ⟨⟩
    exact hc
  | block hz _ =>
    obtain ⟨z, rfl, -⟩ := hz
    rintro _ ⟨⟩
    rfl

theorem Ending.head {t : Bytes} (h : Ending t) : ∀ c ∈ t.head?, isWordByte c = false := by
  obtain ⟨a, z, rfl, ha, hz⟩ := h
  apply ha.head
  intro c hc
  rcases hz with rfl | hz
  · cases hc
  · obtain ⟨d, x, rfl, hd⟩ := hz.head
    cases hc
    exact hd

theorem read_twoInts_iff {x : Bytes} {n m : Nat} :
    sqlLexer.read .gap x = some [.int n, .punct comma, .int m] ↔ TwoInts n m x := by
  constructor
  · intro h
    obtain ⟨a, d, y, rfl, ha, hd, hy⟩ := read_int h
    obtain ⟨b, z, rfl, hb, hz⟩ := read_gap_punct (by decide) (by decide) (by decide) hy
    obtain ⟨c, e, t, rfl, hc, he, ht⟩ := read_int hz
    exact ⟨a, d, b, c, e, t, rfl, ha, hd, hb, hc, he, read_end ht⟩
  · rintro ⟨a, d, b, c, e, t, rfl, ha, hd, hb, hc, he, ht⟩
    have hcomma : ∀ y, sqlLexer.read .gap (comma :: y) = (sqlLexer.read .gap y).map (.punct comma :: ·) := fun y =>
      sqlLexer.read_cons (t := .gap) (o := [.punct comma]) rfl y
    rw [read_blank ha, read_intText hd (hb.head fun c hc => by cases hc; rfl), read_blank hb, hcomma, read_blank hc,
      read_intText he ht.head, read_ending ht]
    rfl

end Vortex
