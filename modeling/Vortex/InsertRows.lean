import Vortex.SqlShape

/-!
# The rows an INSERT brings

Request text can end a literal early, but the sanitiser takes its parentheses
away. A row ends with a parenthesis, so only the extension, which nobody
sanitises, can end one before the statement does; without a quote it cannot
start another.
-/

namespace Vortex

open Ascii

/-! ## Operators and literals in a text -/

theorem fromGap_emits (c : Byte) :
    (fromGap c).2 = [] ∨ ((fromGap c).2 = [.punct c] ∧ (fromGap c).1 = .gap) := by
  unfold fromGap
  repeat' split
  all_goals first | exact .inl rfl | exact .inr ⟨rfl, rfl⟩

/-- How far the reader is in a literal, counted in quotes. -/
def LexState.quotes : LexState → Nat
  | .str q _ | .esc q _ => if isQuote q then 1 else 2
  | .quote _ _ => 2
  | _ => 0

def quoteCost (c : Byte) : Nat := if isQuote c then 1 else 0

theorem quotes_of_quiet {s : LexState} (h : s.quiet = true) : s.quotes = 0 := by
  cases s <;> first | rfl | cases h

theorem Silent.quotes {s s' : LexState} {c : Byte} (h : Silent s c s') : s'.quotes ≤ s.quotes + quoteCost c := by
  cases h with
  | word => exact Nat.zero_le _
  | char | escape | escaped => exact Nat.le_add_right _ _
  | close =>
    simp only [LexState.quotes, quoteCost]
    split <;> omega
  | doubled =>
    simp only [LexState.quotes]
    split <;> omega
  | between _ _ h =>
    rw [quotes_of_quiet h]
    exact Nat.zero_le _

theorem pending_punct {s : LexState} {d : Byte} (hs : d ≠ Ascii.slash) (hd : d ≠ Ascii.dash) : .punct d ∉ s.pending := by
  cases s <;> simp [LexState.pending, hs, hd, (wordToken_ne_punct _ d).symm]

/-- An operator token comes from its own byte and leaves the reader between
tokens. -/
theorem lexStep_punct {s s' : LexState} {c d : Byte} {out pre post : List Token} (hs : d ≠ Ascii.slash)
    (hd : d ≠ Ascii.dash) (h : lexStep s c = some (s', out)) (ho : out = pre ++ .punct d :: post) :
    d = c ∧ s' = .gap ∧ post = [] := by
  rcases lexStep_cases h with ⟨ts, hts, hf⟩ | ⟨rfl, -⟩ | ⟨-, rfl⟩
  · obtain ⟨rfl, rfl⟩ := Prod.mk.inj hf
    have hno : Token.punct d ∉ ts := by
      rcases hts with rfl | rfl
      · exact pending_punct hs hd
      · exact List.not_mem_nil
    rcases fromGap_emits c with hg | ⟨hg, hs'⟩
    · rw [hg, List.append_nil] at ho
      exact absurd (by rw [ho]; simp) hno
    · rw [hg] at ho
      have hm : Token.punct d ∈ ts ++ [.punct c] := by
        rw [ho]
        simp
      refine ⟨by simpa [hno] using hm, hs', ?_⟩
      by_contra hpost
      have hl := congrArg List.dropLast ho
      rw [List.dropLast_concat, List.dropLast_append_of_ne_nil (by simp), List.dropLast_cons_of_ne_nil hpost] at hl
      exact hno (by rw [hl]; simp)
  · simp at ho
  · have hm : Token.punct d ∈ [Token.punct Ascii.dash] := by
      rw [ho]
      simp
    exact absurd (by simpa using hm) hd

theorem lexFinish_pending {s : LexState} {out : List Token} (h : lexFinish s = some out) :
    out = s.pending ∨ out = [] := by
  cases s <;> cases h
  case word | quote | slash | dash => exact .inl rfl
  all_goals exact .inr rfl

theorem read_split_punct {d : Byte} (hs : d ≠ Ascii.slash) (hd : d ≠ Ascii.dash) :
    ∀ (y : Bytes) {s : LexState} {pre ts : List Token}, sqlLexer.read s y = some (pre ++ .punct d :: ts) →
      ∃ y₁ y₂, y = y₁ ++ d :: y₂ ∧ sqlLexer.read .gap y₂ = some ts
  | [], s, pre, ts, h => by
    rw [sqlLexer.read_nil] at h
    rcases lexFinish_pending h with he | he
    · exact absurd (by rw [← he]; simp) (pending_punct (s := s) hs hd)
    · simp at he
  | c :: y, s, pre, ts, h => by
    obtain ⟨s', o, o', hst, hr, he⟩ := sqlLexer.read_cons_some h
    have later : ∀ pre', o' = pre' ++ .punct d :: ts →
        ∃ y₁ y₂, c :: y = y₁ ++ d :: y₂ ∧ sqlLexer.read .gap y₂ = some ts := by
      intro pre' ho'
      obtain ⟨y₁, y₂, rfl, hy⟩ := read_split_punct hs hd y (by rw [hr, ho'])
      exact ⟨c :: y₁, y₂, rfl, hy⟩
    rcases List.append_eq_append_iff.mp he with ⟨a, ho, ha⟩ | ⟨a, -, ha⟩
    · cases a with
      | nil => exact later [] ha.symm
      | cons t a =>
        obtain ⟨rfl, ha⟩ := List.cons.inj ha
        obtain ⟨rfl, rfl, rfl⟩ := lexStep_punct hs hd hst ho
        exact ⟨[], y, rfl, hr.trans (congrArg some (List.cons.inj ha).2.symm)⟩
    · exact later a ha

def Token.quotes : Token → Nat
  | .str _ => 2
  | _ => 0

theorem fromGap_quotes (c : Byte) :
    ((fromGap c).2.map Token.quotes).sum + (fromGap c).1.quotes ≤ quoteCost c := by
  unfold fromGap
  split
  · simp [LexState.quotes]
  · split
    · rename_i hq
      simp [LexState.quotes, quoteCost, hq]
    · repeat' split
      all_goals simp [LexState.quotes, Token.quotes]

theorem pending_quotes (s : LexState) : (s.pending.map Token.quotes).sum ≤ s.quotes := by
  cases s with
  | word w =>
    simp only [LexState.pending, wordToken]
    split <;> simp [Token.quotes]
  | _ => simp [LexState.pending, LexState.quotes, Token.quotes]

/-- Each literal of a text takes two of its quotes. -/
theorem read_quotes {y : Bytes} {ts : List Token} (h : sqlLexer.read .gap y = some ts) :
    (ts.map Token.quotes).sum ≤ (y.map quoteCost).sum := by
  have step : ∀ s c s' out, lexStep s c = some (s', out) →
      (out.map Token.quotes).sum + s'.quotes ≤ s.quotes + quoteCost c := by
    intro s c s' out hst
    rcases lexStep_cases hst with ⟨ts, hts, hf⟩ | ⟨rfl, hq⟩ | ⟨rfl, rfl⟩
    · obtain ⟨rfl, rfl⟩ := Prod.mk.inj hf
      have h₁ : (ts.map Token.quotes).sum ≤ s.quotes := by
        rcases hts with rfl | rfl
        · exact pending_quotes s
        · exact Nat.zero_le _
      have h₂ := fromGap_quotes c
      simp only [List.map_append, List.sum_append]
      omega
    · simpa using hq.quotes
    · exact Nat.zero_le _
  rw [← List.append_nil y] at h
  obtain ⟨s, o, o', hf, hr, rfl⟩ := sqlLexer.read_append_some h
  have hp := sqlLexer.feed_potential LexState.quotes quoteCost Token.quotes step hf
  have hz : (o'.map Token.quotes).sum ≤ s.quotes := by
    rw [sqlLexer.read_nil] at hr
    rcases lexFinish_pending hr with rfl | rfl
    · exact pending_quotes s
    · exact Nat.zero_le _
  have h0 : LexState.gap.quotes = 0 := rfl
  simp only [List.map_append, List.sum_append]
  omega

/-! ## One row -/

theorem closing_of_seven {o c₁ c₂ c₃ c₄ c₅ c₆ c₇ : Byte} (h : [o, c₁, c₂, c₃, c₄, c₅, c₆, c₇] = str "(,,,,,,)") :
    c₇ = rparen := by
  have := congrArg List.getLast? h
  simpa [str] using this

theorem str_of_parseRows {ts : List Token} {vs : List Values} (h : parseRows ts = some vs) : ∃ s, .str s ∈ ts := by
  unfold parseRows at h
  split at h
  · exact ⟨_, List.mem_cons_of_mem _ (List.mem_cons_self ..)⟩
  · cases h

theorem parseRows_more {ts : List Token} {v v' : Values} {vs : List Values} (h : parseRows ts = some (v :: v' :: vs)) :
    ∃ pre ts' s, ts = pre ++ .punct rparen :: ts' ∧ .str s ∈ ts' := by
  unfold parseRows at h
  split at h
  · rename_i o u c₁ d c₂ n c₃ e c₄ b c₅ t c₆ x c₇ ts
    split at h
    · rename_i hc
      obtain rfl := closing_of_seven hc
      repeat' split at h
      · cases h
      · cases h
      · cases h
      · obtain ⟨ws, hws, he⟩ := Option.map_eq_some_iff.mp h
        obtain ⟨s, hs⟩ := str_of_parseRows hws
        exact ⟨[.punct o, .str u, .punct c₁, .str d, .punct c₂, .str n, .punct c₃, .str e, .punct c₄, .str b, .punct c₅,
          .str t, .punct c₆, .str x], _, s, rfl, List.mem_cons_of_mem _ hs⟩
      · cases h
      · cases h
    · cases h
  · cases h

theorem parseRows_ne_nil {ts : List Token} {vs : List Values} (h : parseRows ts = some vs) : vs ≠ [] := by
  unfold parseRows at h
  split at h
  · split at h
    · repeat' split at h
      · cases h
        simp
      · cases h
        simp
      · cases h
      · obtain ⟨ws, -, rfl⟩ := Option.map_eq_some_iff.mp h
        simp
      · cases h
      · cases h
    · cases h
  · cases h

def openText (fs : List Bytes) : Bytes := fs.flatMap fun f => quote :: (f ++ str "', ")

theorem literalsText_snoc : ∀ (fs : List Bytes) (x : Bytes),
    literalsText (fs ++ [x]) = openText fs ++ quote :: (x ++ str "')")
  | [], x => rfl
  | [f], x => by simp [literalsText, openText]
  | f :: g :: fs, x => by
    have ih := literalsText_snoc (g :: fs) x
    rw [List.cons_append] at ih
    rw [List.cons_append, List.cons_append, literalsText, ih]
    simp [openText]

theorem rparen_not_mem_openText {fs : List Bytes} (h : ∀ f ∈ fs, rparen ∉ f) : rparen ∉ openText fs := by
  intro hm
  simp only [openText, List.mem_flatMap, List.mem_cons, List.mem_append] at hm
  obtain ⟨f, hf, hm | hm | hm⟩ := hm
  · cases hm
  · exact h f hf hm
  · exact absurd hm (by decide)

theorem suffix_of_not_mem {α : Type*} {c : α} {x y z w : List α} (h : x ++ c :: y = z ++ w) (hz : c ∉ z) :
    c :: y <:+ w := by
  rcases List.append_eq_append_iff.mp h with ⟨a, rfl, hw⟩ | ⟨a, -, rfl⟩
  · cases a with
    | nil => exact ⟨[], hw⟩
    | cons d a =>
      obtain ⟨rfl, -⟩ := List.cons.inj hw
      simp at hz
  · exact List.suffix_append _ _

theorem sum_quoteCost_of_clean {x : Bytes} (h : ∀ c ∈ x, isQuote c = false) : (x.map quoteCost).sum = 0 := by
  induction x with
  | nil => rfl
  | cons c x ih =>
    have hc := h c (List.mem_cons_self ..)
    rw [List.map_cons, List.sum_cons, ih fun d hd => h d (List.mem_cons_of_mem _ hd), quoteCost, hc]
    rfl

/-- Values without a closing parenthesis and a last one without quotes make one
row, if any. -/
theorem one_row {fs : List Bytes} {x : Bytes} {ts : List Token} {vs : List Values} (hfs : ∀ f ∈ fs, rparen ∉ f)
    (hx : ∀ c ∈ x, isQuote c = false) (hr : sqlLexer.read .gap (literalsText (fs ++ [x])) = some ts)
    (hp : parseRows (.punct lparen :: ts) = some vs) : ∃ v, vs = [v] := by
  cases vs with
  | nil => exact absurd rfl (parseRows_ne_nil hp)
  | cons v vs =>
    cases vs with
    | nil => exact ⟨v, rfl⟩
    | cons v' vs =>
      exfalso
      obtain ⟨pre, ts', s, he, hs⟩ := parseRows_more hp
      cases pre with
      | nil => cases (List.cons.inj he).1
      | cons t pre =>
        obtain ⟨-, rfl⟩ := List.cons.inj he
        obtain ⟨y₁, y₂, hy, hr'⟩ := read_split_punct (by decide) (by decide) _ hr
        have hopen : rparen ∉ openText fs ++ [quote] := by
          intro hm
          rcases List.mem_append.mp hm with hm | hm
          · exact rparen_not_mem_openText hfs hm
          · exact absurd hm (by decide)
        rw [literalsText_snoc, ← List.singleton_append, ← List.append_assoc] at hy
        -- behind the parenthesis at most the closing quote is left
        have hsuf : y₂ <:+ x ++ str "')" := (List.suffix_cons _ _).trans (suffix_of_not_mem hy.symm hopen)
        have hcost : (y₂.map quoteCost).sum ≤ 1 := by
          obtain ⟨z, hz⟩ := hsuf
          have := congrArg (fun l => (l.map quoteCost).sum) hz
          simp only [List.map_append, List.sum_append, sum_quoteCost_of_clean hx] at this
          have h1 : ((str "')").map quoteCost).sum = 1 := by decide +kernel
          omega
        have htwo : 2 ≤ (ts'.map Token.quotes).sum := by
          obtain ⟨l₁, l₂, rfl⟩ := List.append_of_mem hs
          simp only [List.map_append, List.map_cons, List.sum_append, List.sum_cons, Token.quotes]
          omega
        have := read_quotes hr'
        omega

theorem readInsert_insertText (v : Values) :
    readInsert (insertText v) =
      (sqlLexer.read .gap (literalsText v.fields)).bind fun ts => parseRows (.punct lparen :: ts) := by
  rw [readInsert, lexSql_insertText]
  cases sqlLexer.read .gap (literalsText v.fields) with
  | none => rfl
  | some ts =>
    have hstrip : stripHead insertHead (insertHead ++ .punct lparen :: ts) = some (.punct lparen :: ts) := by
      rw [stripHead, if_pos (by simp)]
      simp
    simp [hstrip]

theorem rparen_not_mem_verifyInput (x : Bytes) : rparen ∉ verifyInput x := fun h => (mem_strtrParens h).2.2 rfl

theorem rparen_not_mem_inert {x : Bytes} (h : ∀ c ∈ x, isInert c = true) : rparen ∉ x := fun hm =>
  inert_ne (h _ hm) rfl rfl

def Values.front (v : Values) : List Bytes := [v.uuid, v.duration, v.name, v.description, v.bitrate, v.title]

theorem rparen_not_mem_front (q : Request) (a : Attributes) : ∀ f ∈ (q.values a).front, rparen ∉ f := by
  simp only [Values.front, Request.values, List.forall_mem_cons]
  exact ⟨rparen_not_mem_inert a.uuid.inert, rparen_not_mem_inert a.duration.inert, rparen_not_mem_verifyInput _,
    rparen_not_mem_verifyInput _, rparen_not_mem_inert a.bitrate.inert, rparen_not_mem_verifyInput _, by simp⟩

theorem insert_one_row {q : Request} {a : Attributes} {vs : List Values} (hx : ∀ c ∈ q.ext, isQuote c = false)
    (h : readInsert (insertText (q.values a)) = some vs) : ∃ v, vs = [v] := by
  rw [readInsert_insertText] at h
  obtain ⟨ts, hr, hp⟩ := Option.bind_eq_some_iff.mp h
  have htext : (q.values a).fields = (q.values a).front ++ [q.ext] := rfl
  rw [htext] at hr
  exact one_row (rparen_not_mem_front q a) hx hr hp

/-! ## The row of a plain extension -/

def LexState.proper : LexState → Bool
  | .str q _ | .esc q _ | .quote q _ => isQuote q
  | _ => true

theorem fromGap_proper (c : Byte) : (fromGap c).1.proper = true := by
  unfold fromGap
  split
  · rfl
  · split
    · rename_i hq
      exact hq
    · repeat' split
      all_goals rfl

theorem lexStep_proper {s s' : LexState} {c : Byte} {out : List Token} (h : lexStep s c = some (s', out))
    (hs : s.proper = true) : s'.proper = true := by
  rcases lexStep_cases h with ⟨ts, -, hf⟩ | ⟨-, hq⟩ | ⟨rfl, -⟩
  · obtain ⟨rfl, -⟩ := Prod.mk.inj hf
    exact fromGap_proper c
  · cases hq with
    | between _ _ hq => cases s' <;> first | rfl | cases hq
    | word => rfl
    | _ => exact hs
  · rfl

theorem lexStep_space {s s' : LexState} {out : List Token} (hs : s.proper = true)
    (h : lexStep s space = some (s', out)) :
    s' = .gap ∨ s' = .line ∨ s' = .block ∨ (∃ z, s' = .str quote z) ∨ ∃ z, s' = .str dquote z := by
  have literal : ∀ q z, isQuote q = true → s' = .str q z → (∃ z, s' = .str quote z) ∨ ∃ z, s' = .str dquote z := by
    intro q z hq he
    have : q = quote ∨ q = dquote := by simpa [isQuote] using hq
    rcases this with rfl | rfl
    · exact .inl ⟨z, he⟩
    · exact .inr ⟨z, he⟩
  cases s with
  | gap | word | slash | dash => cases h; exact .inl rfl
  | dashes | line => cases h; exact .inr (.inl rfl)
  | opened | block | star => cases h; exact .inr (.inr (.inl rfl))
  | esc q z =>
    cases h
    exact .inr (.inr (.inr (literal q _ hs rfl)))
  | str q z =>
    have hne : space ≠ q := by
      rintro rfl
      cases hs
    simp only [lexStep, hne, ite_false] at h
    cases h
    exact .inr (.inr (.inr (literal q _ hs rfl)))
  | quote q z =>
    have hne : space ≠ q := by
      rintro rfl
      cases hs
    simp only [lexStep, hne, ite_false] at h
    cases h
    exact .inl rfl

/-- The end of the statement, after the blank that precedes the extension: it
is a literal and the parenthesis, or nothing, or no text of tokens at all. -/
theorem read_plain_end {s : LexState} {x : Bytes} (hne : x ≠ []) (hx : ∀ c ∈ x, isLower c = true ∨ isDigit c = true)
    (hs : s = .gap ∨ s = .line ∨ s = .block ∨ (∃ z, s = .str quote z) ∨ ∃ z, s = .str dquote z) {ts : List Token}
    (h : sqlLexer.read s (quote :: (x ++ str "')")) = some ts) : ts = [.str x, .punct rparen] ∨ ts = [] := by
  have ne : ∀ d, isLower d = false → isDigit d = false → ∀ c ∈ x, c ≠ d := by
    rintro d h₁ h₂ c hc rfl
    rcases hx c hc with h | h
    · rw [h₁] at h; cases h
    · rw [h₂] at h; cases h
  have mem : ∀ c ∈ quote :: (x ++ str "')"), c = quote ∨ c = rparen ∨ c ∈ x := by
    intro c hc
    simp only [List.mem_cons, List.mem_append] at hc
    rcases hc with hc | hc | hc
    · exact .inl hc
    · exact .inr (.inr hc)
    · have : c ∈ [quote, rparen] := hc
      simp only [List.mem_cons, List.not_mem_nil, or_false] at this
      rcases this with h | h
      · exact .inl h
      · exact .inr (.inl h)
  rcases hs with rfl | rfl | rfl | ⟨z, rfl⟩ | ⟨z, rfl⟩
  · have hself : selfReading x = true :=
      selfReading_of_clean fun c hc => ⟨ne quote rfl rfl c hc, ne backslash rfl rfl c hc⟩
    have hr := read_literals_of_selfReading (l := [x]) (by simp) (by simpa using hself)
    exact .inl (Option.some.inj (h.symm.trans hr))
  · have hst := sqlLexer.feed_stay (s := .line) (x := quote :: (x ++ str "')")) fun c hc => by
      have hn : c ≠ newline ∧ c ≠ 0 := by
        rcases mem c hc with rfl | rfl | hc
        · decide
        · decide
        · exact ⟨ne newline rfl rfl c hc, ne 0 rfl rfl c hc⟩
      simp [sqlLexer, lexStep, hn]
    rw [Transducer.read, hst] at h
    exact .inr (Option.some.inj h).symm
  · have hst := sqlLexer.feed_stay (s := .block) (x := quote :: (x ++ str "')")) fun c hc => by
      have hn : c ≠ Ascii.star := by
        rcases mem c hc with rfl | rfl | hc
        · decide
        · decide
        · exact ne Ascii.star rfl rfl c hc
      simp [sqlLexer, lexStep, blockStep, hn]
    rw [Transducer.read, hst] at h
    cases h
  -- the open literal ends here, the extension is a word, and the last quote opens another
  · have hplain : ∀ c ∈ x, isLetter c = true ∨ isDigit c = true := fun c hc =>
      (hx c hc).imp_left fun h => by simp [isLetter, h]
    have hnone : sqlLexer.read (.word x) (str "')") = none := by
      rw [show str "')" = quote :: [rparen] from rfl, read_flush (s := .word x) (o := [wordToken x]) rfl]
      rfl
    obtain ⟨c, y, hxc⟩ := List.exists_cons_of_ne_nil hne
    have hc : c ≠ quote := ne quote rfl rfl c (by rw [hxc]; exact List.mem_cons_self ..)
    have hflush := read_flush (s := .quote quote z) (o := [.str z]) (c := c) (by simp [lexStep, hc]) (y ++ str "')")
    rw [← List.cons_append, ← hxc, sqlLexer.read_append (feed_plain hne hplain), hnone] at hflush
    rw [sqlLexer.read_cons_silent (t := .quote quote z) rfl, hflush] at h
    cases h
  · have hst := sqlLexer.feed_collect (.str dquote) (x := quote :: (x ++ str "')")) (fun c hc acc => by
      have hn : c ≠ dquote ∧ c ≠ backslash := by
        rcases mem c hc with rfl | rfl | hc
        · decide
        · decide
        · exact ⟨ne dquote rfl rfl c hc, ne backslash rfl rfl c hc⟩
      simp [sqlLexer, lexStep, hn.1, hn.2]) z
    rw [Transducer.read, hst] at h
    cases h

theorem feed_no_rparen {y : Bytes} {s : LexState} {out : List Token} (hy : rparen ∉ y)
    (h : sqlLexer.feed .gap y = some (s, out)) : s.proper = true ∧ ∀ t ∈ out, t ≠ .punct rparen := by
  refine sqlLexer.feed_invariant (I := fun s => s.proper = true) (P := fun t => t ≠ .punct rparen) ?_ rfl h
  intro c hc s s' o hs hst
  refine ⟨lexStep_proper hst hs, ?_⟩
  rintro t ht rfl
  obtain ⟨pre, post, ho⟩ := List.append_of_mem ht
  obtain ⟨rfl, -⟩ := lexStep_punct (by decide) (by decide) hst ho
  exact hy hc

theorem parseRows_one {ts : List Token} {v : Values} (h : parseRows ts = some [v]) :
    ∃ o mid t, ts = .punct o :: .str v.uuid :: (mid ++ [.str v.ext, .punct rparen] ++ t) ∧
      (t = [] ∨ t = [.punct 59]) := by
  unfold parseRows at h
  split at h
  · rename_i o u c₁ d c₂ n c₃ e c₄ b c₅ t c₆ x c₇ ts
    split at h
    · rename_i hc
      obtain rfl := closing_of_seven hc
      have row : ∀ t', (t' = [] ∨ t' = [Token.punct 59]) → v = ⟨u, d, n, e, b, t, x⟩ → ∃ o' mid t'',
          Token.punct o :: .str u :: .punct c₁ :: .str d :: .punct c₂ :: .str n :: .punct c₃ :: .str e :: .punct c₄ ::
            .str b :: .punct c₅ :: .str t :: .punct c₆ :: .str x :: .punct rparen :: t' =
          .punct o' :: .str v.uuid :: (mid ++ [.str v.ext, .punct rparen] ++ t'') ∧
            (t'' = [] ∨ t'' = [.punct 59]) := by
        rintro t' ht rfl
        exact ⟨o, [.punct c₁, .str d, .punct c₂, .str n, .punct c₃, .str e, .punct c₄, .str b, .punct c₅, .str t,
          .punct c₆], t', rfl, ht⟩
      repeat' split at h
      · cases h
        exact row [] (.inl rfl) rfl
      · rename_i hs
        cases h
        subst hs
        exact row [.punct 59] (.inr rfl) rfl
      · cases h
      · obtain ⟨ws, hws, he⟩ := Option.map_eq_some_iff.mp h
        rw [(List.cons.inj he).2] at hws
        exact absurd rfl (parseRows_ne_nil hws)
      · cases h
      · cases h
    · cases h
  · cases h

theorem first_literal {q : Request} {a : Attributes} {ts : List Token}
    (h : sqlLexer.read .gap (literalsText (q.values a).fields) = some ts) : ∃ ts', ts = .str a.uuid.bytes :: ts' := by
  have hhead : literalsText (q.values a).fields = quote :: (a.uuid.bytes ++ quote :: comma :: space ::
      literalsText (q.values a).fields.tail) := by
    simp [literalsText, Values.fields, Request.values, str]
  rw [hhead, feed_literal (decodeLiteral_selfReading (selfReading_of_inert a.uuid.inert)),
    read_after_quote (by decide)] at h
  obtain ⟨ts', -, rfl⟩ := Option.map_eq_some_iff.mp h
  exact ⟨ts', rfl⟩

/-- Where the values end as a row does, the last one is the extension: before
it the reader is between tokens, or it never gets to the parenthesis. -/
theorem last_literal {q : Request} {a : Attributes} (hne : q.ext ≠ [])
    (hx : ∀ c ∈ q.ext, isLower c = true ∨ isDigit c = true) {ts mid t : List Token} {x : Bytes}
    (h : sqlLexer.read .gap (literalsText (q.values a).fields) = some ts)
    (hts : ts = mid ++ [.str x, .punct rparen] ++ t) (ht : t = [] ∨ t = [.punct 59]) : x = q.ext := by
  let front := openText (q.values a).front.dropLast ++ quote :: (verifyInput q.title ++ [quote, comma])
  have htext : literalsText (q.values a).fields = front ++ [space] ++ quote :: (q.ext ++ str "')") := by
    have hsnoc := literalsText_snoc (q.values a).front q.ext
    rw [show (q.values a).fields = (q.values a).front ++ [q.ext] from rfl, hsnoc]
    simp [front, openText, Values.front, Request.values, str]
  have hno : rparen ∉ front := by
    intro hm
    simp only [front, List.mem_append, List.mem_cons, List.not_mem_nil, or_false] at hm
    rcases hm with hm | hm | hm | hm | hm
    · exact rparen_not_mem_openText (fun f hf => rparen_not_mem_front q a f (List.dropLast_subset _ hf)) hm
    · cases hm
    · exact rparen_not_mem_verifyInput _ hm
    · cases hm
    · cases hm
  rw [htext] at h
  obtain ⟨s, o₁, o₂, hf, hr', rfl⟩ := sqlLexer.read_append_some h
  obtain ⟨s₀, o₃, o₄, hf₀, hsp, rfl⟩ := sqlLexer.feed_append_some hf
  obtain ⟨hproper, hout⟩ := feed_no_rparen hno hf₀
  have hspace : lexStep s₀ space = some (s, o₄) := by
    obtain ⟨t, u, w, hu, hw, rfl⟩ := sqlLexer.feed_cons_some hsp
    cases hw
    rw [List.append_nil]
    exact hu
  have hearly : Token.punct rparen ∉ o₃ ++ o₄ := by
    intro hm
    rcases List.mem_append.mp hm with hm | hm
    · exact hout _ hm rfl
    · obtain ⟨pre, post, ho⟩ := List.append_of_mem hm
      exact absurd (lexStep_punct (by decide) (by decide) hspace ho).1 (by decide)
  rcases read_plain_end hne hx (lexStep_space hproper hspace) hr' with rfl | rfl
  · rcases ht with rfl | rfl
    · rw [List.append_nil] at hts
      have := (List.append_inj' hts rfl).2
      exact (Token.str.inj (List.cons.inj this).1).symm
    -- a semicolon would be the last token
    · rw [show [Token.str q.ext, Token.punct rparen] = [.str q.ext] ++ [.punct rparen] from rfl,
        ← List.append_assoc] at hts
      exact absurd (List.append_inj' hts rfl).2 (by decide)
  · rw [List.append_nil] at hts
    exact absurd (by rw [hts]; simp) hearly

theorem insert_plain_row {q : Request} {a : Attributes} {vs : List Values} (hne : q.ext ≠ [])
    (hx : ∀ c ∈ q.ext, isLower c = true ∨ isDigit c = true) (h : readInsert (insertText (q.values a)) = some vs) :
    ∃ v, vs = [v] ∧ v.uuid = a.uuid.bytes ∧ v.ext = q.ext := by
  have hquote : ∀ c ∈ q.ext, isQuote c = false := by
    intro c hc
    simp only [isQuote, Bool.or_eq_false_iff, beq_eq_false_iff_ne]
    constructor
    · rintro rfl
      exact absurd (hx _ hc) (by decide)
    · rintro rfl
      exact absurd (hx _ hc) (by decide)
  obtain ⟨v, rfl⟩ := insert_one_row hquote h
  rw [readInsert_insertText] at h
  obtain ⟨ts, hr, hp⟩ := Option.bind_eq_some_iff.mp h
  obtain ⟨o, mid, t, he, ht⟩ := parseRows_one hp
  have hts := (List.cons.inj he).2
  obtain ⟨ts', hu⟩ := first_literal hr
  rw [hu] at hts
  refine ⟨v, rfl, (Token.str.inj (List.cons.inj hts).1).symm, ?_⟩
  rw [← hu, ← List.cons_append, ← List.cons_append] at hts
  exact last_literal hne hx hr hts ht

end Vortex
