import Vortex.VideoUpload
import Vortex.Index
import Vortex.SqlGaps

/-!
# The shape of the two statements with request text

`literalsText fs` is a list of values as `preparedSQL` quotes them. It reads
as these values exactly when each of them reads back as itself: a value that
swallows its closing quote puts the reader behind (`lag`), and a reader that
is behind never catches up, since a separator is one blank longer than it
needs to be and no comma stands where the blank is.
-/

namespace Vortex

open Ascii

def literalsText : List Bytes → Bytes
  | [] => []
  | [f] => quote :: (f ++ str "')")
  | f :: g :: fs => quote :: (f ++ str "', " ++ literalsText (g :: fs))

def literalTokens : List Bytes → List Token
  | [] => []
  | [f] => [.str f, .punct rparen]
  | f :: g :: fs => .str f :: .punct comma :: literalTokens (g :: fs)

/-- One INSERT of one row whose values are string literals with these contents. -/
def IsOneInsert (text : Bytes) (contents : List Bytes) : Prop :=
  lexSql text = some (insertHead ++ .punct lparen :: literalTokens contents)

def IsOneSelect (text : Bytes) : Prop :=
  ∃ n, lexSql text = some (selectHead ++ [.int n, .punct comma, .int 15])

def Values.fields (v : Values) : List Bytes :=
  [v.uuid, v.duration, v.name, v.description, v.bitrate, v.title, v.ext]

/-! ## Values that read back as themselves -/

theorem decodeLiteral_selfReading {f : Bytes} (h : selfReading f = true) : decodeLiteral f = some f := by
  have hf : sqlLexer.feed (.str quote []) (f ++ [quote]) = some (.quote quote f, []) := by
    rw [sqlLexer.feed_append (feed_selfReading h [])]
    rfl
  unfold decodeLiteral
  rw [hf]
  exact if_pos rfl

theorem feed_literal {f d : Bytes} (h : decodeLiteral f = some d) (y : Bytes) :
    sqlLexer.read .gap (quote :: (f ++ quote :: y)) = sqlLexer.read (.quote quote d) y := by
  have hf := sqlLexer.read_append (decodeLiteral_some h) y
  rw [List.append_assoc, List.singleton_append] at hf
  rw [sqlLexer.read_cons_silent (t := .str quote []) rfl, hf]
  simp

theorem read_after_quote {f : Bytes} {c : Byte} (hc : c ≠ quote) (y : Bytes) :
    sqlLexer.read (.quote quote f) (c :: y) = (sqlLexer.read .gap (c :: y)).map (.str f :: ·) :=
  read_flush (s := .quote quote f) (o := [.str f]) (by simp [lexStep, hc]) y

theorem read_comma_space (y : Bytes) :
    sqlLexer.read .gap (comma :: space :: y) = (sqlLexer.read .gap y).map (.punct comma :: ·) := by
  rw [sqlLexer.read_cons (t := .gap) (o := [.punct comma]) rfl, sqlLexer.read_cons_silent (t := .gap) rfl]
  rfl

theorem read_literals : ∀ {fs ds : List Bytes}, fs ≠ [] → List.Forall₂ (fun f d => decodeLiteral f = some d) fs ds →
    sqlLexer.read .gap (literalsText fs) = some (literalTokens ds)
  | [], _, hne, _ => absurd rfl hne
  | [f], ds, _, h => by
    obtain ⟨d, ds, hd, hs, rfl⟩ := List.forall₂_cons_left_iff.mp h
    cases hs
    change sqlLexer.read .gap (quote :: (f ++ quote :: [rparen])) = _
    rw [feed_literal hd, read_after_quote (by decide)]
    rfl
  | f :: g :: fs, ds, _, h => by
    obtain ⟨d, ds, hd, hs, rfl⟩ := List.forall₂_cons_left_iff.mp h
    have ih := read_literals (by simp) hs
    obtain ⟨e, ds, -, -, rfl⟩ := List.forall₂_cons_left_iff.mp hs
    have htext : literalsText (f :: g :: fs) = quote :: (f ++ quote :: (comma :: space :: literalsText (g :: fs))) := by
      simp [literalsText, str]
    rw [htext, feed_literal hd, read_after_quote (by decide), read_comma_space, ih]
    rfl

theorem read_literals_of_selfReading {l : List Bytes} (hne : l ≠ []) (h : ∀ f ∈ l, selfReading f = true) :
    sqlLexer.read .gap (literalsText l) = some (literalTokens l) :=
  read_literals hne (List.forall₂_same.mpr fun f hf => decodeLiteral_selfReading (h f hf))

/-! ## A reader that is behind stays behind -/

theorem literalsText_cons (f g : Bytes) (fs : List Bytes) :
    literalsText (f :: g :: fs) = quote :: (f ++ [quote, comma]) ++ space :: literalsText (g :: fs) := by
  simp [literalsText, str]

/-- The rest after a comma token is a proper suffix of the values that are
left, once it is no longer than they are. -/
theorem behind_after_comma {f g : Bytes} {fs : List Bytes} {y : Bytes}
    (hy : comma :: y <:+ literalsText (f :: g :: fs)) (hl : y.length ≤ (literalsText (g :: fs)).length) :
    y <:+ literalsText (g :: fs) ∧ y.length < (literalsText (g :: fs)).length := by
  rw [literalsText_cons] at hy
  have hs : comma :: y <:+ space :: literalsText (g :: fs) :=
    List.suffix_of_suffix_length_le hy (List.suffix_append _ _) (by simpa using hl)
  have hlt : (comma :: y).length ≠ (space :: literalsText (g :: fs)).length := by
    intro h
    exact absurd (List.cons.inj (hs.eq_of_length h)).1 (by decide)
  have hl' := hs.length_le
  simp only [List.length_cons] at hl' hlt
  refine ⟨?_, by omega⟩
  exact List.suffix_of_suffix_length_le ((List.suffix_cons _ _).trans hs) (List.suffix_cons _ _) (by omega)

theorem lag : ∀ {fs : List Bytes} {y : Bytes}, fs ≠ [] → y <:+ literalsText fs →
    y.length < (literalsText fs).length → sqlLexer.read .gap y ≠ some (literalTokens fs)
  | [], _, hne, _, _ => absurd rfl hne
  | [f], y, _, _, hl => by
    intro h
    obtain ⟨pre, q, body, rest, -, rfl, hr, hb, -⟩ := read_gap_str h
    obtain ⟨pre', rest', rfl, -⟩ := read_gap_punct (by decide) (by decide) (by decide) hr
    simp [literalsText, str] at hl
    omega
  | f :: g :: fs, y, _, hs, hl => by
    intro h
    obtain ⟨pre, q, body, rest, -, rfl, hr, hb, -⟩ := read_gap_str h
    obtain ⟨pre', y', rfl, -, hr'⟩ := read_gap_punct (by decide) (by decide) (by decide) hr
    have hc : comma :: y' <:+ literalsText (f :: g :: fs) :=
      List.IsSuffix.trans ⟨pre ++ q :: (body ++ q :: pre'), by simp⟩ hs
    have hy : y'.length ≤ (literalsText (g :: fs)).length := by
      rw [literalsText_cons] at hl
      simp only [List.length_append, List.length_cons, List.length_nil] at hl
      omega
    obtain ⟨hs', hl'⟩ := behind_after_comma hc hy
    exact lag (by simp) hs' hl' hr'

theorem selfReading_of_read_literals : ∀ {l : List Bytes}, l ≠ [] →
    sqlLexer.read .gap (literalsText l) = some (literalTokens l) → ∀ f ∈ l, selfReading f = true
  | [], hne, _ => absurd rfl hne
  | [f], _, h => by
    change sqlLexer.read .gap (quote :: (f ++ [quote, rparen])) = some [.str f, .punct rparen] at h
    rw [sqlLexer.read_cons_silent (t := .str quote []) rfl] at h
    obtain ⟨body, rest, d, ts, hx, hts, hr, hl, hd⟩ := read_str _ _ h
    simp only [List.nil_append, List.cons.injEq, Token.str.injEq] at hts
    obtain ⟨rfl, rfl⟩ := hts
    obtain ⟨pre, rest', rfl, -⟩ := read_gap_punct (by decide) (by decide) (by decide) hr
    have hlen := congrArg List.length hx
    simp only [List.length_append, List.length_cons, List.length_nil] at hlen
    obtain ⟨rfl, hs⟩ := hd (by omega)
    intro x hxm
    rw [List.mem_singleton.mp hxm]
    exact hs rfl
  | f :: g :: fs, _, h => by
    have htext : literalsText (f :: g :: fs) = quote :: (f ++ quote :: (comma :: space :: literalsText (g :: fs))) := by
      simp [literalsText, str]
    rw [htext, sqlLexer.read_cons_silent (t := .str quote []) rfl] at h
    obtain ⟨body, rest, d, ts, hx, hts, hr, hl, hd⟩ := read_str _ _ h
    simp only [List.nil_append, literalTokens, List.cons.injEq, Token.str.injEq] at hts
    obtain ⟨rfl, rfl⟩ := hts
    have hlen := congrArg List.length hx
    simp only [List.length_append, List.length_cons] at hlen
    by_cases heq : f.length = body.length
    · obtain ⟨rfl, hs⟩ := hd heq
      obtain ⟨-, hrest⟩ := List.append_inj hx rfl
      rw [← (List.cons.inj hrest).2, read_comma_space, Option.map_eq_some_iff] at hr
      obtain ⟨ts, hts, he⟩ := hr
      obtain rfl := (List.cons.inj he).2
      have ih := selfReading_of_read_literals (l := g :: fs) (by simp) hts
      intro x hxm
      rcases List.mem_cons.mp hxm with rfl | hxm
      · exact hs rfl
      · exact ih x hxm
    -- the value ran over its closing quote, so the reader is behind from here on
    · obtain ⟨pre, y, rfl, -, hr'⟩ := read_gap_punct (by decide) (by decide) (by decide) hr
      simp only [List.length_append, List.length_cons] at hlen
      have hc : comma :: y <:+ literalsText (f :: g :: fs) := by
        rw [htext, hx]
        exact ⟨quote :: (body ++ quote :: pre), by simp⟩
      obtain ⟨hs', hl'⟩ := behind_after_comma hc (by omega)
      exact absurd hr' (lag (by simp) hs' hl')

theorem read_literals_iff {fs : List Bytes} (hne : fs ≠ []) :
    sqlLexer.read .gap (literalsText fs) = some (literalTokens fs) ↔ ∀ f ∈ fs, selfReading f = true :=
  ⟨selfReading_of_read_literals hne, read_literals_of_selfReading hne⟩

/-! ## What the sanitiser lets through -/

/-- A request text that `verifyInput` makes harmless inside quotes: it is
emptied for not being UTF-8, or what is left without slashes and parentheses
has no single quote, and backslashes only before `%` or `_`. -/
def sqlInert (x : Bytes) : Bool :=
  !validUtf8 (stripslashes (trim x)) || selfReading (strtrParens (stripslashes (trim x)))

theorem selfReading_append {t : Bytes} (h : ∀ c ∈ t, c ≠ quote ∧ c ≠ backslash) (x : Bytes) :
    selfReading (t ++ x) = selfReading x := by
  induction t with
  | nil => rfl
  | cons c t ih =>
    obtain ⟨hq, hb⟩ := h c (List.mem_cons_self ..)
    rw [List.cons_append, selfReading_cons hq hb]
    exact ih fun d hd => h d (List.mem_cons_of_mem _ hd)

theorem selfReading_of_clean {x : Bytes} (h : ∀ c ∈ x, c ≠ quote ∧ c ≠ backslash) : selfReading x = true := by
  have := selfReading_append h []
  rw [List.append_nil] at this
  exact this

theorem selfReading_of_inert {x : Bytes} (h : ∀ c ∈ x, isInert c = true) : selfReading x = true :=
  selfReading_of_clean fun c hc => ⟨inert_ne (h c hc) rfl, inert_ne (h c hc) rfl⟩

theorem htmlEscape_cases (c : Byte) :
    htmlEscape c = [c] ∨
      ((∀ d ∈ htmlEscape c, d ≠ quote ∧ d ≠ backslash) ∧ (∃ t, htmlEscape c = amp :: t) ∧ c ≠ quote ∧
        c ≠ backslash ∧ c ≠ 37 ∧ c ≠ 95 ∧ isParen c = false) := by
  by_cases h : c ∈ [amp, dquote, lt, gt]
  · right
    simp only [List.mem_cons, List.not_mem_nil, or_false] at h
    rcases h with rfl | rfl | rfl | rfl <;> exact ⟨by decide +kernel, ⟨_, rfl⟩, by decide⟩
  · left
    simp only [List.mem_cons, List.not_mem_nil, or_false, not_or] at h
    obtain ⟨h₁, h₂, h₃, h₄⟩ := h
    simp [htmlEscape, h₁, h₂, h₃, h₄]

theorem selfReading_htmlEscape (x : Bytes) : selfReading (x.flatMap htmlEscape) = selfReading x := by
  fun_induction selfReading x with
  | case1 => rfl
  | case2 c =>
    rcases htmlEscape_cases c with h | ⟨hp, -, hq, hb, -⟩
    · simp [h, selfReading]
    · simp [hq, hb, selfReading_of_clean hp]
  | case3 d x =>
    have : (quote :: d :: x).flatMap htmlEscape = quote :: (d :: x).flatMap htmlEscape := rfl
    rw [this]
    cases (d :: x).flatMap htmlEscape <;> rfl
  | case4 d x hne ih =>
    have hs : (backslash :: d :: x).flatMap htmlEscape = backslash :: (htmlEscape d ++ x.flatMap htmlEscape) := rfl
    rw [hs]
    rcases htmlEscape_cases d with h | ⟨-, ⟨t, ht⟩, -, -, h₁, h₂, -⟩
    · rw [h, ← ih]
      rfl
    · have hd : (d == 37 || d == 95) = false := by simp [h₁, h₂]
      rw [ht, hd]
      rfl
  | case5 c d x hq hb ih =>
    have hs : (c :: d :: x).flatMap htmlEscape = htmlEscape c ++ (d :: x).flatMap htmlEscape := rfl
    rw [hs]
    rcases htmlEscape_cases c with h | ⟨hp, -⟩
    · rw [h, List.singleton_append, selfReading_cons hq hb, ih]
    · rw [selfReading_append hp, ih]

theorem strtrParens_htmlEscape (x : Bytes) :
    strtrParens (x.flatMap htmlEscape) = (strtrParens x).flatMap htmlEscape := by
  have hf : ∀ c, isParen c = false → (htmlEscape c).filter (fun d => !isParen d) = htmlEscape c := by
    intro c hc
    rw [List.filter_eq_self]
    intro d hd
    rcases mem_htmlEscape hd with ⟨rfl, -⟩ | rfl | rfl | h
    · simp [hc]
    · rfl
    · rfl
    · simp only [isParen, isLower, Bool.and_eq_true, decide_eq_true_eq, Bool.not_eq_true', Bool.or_eq_false_iff,
        beq_eq_false_iff_ne] at *
      grind
  have hp : ∀ c, isParen c = true → htmlEscape c = [c] := by
    intro c hc
    rcases htmlEscape_cases c with h | ⟨-, -, -, -, -, -, h⟩
    · exact h
    · rw [h] at hc; cases hc
  induction x with
  | nil => rfl
  | cons c x ih =>
    unfold strtrParens at *
    rw [List.flatMap_cons, List.filter_append, ih, List.filter_cons]
    by_cases h : isParen c = true
    · simp [h, hp c h]
    · simp [h, hf c (by simpa using h)]

theorem selfReading_verifyInput (x : Bytes) : selfReading (verifyInput x) = sqlInert x := by
  unfold verifyInput htmlspecialchars sqlInert
  split
  · rename_i h
    rw [strtrParens_htmlEscape, selfReading_htmlEscape, h]
    rfl
  · rename_i h
    simp [h, strtrParens, selfReading]

/-! ## The INSERT -/

theorem insertText_eq (v : Values) :
    insertText v = str ("INSERT INTO VideoData ( UUID, Duration, Name, Description, Bitrate, Title, Ext)" ++
      "\n\t\t\t\t\tVALUES ( ") ++ literalsText v.fields := by
  simp [insertText, literalsText, Values.fields, str]

theorem feed_insertHead :
    sqlLexer.feed .gap (str ("INSERT INTO VideoData ( UUID, Duration, Name, Description, Bitrate, Title, Ext)" ++
      "\n\t\t\t\t\tVALUES ( ")) = some (.gap, insertHead ++ [.punct lparen]) := by
  decide +kernel

theorem lexSql_insertText (v : Values) :
    lexSql (insertText v) =
      (sqlLexer.read .gap (literalsText v.fields)).map fun ts => insertHead ++ .punct lparen :: ts := by
  rw [lexSql, insertText_eq, sqlLexer.read_append feed_insertHead]
  simp

theorem isOneInsert_iff (v : Values) :
    IsOneInsert (insertText v) v.fields ↔ ∀ f ∈ v.fields, selfReading f = true := by
  rw [← read_literals_iff (by simp [Values.fields]), IsOneInsert, lexSql_insertText, Option.map_eq_some_iff]
  constructor
  · rintro ⟨ts, h, he⟩
    rw [h, (List.cons.inj (List.append_cancel_left he)).2]
  · intro h
    exact ⟨_, h, rfl⟩

theorem isOneInsert_values_iff (q : Request) (a : Attributes) :
    IsOneInsert (insertText (q.values a)) (q.values a).fields ↔
      sqlInert q.name.bytes = true ∧ sqlInert q.description = true ∧ sqlInert q.title = true ∧
        selfReading q.ext = true := by
  rw [isOneInsert_iff]
  simp only [Values.fields, Request.values, List.forall_mem_cons, selfReading_of_inert a.uuid.inert,
    selfReading_of_inert a.duration.inert, selfReading_of_inert a.bitrate.inert, selfReading_verifyInput]
  simp

/-! ## The SELECT -/

/-- `More` and the `,15` behind it are two integers with a comma between them,
the second 15, and blanks around them. -/
def LimitReads (more : Bytes) : Prop := ∃ n, TwoInts n 15 (more ++ str ",15")

theorem feed_selectHead :
    sqlLexer.feed .gap (str "SELECT ID, UUID, Ext, Title FROM VideoData LIMIT ") = some (.gap, selectHead) := by
  decide +kernel

theorem lexSql_selectText (more : Bytes) :
    lexSql (selectText more) = (sqlLexer.read .gap (more ++ str ",15")).map (selectHead ++ ·) := by
  rw [lexSql, selectText, List.append_assoc, sqlLexer.read_append feed_selectHead]

theorem isOneSelect_iff (more : Bytes) : IsOneSelect (selectText more) ↔ LimitReads more := by
  rw [IsOneSelect, LimitReads, lexSql_selectText]
  simp only [Option.map_eq_some_iff, List.append_cancel_left_eq, exists_eq_right, read_twoInts_iff]

/-! ## Both statements -/

instance (text : Bytes) (contents : List Bytes) : Decidable (IsOneInsert text contents) :=
  inferInstanceAs (Decidable (_ = _))

theorem statements_keep_shape_iff (q : Request) (a : Attributes) (more : Bytes) :
    (IsOneInsert (insertText (q.values a)) (q.values a).fields ∧ IsOneSelect (selectText more)) ↔
      (sqlInert q.name.bytes = true ∧ sqlInert q.description = true ∧ sqlInert q.title = true ∧
        selfReading q.ext = true) ∧ LimitReads more :=
  and_congr (isOneInsert_values_iff q a) (isOneSelect_iff more)

/-- An apostrophe in the title ends its literal, and `More` can bring a LIMIT
of its own. -/
theorem statements_lose_shape :
    ¬ (∀ (q : Request) (a : Attributes), IsOneInsert (insertText (q.values a)) (q.values a).fields) ∧
      ¬ ∀ more, IsOneSelect (selectText more) := by
  constructor
  · intro h
    exact absurd (h { sampleRequest with title := str "it's" } sampleAttributes) (by decide +kernel)
  · intro h
    obtain ⟨n, hn⟩ := h (str "0,1000#")
    have hlex : lexSql (selectText (str "0,1000#")) = some (selectHead ++ [.int 0, .punct comma, .int 1000]) := by
      decide +kernel
    rw [hlex] at hn
    have hlast := (List.cons.inj (List.cons.inj (List.append_cancel_left (Option.some.inj hn))).2).2
    cases hlast

end Vortex
