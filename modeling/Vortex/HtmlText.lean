import Vortex.Html

/-!
# Tags and the text between them

The same reader as for the tags alone, with the text it leaves on the page. A
text that opens no tag is read back as itself, and no other text is.
-/

namespace Vortex

open Ascii

inductive HtmlToken
  | tag (t : Tag)
  | char (c : Byte)
  deriving DecidableEq

/-- What may follow a `<` for it to be more than text. -/
def opensTag (c : Byte) : Bool := isLetter c || c == slash || c == 33 || c == 63

/-- The text that a byte leaves on the page. -/
def htmlText : HtmlState → Byte → Bytes
  | .data, c => if c = lt then [] else [c]
  | .tagOpen, c => if opensTag c then [] else if c = lt then [lt] else [lt, c]
  | _, _ => []

def htmlEmit (s : HtmlState) (c : Byte) : List HtmlToken := (htmlText s c).map .char ++ (htmlStep s c).2.map .tag

def tokensFrom : HtmlState → Bytes → List HtmlToken
  | _, [] => []
  | s, c :: x => htmlEmit s c ++ tokensFrom (htmlStep s c).1 x

/-- A `<` at the very end is left out. -/
def htmlTokens (x : Bytes) : List HtmlToken := tokensFrom .data x

theorem tokensFrom_append : ∀ (s : HtmlState) (x y : Bytes), tokensFrom s (x ++ y) = tokensFrom s x ++ tokensFrom (after s x) y
  | _, [], _ => rfl
  | s, c :: x, y => by
    rw [List.cons_append, tokensFrom, tokensFrom_append, tokensFrom, List.append_assoc]
    rfl

theorem htmlTokens_append {x : Bytes} (hx : Closed x) (y : Bytes) : htmlTokens (x ++ y) = htmlTokens x ++ htmlTokens y := by
  rw [htmlTokens, tokensFrom_append, show after .data x = .data from hx]
  rfl

def HtmlToken.tag? : HtmlToken → Option Tag
  | .tag t => some t
  | .char _ => none

theorem tags_of_emit (s : HtmlState) (c : Byte) : (htmlEmit s c).filterMap HtmlToken.tag? = (htmlStep s c).2 := by
  have hchars : ∀ x : Bytes, (x.map HtmlToken.char).filterMap HtmlToken.tag? = [] := by
    intro x
    rw [List.filterMap_map]
    exact List.filterMap_eq_nil_iff.mpr fun _ _ => rfl
  have htags : ∀ ts : List Tag, (ts.map HtmlToken.tag).filterMap HtmlToken.tag? = ts := by
    intro ts
    rw [List.filterMap_map]
    exact List.filterMap_some
  rw [htmlEmit, List.filterMap_append, hchars, htags]
  rfl

/-- The tags are those of the reader without texts. -/
theorem tags_of_tokens (x : Bytes) : (htmlTokens x).filterMap HtmlToken.tag? = htmlTags x := by
  have hfeed : ∀ (x : Bytes) (s : HtmlState),
      htmlLexer.feed s x = some (after s x, (tokensFrom s x).filterMap HtmlToken.tag?) := by
    intro x
    induction x with
    | nil => exact fun _ => rfl
    | cons c x ih =>
      intro s
      rw [htmlLexer.feed_cons (t := (htmlStep s c).1) (o := (htmlStep s c).2) rfl, ih, tokensFrom, List.filterMap_append,
        tags_of_emit]
      rfl
  rw [htmlTags, Transducer.read, hfeed]
  simp [htmlLexer, htmlTokens]

/-! ## Text that opens no tag -/

def plainText : Bytes → Bool
  | c :: d :: x => !(c == lt && opensTag d) && plainText (d :: x)
  | _ => true

theorem tokens_data {c : Byte} (h : c ≠ lt) (x : Bytes) : tokensFrom .data (c :: x) = .char c :: tokensFrom .data x := by
  simp [tokensFrom, htmlEmit, htmlText, htmlStep, h]

theorem tokens_lt (x : Bytes) : tokensFrom .data (lt :: x) = tokensFrom .tagOpen x := by
  simp [tokensFrom, htmlEmit, htmlText, htmlStep]

theorem tokens_tagOpen {c : Byte} (h : opensTag c = false) (x : Bytes) :
    tokensFrom .tagOpen (c :: x) = .char lt :: tokensFrom .data (c :: x) := by
  simp only [opensTag, Bool.or_eq_false_iff, beq_eq_false_iff_ne] at h
  obtain ⟨⟨⟨hl, hs⟩, hm⟩, hq⟩ := h
  by_cases hc : c = lt
  · subst hc
    rw [tokens_lt, tokensFrom]
    rfl
  · simp [tokensFrom, htmlEmit, htmlText, htmlStep, opensTag, hl, hs, hm, hq, hc]

theorem tokens_plain : ∀ {k : Bytes}, plainText k = true → ∀ y, tokensFrom .data (k ++ lt :: y) =
    k.map .char ++ tokensFrom .data (lt :: y)
  | [], _, _ => rfl
  | [c], _, y => by
    by_cases hc : c = lt
    · rw [hc, List.singleton_append, tokens_lt, tokens_tagOpen (by decide)]
      rfl
    · rw [List.singleton_append, tokens_data hc]
      rfl
  | c :: d :: k, h, y => by
    rw [plainText, Bool.and_eq_true] at h
    have ih := tokens_plain h.2 y
    by_cases hc : c = lt
    · subst hc
      have hd : opensTag d = false := by simpa using h.1
      rw [List.cons_append, tokens_lt, List.cons_append, tokens_tagOpen hd, ← List.cons_append, ih]
      rfl
    · rw [List.cons_append, tokens_data hc, ih]
      rfl

theorem after_plain : ∀ {k : Bytes}, plainText k = true → ∀ y, after .data (k ++ lt :: y) = after .data (lt :: y)
  | [], _, _ => rfl
  | [c], _, y => by
    by_cases hc : c = lt
    · subst hc
      rfl
    · change after (if c = lt then HtmlState.tagOpen else .data) (lt :: y) = _
      rw [if_neg hc]
  | c :: d :: k, h, y => by
    rw [plainText, Bool.and_eq_true] at h
    have ih := after_plain h.2 y
    by_cases hc : c = lt
    · subst hc
      have hd : opensTag d = false := by simpa using h.1
      simp only [opensTag, Bool.or_eq_false_iff, beq_eq_false_iff_ne] at hd
      obtain ⟨⟨⟨hl, hs⟩, hm⟩, hq⟩ := hd
      have hstep : (htmlStep .tagOpen d).1 = (htmlStep .data d).1 := by
        simp [htmlStep, hl, hs, hm, hq]
      rw [← ih]
      change after (htmlStep .tagOpen d).1 (k ++ lt :: y) = after (htmlStep .data d).1 (k ++ lt :: y)
      rw [hstep]
    · change after (if c = lt then HtmlState.tagOpen else .data) (d :: k ++ lt :: y) = _
      rw [if_neg hc, ih]

/-! ## Text that opens one -/

def HtmlState.inside : HtmlState → Bool
  | .data | .tagOpen => false
  | _ => true

theorem beforeAttr_inside (t : Tag) {c : Byte} (h : c ≠ gt) : (beforeAttr t c).1.inside = true ∧ (beforeAttr t c).2 = [] := by
  unfold beforeAttr
  repeat' split
  all_goals exact ⟨rfl, rfl⟩

theorem afterName_inside (t : Tag) (n : Bytes) {c : Byte} (h : c ≠ gt) :
    (afterName t n c).1.inside = true ∧ (afterName t n c).2 = [] := by
  unfold afterName
  repeat' split
  · exact ⟨rfl, rfl⟩
  · exact ⟨rfl, rfl⟩
  · exact beforeAttr_inside _ h

/-- Only a `>` leads out of a tag, and then out to the text. -/
theorem step_inside {s : HtmlState} (hs : s.inside = true) {c : Byte} (h : c ≠ gt) :
    (htmlStep s c).1.inside = true ∧ htmlEmit s c = [] := by
  have key : (htmlStep s c).1.inside = true ∧ (htmlStep s c).2 = [] := by
    cases s with
    | data | tagOpen => cases hs
    | beforeAttr t => exact beforeAttr_inside t h
    | afterName t n => exact afterName_inside t n h
    | _ =>
      simp only [htmlStep]
      repeat' split
      all_goals first
        | exact ⟨rfl, rfl⟩
        | exact beforeAttr_inside _ h
        | exact afterName_inside _ _ h
        | simp_all [HtmlState.inside]
  refine ⟨key.1, ?_⟩
  rw [htmlEmit, key.2]
  cases s <;> first | rfl | cases hs

theorem tokens_inside : ∀ {x : Bytes} {s : HtmlState}, s.inside = true → (∀ c ∈ x, c ≠ gt) →
    tokensFrom s x = [] ∧ (after s x).inside = true
  | [], _, hs, _ => ⟨rfl, hs⟩
  | c :: x, s, hs, h => by
    obtain ⟨hin, he⟩ := step_inside hs (h c (List.mem_cons_self ..))
    obtain ⟨ht, ha⟩ := tokens_inside hin fun d hd => h d (List.mem_cons_of_mem _ hd)
    exact ⟨by rw [tokensFrom, he, ht]; rfl, ha⟩

/-- The `<` that is read, and not yet text. -/
def HtmlState.held : HtmlState → Nat
  | .tagOpen => 1
  | _ => 0

theorem beforeAttr_count (t : Tag) (c : Byte) : (beforeAttr t c).2.length + (beforeAttr t c).1.held ≤ 1 := by
  unfold beforeAttr
  repeat' split
  all_goals simp [HtmlState.held]

theorem afterName_count (t : Tag) (n : Bytes) (c : Byte) :
    (afterName t n c).2.length + (afterName t n c).1.held ≤ 1 := by
  unfold afterName
  repeat' split
  · simp [HtmlState.held]
  · simp [HtmlState.held]
  · exact beforeAttr_count ..

theorem emit_count (s : HtmlState) (c : Byte) : (htmlEmit s c).length + (htmlStep s c).1.held ≤ s.held + 1 := by
  rw [htmlEmit, List.length_append, List.length_map, List.length_map]
  cases s with
  | data =>
    by_cases hc : c = lt <;> simp [htmlText, htmlStep, hc, HtmlState.held]
  | tagOpen =>
    simp only [htmlText, htmlStep]
    repeat' split
    all_goals simp [HtmlState.held]
  | beforeAttr t => simpa [htmlText, htmlStep, HtmlState.held] using beforeAttr_count t c
  | afterName t n => simpa [htmlText, htmlStep, HtmlState.held] using afterName_count t n c
  | _ =>
    simp only [htmlText, htmlStep]
    repeat' split
    all_goals first
      | simp [HtmlState.held]; done
      | simpa [HtmlState.held] using beforeAttr_count _ _
      | simpa [HtmlState.held] using afterName_count _ _ _

/-- There are no more tokens than bytes. -/
theorem tokens_count : ∀ (x : Bytes) (s : HtmlState), (tokensFrom s x).length + (after s x).held ≤ s.held + x.length
  | [], s => by simp [tokensFrom, after]
  | c :: x, s => by
    have h₁ := emit_count s c
    have h₂ := tokens_count x (htmlStep s c).1
    have ha : after s (c :: x) = after (htmlStep s c).1 x := rfl
    rw [tokensFrom, List.length_append, List.length_cons, ha]
    omega

theorem HtmlState.inside_or (s : HtmlState) : (s.inside = true ∧ s.held = 0) ∨ s = .data ∨ s = .tagOpen := by
  cases s with
  | data => exact .inr (.inl rfl)
  | tagOpen => exact .inr (.inr rfl)
  | _ => exact .inl ⟨rfl, rfl⟩

theorem opened_held {d : Byte} (h : opensTag d = true) : (htmlStep .tagOpen d).1.held = 0 := by
  have hne : d ≠ lt := by
    rintro rfl
    cases h
  simp only [htmlStep, if_neg hne]
  repeat' split
  all_goals rfl

/-- After a tag is opened, the end tag that follows `k` comes too late. -/
theorem tokens_opened {s : HtmlState} (hs : s.held = 0) (k : Bytes) {u z : Bytes} (hu : ∀ c ∈ u, c ≠ gt)
    (hz : z.length ≤ (tokensFrom .data (lt :: u ++ gt :: z)).length) :
    (tokensFrom s (k ++ (lt :: u ++ gt :: z))).length ≤
      k.length + 1 + (tokensFrom .data (lt :: u ++ gt :: z)).length := by
  have hk := tokens_count k s
  rw [tokensFrom_append, List.length_append]
  rcases (after s k).inside_or with ⟨hin, -⟩ | hd | ho
  · have hlt : ∀ c ∈ lt :: u, c ≠ gt := by
      rw [List.forall_mem_cons]
      exact ⟨by decide, hu⟩
    obtain ⟨hnone, hin'⟩ := tokens_inside hin hlt
    have hlast := tokens_count (gt :: z) (after (after s k) (lt :: u))
    have hheld : (after (after s k) (lt :: u)).held = 0 := by
      rcases (after (after s k) (lt :: u)).inside_or with h | h | h
      · exact h.2
      · rw [h]; rfl
      · rw [h] at hin'; cases hin'
    rw [tokensFrom_append, hnone, List.nil_append]
    rw [List.length_cons] at hlast
    omega
  · rw [hd]
    omega
  · have hlast : tokensFrom .tagOpen (lt :: u ++ gt :: z) = .char lt :: tokensFrom .data (lt :: u ++ gt :: z) :=
      tokens_tagOpen (by decide) _
    have hheld : (after s k).held = 1 := by rw [ho]; rfl
    rw [ho, hlast, List.length_cons]
    omega

/-- Between tags a text is read as itself exactly when it opens none. -/
theorem text_iff {u z : Bytes} (hu : ∀ c ∈ u, c ≠ gt) (hz : z.length ≤ (tokensFrom .data (lt :: u ++ gt :: z)).length) :
    ∀ (k : Bytes), tokensFrom .data (k ++ (lt :: u ++ gt :: z)) =
      k.map .char ++ tokensFrom .data (lt :: u ++ gt :: z) ↔ plainText k = true
  | [] => iff_of_true rfl rfl
  | [c] => iff_of_true (tokens_plain rfl _) rfl
  | c :: d :: k => by
    refine ⟨fun h => ?_, fun h => tokens_plain h _⟩
    by_cases hc : c = lt
    · subst hc
      cases hd : opensTag d with
      | true =>
        exfalso
        have hlen := congrArg List.length h
        rw [List.cons_append, tokens_lt, List.cons_append, tokensFrom] at hlen
        have hemit : htmlEmit .tagOpen d = [] := by
          simp only [htmlEmit, htmlText, hd, if_pos]
          rfl
        have := tokens_opened (opened_held hd) k hu hz
        rw [hemit] at hlen
        simp only [List.nil_append, List.length_append, List.length_map, List.length_cons] at hlen this
        omega
      | false =>
        rw [List.cons_append, tokens_lt, List.cons_append, tokens_tagOpen hd, ← List.cons_append] at h
        rw [plainText, (text_iff hu hz (d :: k)).mp (List.cons.inj h).2, hd]
        rfl
    · rw [List.cons_append, tokens_data hc] at h
      rw [plainText, (text_iff hu hz (d :: k)).mp (List.cons.inj h).2]
      simp [hc]

/-! ## Values of attributes -/

/-- The tag that is being read. -/
def HtmlState.tag? : HtmlState → Option Tag
  | .tagName t | .beforeAttr t | .attrName t _ | .afterName t _ | .beforeValue t _ | .value t _ _ _ | .bare t _ _
  | .selfClosing t => some t
  | _ => none

/-- The tag is being read, and has at least these attributes. -/
def HtmlState.Begun (s : HtmlState) (as : List (Bytes × Bytes)) : Prop := ∃ t, s.tag? = some t ∧ as <+: t.attrs

theorem Tag.set_prefix (t : Tag) (n v : Bytes) : t.attrs <+: (t.set n v).attrs := by
  unfold Tag.set
  split
  · exact List.prefix_refl _
  · exact List.prefix_append ..

/-- The tag goes on, or it is finished. -/
def Goes (as : List (Bytes × Bytes)) (p : HtmlState × List Tag) : Prop :=
  (p.2 = [] ∧ p.1.Begun as) ∨ ∃ t, p.2 = [t] ∧ as <+: t.attrs

section
variable {as : List (Bytes × Bytes)}

theorem beforeAttr_begun {t : Tag} (h : as <+: t.attrs) (c : Byte) : Goes as (beforeAttr t c) := by
  unfold beforeAttr
  repeat' split
  · exact .inl ⟨rfl, t, rfl, h⟩
  · exact .inl ⟨rfl, t, rfl, h⟩
  · exact .inr ⟨t, rfl, h⟩
  · exact .inl ⟨rfl, t, rfl, h⟩

theorem afterName_begun {t : Tag} (h : as <+: t.attrs) (n : Bytes) (c : Byte) : Goes as (afterName t n c) := by
  unfold afterName
  repeat' split
  · exact .inl ⟨rfl, t, rfl, h⟩
  · exact .inl ⟨rfl, t, rfl, h⟩
  · exact beforeAttr_begun (h.trans (t.set_prefix n [])) c

theorem step_begun {s : HtmlState} (h : s.Begun as) (c : Byte) : Goes as (htmlStep s c) := by
  obtain ⟨t, ht, hp⟩ := h
  have hset : ∀ n v, as <+: (t.set n v).attrs := fun n v => hp.trans (t.set_prefix n v)
  cases s with
  | data | tagOpen | endTagOpen | markup | markupDash | comment | bogus => cases ht
  | tagName t' =>
    cases ht
    simp only [htmlStep]
    split
    · exact beforeAttr_begun hp c
    · exact .inl ⟨rfl, _, rfl, hp⟩
  | beforeAttr t' =>
    cases ht
    exact beforeAttr_begun hp c
  | attrName t' n =>
    cases ht
    simp only [htmlStep]
    split
    · exact afterName_begun hp n c
    · exact .inl ⟨rfl, t, rfl, hp⟩
  | afterName t' n =>
    cases ht
    exact afterName_begun hp n c
  | beforeValue t' n =>
    cases ht
    simp only [htmlStep]
    repeat' split
    · exact .inl ⟨rfl, t, rfl, hp⟩
    · exact .inl ⟨rfl, t, rfl, hp⟩
    · exact .inr ⟨_, rfl, hset n []⟩
    · exact .inl ⟨rfl, t, rfl, hp⟩
  | value t' n q v =>
    cases ht
    simp only [htmlStep]
    split
    · exact .inl ⟨rfl, _, rfl, hset n v⟩
    · exact .inl ⟨rfl, t, rfl, hp⟩
  | bare t' n v =>
    cases ht
    simp only [htmlStep]
    repeat' split
    · exact .inl ⟨rfl, _, rfl, hset n v⟩
    · exact .inr ⟨_, rfl, hset n v⟩
    · exact .inl ⟨rfl, t, rfl, hp⟩
  | selfClosing t' =>
    cases ht
    simp only [htmlStep]
    split
    · exact .inr ⟨t, rfl, hp⟩
    · exact beforeAttr_begun hp c

theorem Begun.emit {s : HtmlState} (h : s.Begun as) (c : Byte) : htmlEmit s c = (htmlStep s c).2.map .tag := by
  obtain ⟨t, ht, -⟩ := h
  rw [htmlEmit]
  cases s <;> first | rfl | cases ht

/-- The next token, if there is one, is the tag that is being read. -/
theorem tokens_begun : ∀ {x : Bytes} {s : HtmlState}, s.Begun as → ∀ a ∈ (tokensFrom s x).head?,
    ∃ t, a = .tag t ∧ as <+: t.attrs
  | [], _, _ => by simp [tokensFrom]
  | c :: x, s, h => by
    intro a ha
    rw [tokensFrom, Begun.emit h] at ha
    rcases step_begun h c with ⟨hnone, hbegun⟩ | ⟨t, ht, hp⟩
    · rw [hnone] at ha
      exact tokens_begun hbegun a ha
    · rw [ht] at ha
      cases ha
      exact ⟨t, rfl, hp⟩

end

theorem tokens_value {t : Tag} {n : Bytes} {q : Byte} : ∀ {k : Bytes} (v : Bytes), (∀ c ∈ k, c ≠ q) → ∀ y,
    tokensFrom (.value t n q v) (k ++ y) = tokensFrom (.value t n q (v ++ k)) y
  | [], v, _, y => by rw [List.append_nil]; rfl
  | c :: k, v, h, y => by
    have hc : htmlStep (.value t n q v) c = (.value t n q (v ++ [c]), []) := by
      simp only [htmlStep, if_neg (h c (List.mem_cons_self ..))]
    have he : htmlEmit (.value t n q v) c = [] := by
      rw [htmlEmit, hc]
      rfl
    rw [List.cons_append, tokensFrom, he, hc, List.nil_append, tokens_value _ fun d hd => h d (List.mem_cons_of_mem _ hd)]
    simp

theorem tokens_close (t : Tag) (n : Bytes) (q : Byte) (v y : Bytes) :
    tokensFrom (.value t n q v) (q :: y) = tokensFrom (.beforeAttr (t.set n v)) y := by
  have hc : htmlStep (.value t n q v) q = (.beforeAttr (t.set n v), []) := by
    simp only [htmlStep, if_pos]
  rw [tokensFrom, htmlEmit, hc]
  rfl

theorem Tag.set_new {t : Tag} {n : Bytes} (hn : ∀ a ∈ t.attrs, a.1 ≠ n) (v : Bytes) :
    (t.set n v).attrs = t.attrs ++ [(n, v)] := by
  rw [Tag.set, if_neg]
  rw [List.any_eq_true]
  rintro ⟨a, ha, he⟩
  exact hn a ha (beq_iff_eq.mp he)

/-- In a quoted value a text is read as itself exactly when it has no such quote. -/
theorem value_iff {t : Tag} {n : Bytes} {q : Byte} (v : Bytes) (hn : ∀ a ∈ t.attrs, a.1 ≠ n) {y : Bytes}
    (hy : ∀ v, tokensFrom (.value t n q v) (q :: y) ≠ []) (k : Bytes) :
    tokensFrom (.value t n q v) (k ++ q :: y) = tokensFrom (.value t n q (v ++ k)) (q :: y) ↔ q ∉ k := by
  constructor
  · intro h hq
    obtain ⟨u, k', rfl, hu⟩ := List.eq_append_cons_of_mem hq
    have hq' : ∀ c ∈ u, c ≠ q := fun c hc he => hu (he ▸ hc)
    obtain ⟨a, ts, hts⟩ := List.exists_cons_of_ne_nil (hy (v ++ (u ++ q :: k')))
    rw [List.append_assoc, tokens_value v hq', List.cons_append, tokens_close, hts] at h
    rw [tokens_close] at hts
    have begun : ∀ w, (HtmlState.beforeAttr (t.set n w)).Begun (t.attrs ++ [(n, w)]) := fun w =>
      ⟨t.set n w, rfl, Tag.set_new hn w ▸ List.prefix_refl _⟩
    -- both values would be that of the tag which is finished next
    obtain ⟨t₁, rfl, h₁⟩ := tokens_begun (begun (v ++ u)) a (congrArg List.head? h)
    obtain ⟨t₂, he, h₂⟩ := tokens_begun (begun (v ++ (u ++ q :: k'))) (.tag t₁) (congrArg List.head? hts)
    cases he
    have heq := (List.prefix_of_prefix_length_le h₁ h₂ (by simp)).eq_of_length (by simp)
    have hlen := congrArg List.length (Prod.mk.inj (List.cons.inj (List.append_cancel_left heq)).1).2
    simp only [List.length_append, List.length_cons] at hlen
    omega
  · intro hq
    refine tokens_value v (fun c hc he => hq ?_) _
    rw [← he]
    exact hc

end Vortex
