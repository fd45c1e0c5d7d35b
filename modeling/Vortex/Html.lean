import Vortex.Transducer
import Vortex.Bytes

/-!
# HTML tags

The browser's tokenizer as far as tags go: tags with their attributes, and
comments, which are skipped, outside the elements whose content is raw text.
Text between tags is dropped, and character references are left as they are,
since they neither start nor end a tag or an attribute.
-/

namespace Vortex

open Ascii

structure Tag where
  closing : Bool
  name : Bytes
  attrs : List (Bytes × Bytes)
  deriving DecidableEq

inductive HtmlState
  | data
  | tagOpen
  | endTagOpen
  | tagName (t : Tag)
  | beforeAttr (t : Tag)
  | attrName (t : Tag) (n : Bytes)
  | afterName (t : Tag) (n : Bytes)
  | beforeValue (t : Tag) (n : Bytes)
  -- a value in the quotes `q`; a value without quotes
  | value (t : Tag) (n : Bytes) (q : Byte) (v : Bytes)
  | bare (t : Tag) (n v : Bytes)
  | selfClosing (t : Tag)
  -- `<!`, `<!-`, then a comment and the dashes that may end it
  | markup
  | markupDash
  | comment (dashes : Nat)
  -- anything else up to the next `>`
  | bogus
  deriving DecidableEq

def isHtmlSpace (c : Byte) : Bool := c == tab || c == newline || c == 12 || c == 13 || c == space

def lower (c : Byte) : Byte := if isUpper c then c + 32 else c

/-- The first of two attributes of one name counts. -/
def Tag.set (t : Tag) (n v : Bytes) : Tag :=
  if t.attrs.any fun a => a.1 == n then t else { t with attrs := t.attrs ++ [(n, v)] }

def beforeAttr (t : Tag) (c : Byte) : HtmlState × List Tag :=
  if isHtmlSpace c then (.beforeAttr t, [])
  else if c = slash then (.selfClosing t, [])
  else if c = gt then (.data, [t])
  else (.attrName t [lower c], [])

def afterName (t : Tag) (n : Bytes) (c : Byte) : HtmlState × List Tag :=
  if c = equals then (.beforeValue t n, [])
  else if isHtmlSpace c then (.afterName t n, [])
  else beforeAttr (t.set n []) c

def htmlStep : HtmlState → Byte → HtmlState × List Tag
  | .data, c => (if c = lt then .tagOpen else .data, [])
  | .tagOpen, c =>
    (if isLetter c then .tagName ⟨false, [lower c], []⟩ else if c = slash then .endTagOpen
      else if c = 33 then .markup else if c = 63 then .bogus else if c = lt then .tagOpen else .data, [])
  | .endTagOpen, c => (if isLetter c then .tagName ⟨true, [lower c], []⟩ else if c = gt then .data else .bogus, [])
  | .tagName t, c =>
    if isHtmlSpace c || c = slash || c = gt then beforeAttr t c
    else (.tagName { t with name := t.name ++ [lower c] }, [])
  | .beforeAttr t, c => beforeAttr t c
  | .attrName t n, c =>
    if isHtmlSpace c || c = slash || c = gt || c = equals then afterName t n c else (.attrName t (n ++ [lower c]), [])
  | .afterName t n, c => afterName t n c
  | .beforeValue t n, c =>
    if isHtmlSpace c then (.beforeValue t n, [])
    else if c = dquote || c = quote then (.value t n c [], [])
    else if c = gt then (.data, [t.set n []])
    else (.bare t n [c], [])
  | .value t n q v, c => (if c = q then .beforeAttr (t.set n v) else .value t n q (v ++ [c]), [])
  | .bare t n v, c =>
    if isHtmlSpace c then (.beforeAttr (t.set n v), [])
    else if c = gt then (.data, [t.set n v])
    else (.bare t n (v ++ [c]), [])
  | .selfClosing t, c => if c = gt then (.data, [t]) else beforeAttr t c
  | .markup, c => (if c = dash then .markupDash else if c = gt then .data else .bogus, [])
  | .markupDash, c => (if c = dash then .comment 2 else if c = gt then .data else .bogus, [])
  | .comment n, c => (if c = dash then .comment (n + 1) else if c = gt && 2 ≤ n then .data else .comment 0, [])
  | .bogus, c => (if c = gt then .data else .bogus, [])

/-- A tag that is not finished at the end is none. -/
def htmlLexer : Transducer HtmlState Byte Tag where
  step s c := some (htmlStep s c)
  finish _ := some []

def htmlTags (x : Bytes) : List Tag := (htmlLexer.read .data x).getD []

/-! ## The state after a text -/

def after (s : HtmlState) (x : Bytes) : HtmlState := x.foldl (fun s c => (htmlStep s c).1) s

theorem after_append (s : HtmlState) (x y : Bytes) : after s (x ++ y) = after (after s x) y := List.foldl_append

theorem feed_after (s : HtmlState) (x : Bytes) : ∃ out, htmlLexer.feed s x = some (after s x, out) := by
  induction x generalizing s with
  | nil => exact ⟨[], rfl⟩
  | cons c x ih =>
    obtain ⟨out, h⟩ := ih (htmlStep s c).1
    rw [htmlLexer.feed_cons (t := (htmlStep s c).1) (o := (htmlStep s c).2) rfl, h]
    exact ⟨_, rfl⟩

def Tag.blank : Tag := ⟨false, [], []⟩

/-- What decides the next state: the tag, the names and the values play no part. -/
def HtmlState.erase : HtmlState → HtmlState
  | .tagName _ => .tagName .blank
  | .beforeAttr _ => .beforeAttr .blank
  | .attrName _ _ => .attrName .blank []
  | .afterName _ _ => .afterName .blank []
  | .beforeValue _ _ => .beforeValue .blank []
  | .value _ _ q _ => .value .blank [] q []
  | .bare _ _ _ => .bare .blank [] []
  | .selfClosing _ => .selfClosing .blank
  | s => s

theorem beforeAttr_erase (t u : Tag) (c : Byte) : (beforeAttr t c).1.erase = (beforeAttr u c).1.erase := by
  unfold beforeAttr
  repeat' split
  all_goals rfl

theorem afterName_erase (t u : Tag) (n m : Bytes) (c : Byte) : (afterName t n c).1.erase = (afterName u m c).1.erase := by
  unfold afterName
  repeat' split
  · rfl
  · rfl
  · exact beforeAttr_erase ..

theorem htmlStep_erase (s : HtmlState) (c : Byte) : (htmlStep s c).1.erase = (htmlStep s.erase c).1.erase := by
  cases s with
  | tagName t =>
    change (htmlStep (.tagName t) c).1.erase = (htmlStep (.tagName .blank) c).1.erase
    simp only [htmlStep, apply_ite Prod.fst, apply_ite HtmlState.erase, beforeAttr_erase t .blank]
    rfl
  | beforeAttr t => exact beforeAttr_erase t .blank c
  | attrName t n =>
    change (htmlStep (.attrName t n) c).1.erase = (htmlStep (.attrName .blank []) c).1.erase
    simp only [htmlStep, apply_ite Prod.fst, apply_ite HtmlState.erase, afterName_erase t .blank n []]
    rfl
  | afterName t n => exact afterName_erase t .blank n [] c
  | beforeValue t n =>
    change (htmlStep (.beforeValue t n) c).1.erase = (htmlStep (.beforeValue .blank []) c).1.erase
    simp only [htmlStep, apply_ite Prod.fst, apply_ite HtmlState.erase]
    rfl
  | value t n q v =>
    change (htmlStep (.value t n q v) c).1.erase = (htmlStep (.value .blank [] q []) c).1.erase
    simp only [htmlStep, apply_ite HtmlState.erase]
    rfl
  | bare t n v =>
    change (htmlStep (.bare t n v) c).1.erase = (htmlStep (.bare .blank [] []) c).1.erase
    simp only [htmlStep, apply_ite Prod.fst, apply_ite HtmlState.erase]
    rfl
  | selfClosing t =>
    change (htmlStep (.selfClosing t) c).1.erase = (htmlStep (.selfClosing .blank) c).1.erase
    simp only [htmlStep, apply_ite Prod.fst, apply_ite HtmlState.erase, beforeAttr_erase t .blank]
  | _ => rfl

theorem after_erase (s : HtmlState) (x : Bytes) : (after s x).erase = (after s.erase x).erase := by
  induction x generalizing s with
  | nil => cases s <;> rfl
  | cons c x ih =>
    change (after (htmlStep s c).1 x).erase = (after (htmlStep s.erase c).1 x).erase
    rw [ih, ih (htmlStep s.erase c).1, htmlStep_erase]

theorem erase_after_append (s : HtmlState) (x y : Bytes) :
    (after s (x ++ y)).erase = (after (after s x).erase y).erase := by
  rw [after_append, after_erase]

theorem data_of_erase {s : HtmlState} (h : s.erase = .data) : s = .data := by
  cases s <;> first | rfl | cases h

theorem after_value {q : Byte} {x : Bytes} (h : ∀ c ∈ x, c ≠ q) (t : Tag) (n v : Bytes) :
    (after (.value t n q v) x).erase = .value .blank [] q [] := by
  induction x generalizing v with
  | nil => rfl
  | cons c x ih =>
    have hc : c ≠ q := h c (List.mem_cons_self ..)
    change (after (if c = q then .beforeAttr (t.set n v) else .value t n q (v ++ [c])) x).erase = _
    rw [if_neg hc]
    exact ih (fun d hd => h d (List.mem_cons_of_mem _ hd)) _

/-! ## Texts that begin and end between tags -/

def Closed (x : Bytes) : Prop := after .data x = .data

instance (x : Bytes) : Decidable (Closed x) := inferInstanceAs (Decidable (_ = _))

theorem Closed.append {x y : Bytes} (hx : Closed x) (hy : Closed y) : Closed (x ++ y) := by
  unfold Closed
  rw [after_append, show after .data x = .data from hx]
  exact hy

theorem htmlTags_append {x : Bytes} (hx : Closed x) (y : Bytes) : htmlTags (x ++ y) = htmlTags x ++ htmlTags y := by
  obtain ⟨o, ho⟩ := feed_after .data x
  obtain ⟨o', ho'⟩ := feed_after .data y
  rw [show after .data x = .data from hx] at ho
  have hread : ∀ {z : Bytes} {s : HtmlState} {out : List Tag}, htmlLexer.feed .data z = some (s, out) → htmlTags z = out := by
    intro z s out hz
    rw [htmlTags, Transducer.read, hz]
    simp [htmlLexer]
  rw [hread ho, hread ho', hread (htmlLexer.feed_append ho y |>.trans (by rw [ho']; rfl))]

theorem text_closed {x : Bytes} (h : ∀ c ∈ x, c ≠ lt) : Closed x ∧ htmlTags x = [] := by
  have hf : htmlLexer.feed .data x = some (.data, []) :=
    htmlLexer.feed_stay fun c hc => by simp [htmlLexer, htmlStep, h c hc]
  obtain ⟨o, ho⟩ := feed_after .data x
  rw [hf] at ho
  obtain ⟨hd, -⟩ := Prod.mk.inj (Option.some.inj ho)
  refine ⟨hd.symm, ?_⟩
  rw [htmlTags, Transducer.read, hf]
  rfl

/-- Text without a `<` between two such texts plays no part. -/
theorem text_slot {x y z : Bytes} (hx : Closed x) (hz : Closed z) (hy : ∀ c ∈ y, c ≠ lt) :
    Closed (x ++ (y ++ z)) ∧ htmlTags (x ++ (y ++ z)) = htmlTags (x ++ z) := by
  obtain ⟨hy, ht⟩ := text_closed hy
  refine ⟨hx.append (hy.append hz), ?_⟩
  rw [htmlTags_append hx, htmlTags_append hy, ht, htmlTags_append hx]
  rfl

/-! ## Values between double quotes -/

def inValue : HtmlState := .value .blank [] dquote []

theorem value_slot {s : HtmlState} {x y : Bytes} (hx : (after s x).erase = inValue) (hy : ∀ c ∈ y, c ≠ dquote)
    (z : Bytes) : (after s (x ++ (y ++ z))).erase = (after inValue z).erase := by
  rw [erase_after_append, hx, erase_after_append, inValue, after_value hy]

end Vortex
