import Vortex.AvLog
import Vortex.Html
import Vortex.VideoData

/-!
# What ffmpeg prints about a file

`av_dump_format` down to the end of its Duration line, and `dump_metadata`,
with the arithmetic of C: 64-bit values that are divided and then cut to an
`int`.
-/

namespace Vortex

open Ascii

/-! ## printf -/

/-- A value stored in an `int`. -/
def cInt (x : Int) : Int := x.bmod (2 ^ 32)

/-- `%d`. -/
def signedDecimal (n : Int) : Bytes := (if n < 0 then [dash] else []) ++ decimal n.natAbs

/-- `%02d`. -/
def pad2 (n : Int) : Bytes := if n < 0 then dash :: decimal n.natAbs else twoDigits n.toNat

/-- `%06d` for what is not negative. -/
def pad6 (n : Nat) : Bytes := List.replicate (6 - (decimal n).length) zero ++ decimal n

/-- `%-16s`. -/
def padRight (x : Bytes) : Bytes := x ++ List.replicate (16 - x.length) space

/-! ## dump_metadata -/

/-- What `strcspn` stops at. -/
def isBreak (c : Byte) : Bool := c == 8 || c == 10 || c == 11 || c == 12 || c == 13

def tagHead (indent key : Bytes) : Bytes := indent ++ str "  " ++ padRight key ++ str ": "

/-- The messages for a value: it is cut at the breaks, each piece to what fits
in `tmp`. -/
def dumpValue (indent p : Bytes) : List Bytes :=
  if p = [] then []
  else
    (p.takeWhile fun c => !isBreak c).take 255 ::
      match _h : p.dropWhile fun c => !isBreak c with
      | [] => []
      | c :: p' =>
        (if c = 13 then [str " "] else []) ++ (if c = newline then [newline :: tagHead indent []] else []) ++
          dumpValue indent p'
  termination_by p.length
  decreasing_by
    have := (List.dropWhile_suffix (l := p) fun c => !isBreak c).length_le
    rw [_h, List.length_cons] at this
    omega

def dumpTag (indent : Bytes) (tag : Bytes × Bytes) : List Bytes :=
  if tag.1 = str "language" then [] else tagHead indent tag.1 :: (dumpValue indent tag.2 ++ [[newline]])

/-- `av_dict_get` without flags ignores case. -/
def dumpMetadata (indent : Bytes) (m : List (Bytes × Bytes)) : List Bytes :=
  if m = [] || (m.length == 1 && m.any fun tag => tag.1.map lower == str "language") then []
  else (indent ++ str "Metadata:\n") :: m.flatMap (dumpTag indent)

/-! ## av_dump_format -/

def avTimeBase : Int := 1000000

/-- `AV_NOPTS_VALUE`. -/
def noPts : Int := -0x8000000000000000

def int64Max : Int := 0x7fffffffffffffff

structure FormatContext where
  iformat : Bytes
  url : Bytes
  metadata : List (Bytes × Bytes)
  duration : Int
  startTime : Int
  bitRate : Int

namespace FormatContext

variable (c : FormatContext)

def durationText : Bytes :=
  if c.duration ≠ noPts then
    let duration := c.duration + if c.duration ≤ int64Max - 5000 then 5000 else 0
    let secs := cInt (duration.tdiv avTimeBase)
    let us := cInt (duration.tmod avTimeBase)
    let mins := secs.tdiv 60
    let secs := secs.tmod 60
    let hours := mins.tdiv 60
    let mins := mins.tmod 60
    pad2 hours ++ colon :: (pad2 mins ++ colon :: (pad2 secs ++ dot :: pad2 ((100 * us).tdiv avTimeBase)))
  else str "N/A"

/-- The messages of the start, whose sign is that of its seconds. -/
def startTexts : List Bytes :=
  if c.startTime ≠ noPts then
    let secs := cInt (c.startTime.tdiv avTimeBase)
    let us := (c.startTime.tmod avTimeBase).natAbs
    [str ", start: ", signedDecimal secs ++ dot :: pad6 us]
  else []

def bitrateText : Bytes :=
  if c.bitRate ≠ 0 then signedDecimal (c.bitRate.tdiv 1000) ++ str " kb/s" else str "N/A"

def durationMessages : List Bytes :=
  str "  Duration: " :: c.durationText :: (c.startTexts ++ [str ", bitrate: ", c.bitrateText, str "\n"])

def inputMessage : Bytes := str "Input #0, " ++ c.iformat ++ str ", from '" ++ c.url ++ str "':\n"

/-- `av_dump_format` for an input, before its chapters. -/
def messages : List Bytes := c.inputMessage :: (dumpMetadata (str "  ") c.metadata ++ c.durationMessages)

end FormatContext

/-! ## No message repeats the one before it -/

/-- A message that ends no line. -/
def Quiet (m : Bytes) : Prop := m = [] ∨ endsLine m = false

theorem quiet_of_last {m : Bytes} {c : Byte} (h : m.getLast? = some c) (hc : c ≠ newline ∧ c ≠ 13) : Quiet m := by
  right
  rw [endsLine, h]
  simp [hc]

theorem quiet_of_forall {m : Bytes} (h : ∀ c ∈ m, c ≠ newline ∧ c ≠ 13) : Quiet m := by
  rcases List.eq_nil_or_concat m with rfl | ⟨m, c, rfl⟩
  · exact .inl rfl
  · exact quiet_of_last (by simp) (h c (by simp))

theorem quiet_ne {m : Bytes} (h : Quiet m) : m.take (lineSize - 1) ≠ [newline] := by
  rcases h with rfl | h
  · simp
  · intro ht
    have hm : m = [newline] := by
      have hlen := congrArg List.length ht
      rw [List.length_take, List.length_singleton, lineSize] at hlen
      rw [List.take_of_length_le (by rw [lineSize]; omega)] at ht
      exact ht
    rw [hm] at h
    cases h

theorem fresh_quiet {rest : List Bytes} (h : ∀ p, p ≠ [newline] → Fresh p rest) :
    ∀ {qs : List Bytes} {prev : Bytes}, qs ≠ [] → (∀ m ∈ qs, Quiet m) → Fresh prev (qs ++ rest)
  | [q], prev, _, hq => by
    have hq := hq q (List.mem_cons_self ..)
    exact ⟨hq.imp_right .inl, h _ (quiet_ne hq)⟩
  | q :: q' :: qs, prev, _, hq => by
    have hfirst := hq q (List.mem_cons_self ..)
    exact ⟨hfirst.imp_right .inl,
      fresh_quiet h (List.cons_ne_nil q' qs) fun m hm => hq m (List.mem_cons_of_mem _ hm)⟩

theorem tagHead_quiet (indent key : Bytes) (x : Bytes) : Quiet (x ++ tagHead indent key) := by
  have hlast : (x ++ tagHead indent key).getLast? = some space := by
    have hend : str ": " = [colon, space] := rfl
    rw [tagHead, hend]
    simp
  exact quiet_of_last hlast (by decide)

theorem dumpValue_quiet (indent p : Bytes) : ∀ m ∈ dumpValue indent p, Quiet m := by
  induction p using dumpValue.induct with
  | case1 => simp [dumpValue]
  | case2 p hp ih =>
    have hpiece : Quiet ((p.takeWhile fun c => !isBreak c).take 255) := by
      apply quiet_of_forall
      intro c hc
      have := List.mem_takeWhile_imp (List.mem_of_mem_take hc)
      simp only [isBreak, Bool.not_eq_true', Bool.or_eq_false_iff, beq_eq_false_iff_ne] at this
      exact ⟨this.1.1.1.2, this.2⟩
    rw [dumpValue, if_neg hp, List.forall_mem_cons]
    refine ⟨hpiece, ?_⟩
    split
    · nofun
    · rename_i c p' hdrop
      intro m hm
      rw [List.mem_append, List.mem_append] at hm
      rcases hm with (hm | hm) | hm
      · split at hm
        · rw [List.mem_singleton.mp hm]
          exact .inr (by decide +kernel)
        · cases hm
      · split at hm
        · rw [List.mem_singleton.mp hm]
          exact tagHead_quiet indent [] [newline]
        · cases hm
      · exact ih c p' hdrop m hm

theorem dumpTag_fresh {rest : List Bytes} (h : ∀ p, Fresh p rest) (indent : Bytes) (tag : Bytes × Bytes) (prev : Bytes) :
    Fresh prev (dumpTag indent tag ++ rest) := by
  unfold dumpTag
  split
  · exact h prev
  · have hend : ∀ p, p ≠ [newline] → Fresh p ([newline] :: rest) := fun p hp => ⟨.inr (.inr (Ne.symm hp)), h _⟩
    have hquiet : ∀ m ∈ tagHead indent tag.1 :: dumpValue indent tag.2, Quiet m := by
      rw [List.forall_mem_cons]
      exact ⟨tagHead_quiet indent tag.1 [], dumpValue_quiet indent tag.2⟩
    have hall : Fresh prev ((tagHead indent tag.1 :: dumpValue indent tag.2) ++ ([newline] :: rest)) :=
      fresh_quiet hend (List.cons_ne_nil _ _) hquiet
    rw [List.cons_append, List.append_assoc]
    exact hall

theorem tags_fresh {rest : List Bytes} (h : ∀ p, Fresh p rest) (indent : Bytes) :
    ∀ (m : List (Bytes × Bytes)) (prev : Bytes), Fresh prev (m.flatMap (dumpTag indent) ++ rest)
  | [], prev => h prev
  | tag :: m, prev => by
    rw [List.flatMap_cons, List.append_assoc]
    exact dumpTag_fresh (fun p => tags_fresh h indent m p) indent tag prev

/-! ## Lines of metadata -/

/-- Text after the head of a tag: more lines, each with a head of its own. -/
def Continued (indent x : Bytes) : Prop :=
  ∃ (first : Bytes) (ls : List Bytes), x = first ++ ls.flatMap (fun l => newline :: (tagHead indent [] ++ l)) ∧
    newline ∉ first ∧ ∀ l ∈ ls, newline ∉ l

theorem Continued.text {indent x y : Bytes} (hy : newline ∉ y) (h : Continued indent x) : Continued indent (y ++ x) := by
  obtain ⟨first, ls, rfl, hf, hls⟩ := h
  refine ⟨y ++ first, ls, by rw [List.append_assoc], fun hn => ?_, hls⟩
  exact (List.mem_append.mp hn).elim hy hf

theorem Continued.line {indent x : Bytes} (h : Continued indent x) :
    Continued indent (newline :: tagHead indent [] ++ x) := by
  obtain ⟨first, ls, rfl, hf, hls⟩ := h
  refine ⟨[], first :: ls, ?_, nofun, List.forall_mem_cons.mpr ⟨hf, hls⟩⟩
  rw [List.flatMap_cons, List.nil_append]
  simp only [List.cons_append, List.append_assoc]

theorem dumpValue_continued (indent p : Bytes) : Continued indent (dumpValue indent p).flatten := by
  induction p using dumpValue.induct with
  | case1 =>
    rw [dumpValue, if_pos rfl]
    exact ⟨[], [], rfl, nofun, nofun⟩
  | case2 p hp ih =>
    have hpiece : newline ∉ (p.takeWhile fun c => !isBreak c).take 255 := by
      intro hn
      have := List.mem_takeWhile_imp (List.mem_of_mem_take hn)
      cases this
    rw [dumpValue, if_neg hp, List.flatten_cons]
    apply Continued.text hpiece
    split
    · exact ⟨[], [], rfl, nofun, nofun⟩
    · rename_i c p' hdrop
      have hrest := ih c p' hdrop
      by_cases hcr : c = 13
      · have hne : ¬ c = newline := by rw [hcr]; decide
        rw [if_pos hcr, if_neg hne, List.append_nil, List.flatten_append]
        exact hrest.text (by simp [str, newline])
      · by_cases hnl : c = newline
        · rw [if_neg hcr, if_pos hnl, List.nil_append, List.flatten_append, List.flatten_singleton]
          exact hrest.line
        · rw [if_neg hcr, if_neg hnl]
          exact hrest

/-- Lines that a prefix begins, each with its end. -/
def LinesFrom (head x : Bytes) : Prop := ∃ ls : List Bytes, x = ls.flatMap (fun l => head ++ l ++ [newline]) ∧ ∀ l ∈ ls, newline ∉ l

theorem LinesFrom.append {head x y : Bytes} (hx : LinesFrom head x) (hy : LinesFrom head y) : LinesFrom head (x ++ y) := by
  obtain ⟨ls, rfl, hls⟩ := hx
  obtain ⟨ls', rfl, hls'⟩ := hy
  refine ⟨ls ++ ls', by rw [List.flatMap_append], fun l hl => ?_⟩
  exact (List.mem_append.mp hl).elim (hls l) (hls' l)

/-- Each line of a tag begins with the indent and two blanks more. -/
theorem dumpTag_lines {indent : Bytes} {tag : Bytes × Bytes} (hk : newline ∉ tag.1) :
    LinesFrom (indent ++ str "  ") (dumpTag indent tag).flatten := by
  have hpad : ∀ {k : Bytes}, newline ∉ k → newline ∉ padRight k ++ str ": " := by
    intro k hk hn
    have hend : newline ∉ str ": " := by simp [str, newline]
    rw [padRight, List.mem_append, List.mem_append] at hn
    rcases hn with (hn | hn) | hn
    · exact hk hn
    · cases List.eq_of_mem_replicate hn
    · exact hend hn
  have key : ∀ (ls : List Bytes) (first : Bytes), newline ∉ first → (∀ l ∈ ls, newline ∉ l) →
      LinesFrom (indent ++ str "  ") (indent ++ str "  " ++ (first ++
        (ls.flatMap (fun l => newline :: (tagHead indent [] ++ l)) ++ [newline]))) := by
    intro ls
    induction ls with
    | nil => exact fun first hf _ => ⟨[first], by simp, by simpa using hf⟩
    | cons l ls ih =>
      intro first hf hls
      rw [List.forall_mem_cons] at hls
      have hl : newline ∉ padRight [] ++ str ": " ++ l := by
        intro hn
        exact (List.mem_append.mp hn).elim (hpad (List.not_mem_nil)) hls.1
      have hone : LinesFrom (indent ++ str "  ") (indent ++ str "  " ++ (first ++ [newline])) :=
        ⟨[first], by simp, by simpa using hf⟩
      have := hone.append (ih _ hl hls.2)
      have hhead : tagHead indent [] ++ l = indent ++ str "  " ++ (padRight [] ++ str ": " ++ l) := by
        simp only [tagHead, List.append_assoc]
      rw [List.flatMap_cons, hhead]
      simp only [List.append_assoc, List.cons_append, List.nil_append] at this ⊢
      exact this
  unfold dumpTag
  split
  · exact ⟨[], rfl, nofun⟩
  · obtain ⟨first, ls, hv, hf, hls⟩ := dumpValue_continued indent tag.2
    have hfirst : newline ∉ padRight tag.1 ++ str ": " ++ first := fun hn => (List.mem_append.mp hn).elim (hpad hk) hf
    have := key ls _ hfirst hls
    rw [List.flatten_cons, List.flatten_append, List.flatten_singleton, hv, tagHead]
    simp only [List.append_assoc] at this ⊢
    exact this

theorem tags_lines {indent : Bytes} : ∀ {m : List (Bytes × Bytes)}, (∀ tag ∈ m, newline ∉ tag.1) →
    LinesFrom (indent ++ str "  ") (m.flatMap (dumpTag indent)).flatten
  | [], _ => ⟨[], rfl, nofun⟩
  | tag :: m, h => by
    rw [List.forall_mem_cons] at h
    rw [List.flatMap_cons, List.flatten_append]
    exact (dumpTag_lines h.1).append (tags_lines h.2)

/-! ## The Duration line -/

def printable (c : Byte) : Bool := 32 ≤ c && c < 127

def AllPrintable (x : Bytes) : Prop := ∀ c ∈ x, printable c = true

theorem AllPrintable.append {x y : Bytes} (hx : AllPrintable x) (hy : AllPrintable y) : AllPrintable (x ++ y) :=
  fun c hc => (List.mem_append.mp hc).elim (hx c) (hy c)

theorem AllPrintable.cons {c : Byte} {x : Bytes} (hc : printable c = true) (hx : AllPrintable x) : AllPrintable (c :: x) :=
  List.forall_mem_cons.mpr ⟨hc, hx⟩

instance (x : Bytes) : Decidable (AllPrintable x) := inferInstanceAs (Decidable (∀ c ∈ x, _))

theorem printable_bounds {c : Byte} (h : printable c = true) : 32 ≤ c.toNat ∧ c.toNat < 127 := by
  rw [printable, Bool.and_eq_true, decide_eq_true_eq, decide_eq_true_eq, UInt8.le_iff_toNat_le, UInt8.lt_iff_toNat_lt] at h
  exact h

theorem sanitize_printable {x : Bytes} (h : AllPrintable x) : x.map sanitize = x := by
  refine (List.map_congr_left fun c hc => ?_).trans x.map_id
  have hb := printable_bounds (h c hc)
  have h₁ : ¬ c < 8 := by
    rw [UInt8.lt_iff_toNat_lt]
    exact Nat.not_lt.mpr (Nat.le_trans (by decide) hb.1)
  have h₂ : ¬ c < 32 := by
    rw [UInt8.lt_iff_toNat_lt]
    exact Nat.not_lt.mpr hb.1
  simp [sanitize, h₁, h₂]

theorem printable_quiet {x : Bytes} (h : AllPrintable x) : Quiet x := by
  apply quiet_of_forall
  intro c hc
  have hb := h c hc
  constructor <;> rintro rfl <;> cases hb

theorem printable_line {x : Bytes} (h : AllPrintable x) : newline ∉ x := fun hn => by cases h _ hn

theorem decimal_printable (n : Nat) : AllPrintable (decimal n) := by
  intro c hc
  have hd := decimal_digits n c hc
  simp only [isDigit, printable, Bool.and_eq_true, decide_eq_true_eq, UInt8.le_iff_toNat_le, UInt8.lt_iff_toNat_lt] at *
  have h₁ : (48 : UInt8).toNat ≤ c.toNat := hd.1
  have h₂ : c.toNat ≤ (57 : UInt8).toNat := hd.2
  exact ⟨Nat.le_trans (by decide) h₁, Nat.lt_of_le_of_lt h₂ (by decide)⟩

theorem signedDecimal_printable (n : Int) : AllPrintable (signedDecimal n) := by
  refine AllPrintable.append ?_ (decimal_printable _)
  split <;> simp [AllPrintable, printable, dash]

theorem twoDigits_printable (n : Nat) : AllPrintable (twoDigits n) := by
  unfold twoDigits
  split
  · exact (decimal_printable n).cons (by decide)
  · exact decimal_printable n

theorem pad2_printable (n : Int) : AllPrintable (pad2 n) := by
  unfold pad2
  split
  · exact (decimal_printable _).cons (by decide)
  · exact twoDigits_printable _

theorem pad6_printable (n : Nat) : AllPrintable (pad6 n) := by
  refine AllPrintable.append (fun c hc => ?_) (decimal_printable n)
  rw [List.eq_of_mem_replicate hc]
  decide

namespace FormatContext

variable (c : FormatContext)

theorem durationText_printable : AllPrintable c.durationText := by
  unfold durationText
  split
  · exact (pad2_printable _).append (((pad2_printable _).append (((pad2_printable _).append ((pad2_printable _).cons
      (by decide))).cons (by decide))).cons (by decide))
  · simp [AllPrintable, str, printable]

theorem startTexts_printable : ∀ m ∈ c.startTexts, AllPrintable m := by
  unfold startTexts
  split
  · simp only [List.forall_mem_cons]
    exact ⟨by simp [AllPrintable, str, printable], (signedDecimal_printable _).append ((pad6_printable _).cons (by decide)),
      nofun⟩
  · nofun

theorem bitrateText_printable : AllPrintable c.bitrateText := by
  unfold bitrateText
  split
  · exact (signedDecimal_printable _).append (by simp [AllPrintable, str, printable])
  · simp [AllPrintable, str, printable]

/-- The line that these messages print. -/
def durationLine : Bytes :=
  str "  Duration: " ++ (c.durationText ++ (c.startTexts.flatten ++ (str ", bitrate: " ++ c.bitrateText)))

def fields : List Bytes := str "  Duration: " :: c.durationText :: (c.startTexts ++ [str ", bitrate: ", c.bitrateText])

theorem fields_printable : ∀ m ∈ c.fields, AllPrintable m := by
  simp only [fields, List.forall_mem_cons, List.forall_mem_append]
  exact ⟨by simp [AllPrintable, str, printable], c.durationText_printable, c.startTexts_printable,
    by simp [AllPrintable, str, printable], c.bitrateText_printable, nofun⟩

theorem durationMessages_eq : c.durationMessages = c.fields ++ [str "\n"] := by
  simp [durationMessages, fields]

theorem fields_flatten : c.fields.flatten = c.durationLine := by
  simp [fields, durationLine]

theorem durationLine_printable : AllPrintable c.durationLine := by
  rw [← c.fields_flatten]
  intro b hb
  obtain ⟨m, hm, hb⟩ := List.mem_flatten.mp hb
  exact c.fields_printable m hm b hb

theorem durationMessages_fresh (prev : Bytes) : Fresh prev c.durationMessages := by
  rw [c.durationMessages_eq]
  have hend : ∀ p, p ≠ [newline] → Fresh p [str "\n"] := fun p hp => ⟨.inr (.inr (Ne.symm hp)), trivial⟩
  exact fresh_quiet hend (List.cons_ne_nil _ _) fun m hm => printable_quiet (c.fields_printable m hm)

theorem messages_fresh {prev : Bytes} (h : c.inputMessage.take (lineSize - 1) ≠ prev) : Fresh prev c.messages := by
  refine ⟨.inr (.inr h), ?_⟩
  have htags := tags_fresh c.durationMessages_fresh (str "  ") c.metadata
  unfold dumpMetadata
  split
  · exact c.durationMessages_fresh _
  · refine ⟨.inr (.inr fun he => ?_), htags _⟩
    have hhead := congrArg List.head? he
    have h₁ : ((str "  " ++ str "Metadata:\n").take (lineSize - 1)).head? = some space := by decide +kernel
    have h₂ : (c.inputMessage.take (lineSize - 1)).head? = some 73 := by
      have hI : str "Input #0, " = 73 :: str "nput #0, " := by simp [str]
      rw [inputMessage, hI]
      rfl
    rw [h₁, h₂] at hhead
    cases hhead

/-! ## The text and its lines -/

/-- The text of the messages before the Duration line. -/
def before : Bytes := c.inputMessage ++ (dumpMetadata (str "  ") c.metadata).flatten

def EndsLine (x : Bytes) : Prop := ∃ y, x = y ++ [newline]

theorem EndsLine.append {x y : Bytes} (hx : EndsLine x) (hy : y = [] ∨ EndsLine y) : EndsLine (x ++ y) := by
  rcases hy with rfl | ⟨y, rfl⟩
  · rw [List.append_nil]
    exact hx
  · exact ⟨x ++ y, by rw [List.append_assoc]⟩

theorem dumpTag_ends (indent : Bytes) (tag : Bytes × Bytes) :
    (dumpTag indent tag).flatten = [] ∨ EndsLine (dumpTag indent tag).flatten := by
  unfold dumpTag
  split
  · exact .inl rfl
  · refine .inr ⟨tagHead indent tag.1 ++ (dumpValue indent tag.2).flatten, ?_⟩
    simp

theorem tags_end (indent : Bytes) : ∀ m : List (Bytes × Bytes),
    (m.flatMap (dumpTag indent)).flatten = [] ∨ EndsLine (m.flatMap (dumpTag indent)).flatten
  | [] => .inl rfl
  | tag :: m => by
    rw [List.flatMap_cons, List.flatten_append]
    rcases dumpTag_ends indent tag with h | h
    · rw [h, List.nil_append]
      exact tags_end indent m
    · exact .inr (h.append (tags_end indent m))

theorem before_ends : EndsLine c.before := by
  have hinput : EndsLine c.inputMessage := by
    have hend : str "':\n" = str "':" ++ [newline] := by simp [str]
    refine ⟨str "Input #0, " ++ c.iformat ++ str ", from '" ++ c.url ++ str "':", ?_⟩
    rw [inputMessage, hend]
    simp only [List.append_assoc]
  apply hinput.append
  unfold dumpMetadata
  split
  · exact .inl rfl
  · have hhead : EndsLine (str "  " ++ str "Metadata:\n") := ⟨str "  Metadata:", by simp [str]⟩
    rw [List.flatten_cons]
    exact .inr (hhead.append (tags_end (str "  ") c.metadata))

/-- What stands in the log before the Duration line, without the end of the
last line. -/
def textBefore (l : Log) : Bytes := (l.out ++ repeated l.count ++ c.before.map sanitize).dropLast

theorem messages_text {l : Log} (h : c.inputMessage.take (lineSize - 1) ≠ l.prev) :
    (c.messages.foldl Log.write l).out = c.textBefore l ++ newline :: (c.durationLine ++ [newline]) := by
  obtain ⟨x, hx⟩ := c.before_ends
  have hnl : sanitize newline = newline := by decide
  have hmsgs : c.messages.flatten.map sanitize = c.before.map sanitize ++ (c.durationLine ++ [newline]) := by
    have hend : (str "\n").map sanitize = [newline] := by simp [str, sanitize]
    rw [messages, c.durationMessages_eq, List.flatten_cons, List.flatten_append, List.flatten_append, c.fields_flatten,
      ← List.append_assoc, List.map_append, ← before, List.map_append, sanitize_printable c.durationLine_printable,
      List.flatten_singleton, hend]
  have hne : c.messages ≠ [] := List.cons_ne_nil _ _
  rw [(Log.write_all hne (c.messages_fresh h)).1, hmsgs, textBefore, hx, List.map_append]
  simp only [List.map_cons, List.map_nil, hnl, ← List.append_assoc, List.dropLast_concat]
  simp only [List.append_assoc, List.cons_append, List.nil_append]

theorem printed_lines {l : Log} (h : c.inputMessage.take (lineSize - 1) ≠ l.prev) (rest : Bytes) :
    textLines ((c.messages.foldl Log.write l).out ++ rest) =
      textLines (c.textBefore l) ++ c.durationLine :: textLines rest := by
  rw [c.messages_text h, List.append_assoc, List.cons_append, textLines_append, List.append_assoc, List.singleton_append,
    textLines_line _ (printable_line c.durationLine_printable)]

end FormatContext

/-! ## The only Duration line -/

def isDurationLine (l : Bytes) : Bool := (str "  Duration: ").isPrefixOf l

theorem blank_no_duration {l x : Bytes} (h : l = str "    " ++ x) : isDurationLine (l.map sanitize) = false := by
  have hblank : (str "    ").map sanitize = str "  " ++ [space, space] := by simp [str, sanitize]
  have hD : str "  Duration: " = str "  " ++ 68 :: str "uration: " := by simp [str]
  rw [isDurationLine, h, List.map_append, hblank, hD, Bool.eq_false_iff]
  intro hp
  rw [List.isPrefixOf_iff_prefix, List.append_assoc, List.prefix_append_right_inj] at hp
  cases (List.cons_prefix_cons.mp hp).1

theorem sanitize_newline {x : Bytes} (h : newline ∉ x) : newline ∉ x.map sanitize := by
  intro hn
  obtain ⟨c, hc, hs⟩ := List.mem_map.mp hn
  unfold sanitize at hs
  split at hs
  · cases hs
  · exact h (hs ▸ hc)

/-- Lines with their ends, none of them a Duration line. -/
def Harmless (x : Bytes) : Prop :=
  ∃ ls : List Bytes, x = ls.flatMap (fun l => l ++ [newline]) ∧ ∀ l ∈ ls, newline ∉ l ∧ isDurationLine l = false

theorem Harmless.append {x y : Bytes} (hx : Harmless x) (hy : Harmless y) : Harmless (x ++ y) := by
  obtain ⟨ls, rfl, hls⟩ := hx
  obtain ⟨ls', rfl, hls'⟩ := hy
  refine ⟨ls ++ ls', by rw [List.flatMap_append], fun l hl => ?_⟩
  exact (List.mem_append.mp hl).elim (hls l) (hls' l)

theorem harmless_line {x : Bytes} (hn : newline ∉ x) (hd : isDurationLine x = false) : Harmless (x ++ [newline]) :=
  ⟨[x], by simp, by simpa using ⟨hn, hd⟩⟩

theorem Harmless.filter {x : Bytes} (h : Harmless x) (y : Bytes) :
    (textLines (x ++ y)).filter isDurationLine = (textLines y).filter isDurationLine := by
  obtain ⟨ls, rfl, hls⟩ := h
  induction ls with
  | nil => rfl
  | cons l ls ih =>
    rw [List.forall_mem_cons] at hls
    rw [List.flatMap_cons, List.append_assoc, List.append_assoc, List.singleton_append, textLines_line l hls.1.1,
      List.filter_cons, hls.1.2]
    exact ih hls.2

theorem LinesFrom.harmless {x : Bytes} (h : LinesFrom (str "    ") x) : Harmless (x.map sanitize) := by
  obtain ⟨ls, rfl, hls⟩ := h
  have hblank : newline ∉ str "    " := by simp [str, newline]
  have hnl : sanitize newline = newline := by decide
  induction ls with
  | nil => exact ⟨[], rfl, nofun⟩
  | cons l ls ih =>
    rw [List.forall_mem_cons] at hls
    have hl : newline ∉ str "    " ++ l := fun hn => (List.mem_append.mp hn).elim hblank hls.1
    have hone := harmless_line (sanitize_newline hl) (blank_no_duration (l := str "    " ++ l) rfl)
    rw [List.flatMap_cons, List.map_append, List.map_append, List.map_singleton, hnl]
    exact hone.append (ih hls.2)

/-- Whatever the values of the metadata are, the Duration line is the only one
that begins like it. -/
theorem FormatContext.one_duration_line (c : FormatContext) (hf : newline ∉ c.iformat) (hu : newline ∉ c.url)
    (hk : ∀ tag ∈ c.metadata, newline ∉ tag.1) :
    (textLines (c.before.map sanitize ++ (c.durationLine ++ [newline]))).filter isDurationLine = [c.durationLine] := by
  have hnl : sanitize newline = newline := by decide
  have hinput : Harmless (c.inputMessage.map sanitize) := by
    have hend : str "':\n" = str "':" ++ [newline] := by simp [str]
    have hI : str "Input #0, " = 73 :: str "nput #0, " := by simp [str]
    have hline : newline ∉ str "Input #0, " ++ c.iformat ++ str ", from '" ++ c.url ++ str "':" := by
      have h₁ : newline ∉ str "Input #0, " := by simp [str, newline]
      have h₂ : newline ∉ str ", from '" := by simp [str, newline]
      have h₃ : newline ∉ str "':" := by simp [str, newline]
      simp only [List.mem_append, not_or]
      exact ⟨⟨⟨⟨h₁, hf⟩, h₂⟩, hu⟩, h₃⟩
    have hno : isDurationLine ((str "Input #0, " ++ c.iformat ++ str ", from '" ++ c.url ++ str "':").map sanitize) = false := by
      rw [hI]
      rfl
    have := harmless_line (sanitize_newline hline) hno
    rw [inputMessage, hend, ← List.append_assoc, List.map_append, List.map_singleton, hnl]
    exact this
  have hmeta : Harmless ((dumpMetadata (str "  ") c.metadata).flatten.map sanitize) := by
    have hindent : str "  " ++ str "  " = str "    " := by simp [str]
    unfold dumpMetadata
    split
    · exact ⟨[], rfl, nofun⟩
    · have hhead : (str "  " ++ str "Metadata:\n").map sanitize = str "  Metadata:" ++ [newline] := by simp [str, sanitize]
      have htags : LinesFrom (str "    ") (c.metadata.flatMap (dumpTag (str "  "))).flatten := hindent ▸ tags_lines hk
      rw [List.flatten_cons, List.map_append, hhead]
      exact (harmless_line (by decide +kernel) (by decide +kernel)).append htags.harmless
  have hself : isDurationLine c.durationLine = true := List.isPrefixOf_iff_prefix.mpr (List.prefix_append ..)
  rw [before, List.map_append, (hinput.append hmeta).filter, textLines_line _ (printable_line c.durationLine_printable)]
  have hempty : ¬ isDurationLine [] = true := by simp [isDurationLine, str]
  rw [textLines, List.filter_cons_of_pos hself, List.filter_cons_of_neg hempty, List.filter_nil]

/-- A comment of two lines, the second like a Duration line. -/
def twoLineComment : FormatContext where
  iformat := str "matroska,webm"
  url := str "/tmp/phpA1b2C3"
  metadata := [(str "COMMENT", str "trailer\n  Duration: 00:00:01.00, start: 0.000000, bitrate: 1 kb/s")]
  duration := 62500000
  startTime := 0
  bitRate := 1205959

theorem two_line_comment_unforged :
    (textLines (twoLineComment.before.map sanitize ++ (twoLineComment.durationLine ++ [newline]))).filter isDurationLine =
      [twoLineComment.durationLine] := by
  have hkeys : ∀ tag ∈ twoLineComment.metadata, newline ∉ tag.1 := by decide +kernel
  exact twoLineComment.one_duration_line (by decide +kernel) (by decide +kernel) hkeys

end Vortex
