import Mathlib.Data.List.DropRight
import Vortex.AttributeRegex

/-!
# The attributes in ffmpeg's report

`videoAttributes` keeps the lines of the report that mention a duration or an
audio stream, puts them together without a separator and runs the attribute
regex over the result. A report is what `av_dump_format` prints: its Duration
line between lines of any text.
-/

namespace Vortex

open Ascii Backtrack Backtrack.Regex

/-! ## videoAttributes -/

/-- `grep "Duration\\|Audio"`. -/
def grepped (line : Bytes) : Bool := decide (str "Duration" <:+: line) || decide (str "Audio" <:+: line)

def isCSpace (c : Byte) : Bool := c == 32 || (9 ≤ c && c ≤ 13)

/-- `exec` strips the white space at the end of a line. -/
def execLine (line : Bytes) : Bytes := line.rdropWhile isCSpace

/-- `$attr_output`, the retained lines imploded. -/
def attrOutput (lines : List Bytes) : Bytes := ((lines.filter grepped).map execLine).flatten

/-- `$match[n][0]`. -/
def groupText (x : Bytes) (m : Cursor Byte) (n : Nat) : Bytes :=
  match m.group n with
  | some (start, length) => (x.drop start).take length
  | none => []

/-- The duration and the bitrate read from the lines of the report; `none` is
the exit to error 11. The status of the pipe is that of `grep`. -/
def videoAttributes (lines : List Bytes) : Option (Bytes × Bytes) :=
  if lines.any grepped then
    (attributeRegex.search (attrOutput lines)).map fun m =>
      (groupText (attrOutput lines) m 1, groupText (attrOutput lines) m 2)
  else none

theorem group_one {m : Cursor Byte} {s t : Nat × Nat} (h : m.groups = [(2, t), (1, s)]) : m.group 1 = some s := by
  rw [Cursor.group, h]
  rfl

theorem group_two {m : Cursor Byte} {s t : Nat × Nat} (h : m.groups = [(2, t), (1, s)]) : m.group 2 = some t := by
  rw [Cursor.group, h]
  rfl

theorem groupText_eq {m : Cursor Byte} {n i l : Nat} (h : m.group n = some (i, l)) {x u w y : Bytes}
    (hx : x = u ++ (w ++ y)) (hi : i = u.length) (hl : l = w.length) : groupText x m n = w := by
  rw [groupText, h, hx, hi, hl]
  exact (congrArg (List.take _) List.drop_left).trans List.take_left

/-- Whatever the lines are, what is stored has the form of `Attributes`. -/
theorem videoAttributes_form {lines : List Bytes} {duration bitrate : Bytes}
    (h : videoAttributes lines = some (duration, bitrate)) :
    isDuration duration = true ∧ bitrate ≠ [] ∧ ∀ c ∈ bitrate, isDigit c = true := by
  unfold videoAttributes at h
  split at h
  · obtain ⟨m, hm, he⟩ := Option.map_eq_some_iff.mp h
    obtain ⟨rfl, rfl⟩ := Prod.mk.inj he
    obtain ⟨u, w, v, n, y, hx, hw, -, hne, hn, hg⟩ := attribute_match hm
    have hx' : attrOutput lines = (u ++ w ++ v) ++ (n ++ y) := by rw [hx]; simp only [List.append_assoc]
    rw [groupText_eq (group_one hg) hx rfl rfl, groupText_eq (group_two hg) hx' (by simp only [List.length_append]) rfl]
    exact ⟨hw, hne, hn⟩
  · cases h

/-- The rest of an upload starts from what was read. -/
theorem attributes_of_lines {lines : List Bytes} {duration bitrate : Bytes}
    (h : videoAttributes lines = some (duration, bitrate)) (uuid : Uniqid) :
    ∃ a : Attributes, a.duration.bytes = duration ∧ a.bitrate.bytes = bitrate ∧ a.uuid = uuid := by
  obtain ⟨hd, hne, hb⟩ := videoAttributes_form h
  exact ⟨⟨⟨duration, hd⟩, ⟨bitrate, hne, hb⟩, uuid⟩, rfl, rfl, rfl⟩

/-! ## Reports -/

structure Line where
  bytes : Bytes
  no_newline : newline ∉ bytes

/-- `HH:MM:SS.cc`, the hours with two digits or more. -/
structure Stamp where
  hours : Bytes
  (m₁ m₂ s₁ s₂ c₁ c₂ : Byte)
  hours_digits : ∀ c ∈ hours, isDigit c = true
  two_hours : 2 ≤ hours.length
  minutes : isMinute m₁ m₂ = true
  seconds : isMinute s₁ s₂ = true
  centis : isDigit c₁ = true ∧ isDigit c₂ = true

def Stamp.hms (d : Stamp) : Bytes := d.hours ++ [colon, d.m₁, d.m₂, colon, d.s₁, d.s₂]

/-- `S.ffffff`. -/
structure Start where
  negative : Bool
  whole : Bytes
  fraction : Bytes
  whole_digits : whole ≠ [] ∧ ∀ c ∈ whole, isDigit c = true
  fraction_digits : fraction.length = 6 ∧ ∀ c ∈ fraction, isDigit c = true

/-- A field that is not known is printed as `N/A`; the start is left out. -/
structure Report where
  before : List Line
  duration : Option Stamp
  start : Option Start
  bitrate : Option Bitrate
  after : List Line

namespace Report

variable (r : Report)

def durationText : Bytes :=
  match r.duration with
  | some d => d.hms ++ [dot, d.c₁, d.c₂]
  | none => str "N/A"

def startText : Bytes :=
  match r.start with
  | some s => str ", start: " ++ (if s.negative then [dash] else []) ++ s.whole ++ [dot] ++ s.fraction
  | none => []

def bitrateText : Bytes :=
  match r.bitrate with
  | some b => b.bytes ++ str " kb/s"
  | none => str "N/A"

def durationLine : Bytes :=
  str "  Duration: " ++ (r.durationText ++ (r.startText ++ (str ", bitrate: " ++ r.bitrateText)))

def lines : List Bytes := r.before.map Line.bytes ++ r.durationLine :: r.after.map Line.bytes

def textBefore : Bytes := attrOutput (r.before.map Line.bytes)

def textAfter : Bytes := attrOutput (r.after.map Line.bytes)

/-- Where the fields of the Duration line are in the imploded text. -/
def durationStart : Nat := r.textBefore.length + (str "  Duration: ").length

def bitrateStart : Nat :=
  r.durationStart + r.durationText.length + r.startText.length + (str ", bitrate: ").length

end Report

theorem attrOutput_append (x y : List Bytes) : attrOutput (x ++ y) = attrOutput x ++ attrOutput y := by
  simp [attrOutput]

theorem attrOutput_cons {line : Bytes} (h : grepped line = true) (x : List Bytes) :
    attrOutput (line :: x) = execLine line ++ attrOutput x := by
  simp [attrOutput, h]

section
variable (r : Report)

theorem grepped_durationLine : grepped r.durationLine = true := by
  have h : str "Duration" <:+: r.durationLine :=
    ⟨str "  ", str ": " ++ (r.durationText ++ (r.startText ++ (str ", bitrate: " ++ r.bitrateText))), rfl⟩
  rw [grepped, decide_eq_true h]
  rfl

theorem execLine_durationLine : execLine r.durationLine = r.durationLine := by
  obtain ⟨y, c, hy, hc⟩ : ∃ y c, r.bitrateText = y ++ [c] ∧ isCSpace c = false := by
    unfold Report.bitrateText
    split
    · rename_i b _
      exact ⟨b.bytes ++ str " kb/", 115, by rw [List.append_assoc]; rfl, by decide⟩
    · exact ⟨str "N/", 65, rfl, by decide⟩
  rw [Report.durationLine, hy, execLine]
  simp only [← List.append_assoc]
  exact List.rdropWhile_concat_neg _ _ _ (by simp [hc])

theorem text_eq : attrOutput r.lines = r.textBefore ++ (r.durationLine ++ r.textAfter) := by
  rw [Report.lines, attrOutput_append, attrOutput_cons (grepped_durationLine r), execLine_durationLine]
  rfl

theorem any_grepped : r.lines.any grepped = true :=
  List.any_eq_true.mpr ⟨r.durationLine, by simp [Report.lines], grepped_durationLine r⟩

theorem videoAttributes_report : videoAttributes r.lines =
    (attributeRegex.search (attrOutput r.lines)).map fun m =>
      (groupText (attrOutput r.lines) m 1, groupText (attrOutput r.lines) m 2) := by
  rw [videoAttributes, if_pos (any_grepped r)]

theorem videoAttributes_none_iff : videoAttributes r.lines = none ↔ timeThenDigits (attrOutput r.lines) = false := by
  rw [videoAttributes_report, Option.map_eq_none_iff, ← Option.not_isSome_iff_eq_none, search_isSome_iff,
    Bool.not_eq_true]

end

/-! ## Reading a report -/

/-- The two groups are the two fields of the Duration line, and their texts are
stored; without one of the fields, error 11. -/
def Agrees (r : Report) : Prop :=
  match r.duration, r.bitrate with
  | some d, some b =>
    (∃ m, attributeRegex.search (attrOutput r.lines) = some m ∧ m.group 1 = some (r.durationStart, d.hms.length) ∧
      m.group 2 = some (r.bitrateStart, b.bytes.length)) ∧ videoAttributes r.lines = some (d.hms, b.bytes)
  | _, _ => videoAttributes r.lines = none

def hasTime (x : Bytes) : Bool := x.tails.any timeAt

/-- With both fields: a start, two digits of hours up to 23, and no time in the
retained lines before. Without a duration: no time anywhere with four digits
after it. -/
def Readable (r : Report) : Prop :=
  match r.duration, r.bitrate with
  | some d, some _ =>
    r.start.isSome ∧ d.hours.length = 2 ∧ digitsVal d.hours ≤ 23 ∧ hasTime r.textBefore = false
  | some _, none => False
  | none, _ => timeThenDigits (attrOutput r.lines) = false

/-! ## Hours -/

theorem isDigit_bounds {c : Byte} (h : isDigit c = true) : 48 ≤ c.toNat ∧ c.toNat ≤ 57 := by
  simp only [isDigit, Bool.and_eq_true, decide_eq_true_eq] at h
  exact ⟨UInt8.le_iff_toNat_le.mp h.1, UInt8.le_iff_toNat_le.mp h.2⟩

theorem hours_le_iff {a b : Byte} (ha : isDigit a = true) (hb : isDigit b = true) :
    (((a == 48 || a == 49) && isDigit b) || (a == 50 && 48 ≤ b && b ≤ 51)) = true ↔ digitsVal [a, b] ≤ 23 := by
  have h₁ := isDigit_bounds ha
  have h₂ := isDigit_bounds hb
  simp only [hb, Bool.and_true, Bool.or_eq_true, Bool.and_eq_true, beq_iff_eq, decide_eq_true_eq, digitsVal,
    List.foldl_cons, List.foldl_nil, UInt8.le_iff_toNat_le, ← UInt8.toNat_inj]
  simp only [UInt8.toNat_ofNat]
  omega

theorem isMinute_digits {a b : Byte} (h : isMinute a b = true) : isDigit a = true ∧ isDigit b = true := by
  simp only [isMinute, isDigit, Bool.and_eq_true, decide_eq_true_eq, UInt8.le_iff_toNat_le] at *
  simp only [UInt8.toNat_ofNat] at *
  omega

theorem isDuration_hms_iff (d : Stamp) :
    isDuration d.hms = true ↔ d.hours.length = 2 ∧ digitsVal d.hours ≤ 23 := by
  obtain ⟨hm, hs⟩ : isMinute d.m₁ d.m₂ = true ∧ isMinute d.s₁ d.s₂ = true := ⟨d.minutes, d.seconds⟩
  have htwo := d.two_hours
  have hd := d.hours_digits
  unfold Stamp.hms
  match d.hours, htwo, hd with
  | [a, b], _, hd =>
    have ha := hd a (by simp)
    have hb := hd b (by simp)
    have hr : isMinutesOn [d.m₁, d.m₂, colon, d.s₁, d.s₂] = true := by
      change (isMinute d.m₁ d.m₂ && (isMinute d.s₁ d.s₂ && true)) = true
      rw [hm, hs]
      rfl
    change (if b = colon then _ else (_ && (_ && isMinutesOn [d.m₁, d.m₂, colon, d.s₁, d.s₂]))) = true ↔ _
    rw [if_neg (isDigit_ne_colon hb), hr, ← hours_le_iff ha hb]
    simp
  | a :: b :: c :: x, _, hd =>
    have hb := isDigit_ne_colon (hd b (by simp))
    have hc := isDigit_ne_colon (hd c (by simp))
    change (if b = colon then _ else (_ && ((c == colon) && _))) = true ↔ _
    rw [if_neg hb, beq_false_of_ne hc]
    simp

/-! ## Both fields -/

/-- The text between the two fields. -/
def Report.between (r : Report) (d : Stamp) : Bytes := [dot, d.c₁, d.c₂] ++ (r.startText ++ str ", bitrate: ")

section
variable {r : Report} {d : Stamp} {b : Bitrate}

theorem text_of_duration (hd : r.duration = some d) : attrOutput r.lines =
    (r.textBefore ++ str "  Duration: ") ++ (d.hms ++ (r.between d ++ (r.bitrateText ++ r.textAfter))) := by
  rw [text_eq, Report.durationLine, Report.durationText, hd, Report.between]
  simp only [List.append_assoc]

theorem text_of_fields (hd : r.duration = some d) (hb : r.bitrate = some b) : attrOutput r.lines =
    (r.textBefore ++ str "  Duration: ") ++ (d.hms ++ (r.between d ++ (b.bytes ++ (str " kb/s" ++ r.textAfter)))) := by
  rw [text_of_duration hd, Report.bitrateText, hb]
  simp only [List.append_assoc]

theorem durationStart_eq : r.durationStart = (r.textBefore ++ str "  Duration: ").length := by
  rw [Report.durationStart, List.length_append]

theorem bitrateStart_eq (hd : r.duration = some d) :
    r.bitrateStart = r.durationStart + d.hms.length + (r.between d).length := by
  rw [Report.bitrateStart, Report.durationText, hd, Report.between]
  simp only [List.length_append, List.length_cons, List.length_nil]
  omega

/-- Groups in the places of the fields have their texts. -/
theorem texts_of_spans (hd : r.duration = some d) (hb : r.bitrate = some b) {m : Cursor Byte}
    (hm : attributeRegex.search (attrOutput r.lines) = some m) (h₁ : m.group 1 = some (r.durationStart, d.hms.length))
    (h₂ : m.group 2 = some (r.bitrateStart, b.bytes.length)) :
    isDuration d.hms = true ∧ 3 ≤ (r.between d).countP isDigit ∧
      videoAttributes r.lines = some (d.hms, b.bytes) := by
  obtain ⟨u, w, v, n, y, hx, hw, hv, -, -, hg⟩ := attribute_match hm
  have hs₁ := Option.some.inj (h₁.symm.trans (group_one hg))
  have hs₂ := Option.some.inj (h₂.symm.trans (group_two hg))
  obtain ⟨hu, hwl⟩ := Prod.mk.inj hs₁
  obtain ⟨hstart, hnl⟩ := Prod.mk.inj hs₂
  rw [bitrateStart_eq hd] at hstart
  have ht := text_of_fields hd hb
  rw [ht] at hx
  obtain ⟨-, hx⟩ := List.append_inj hx (by rw [← hu, durationStart_eq])
  obtain ⟨hw', hx⟩ := List.append_inj hx hwl
  obtain ⟨hv', hx⟩ := List.append_inj hx (by omega)
  rw [hw', hv']
  refine ⟨hw, hv, ?_⟩
  have ht' : attrOutput r.lines = ((r.textBefore ++ str "  Duration: ") ++ d.hms ++ r.between d) ++
      (b.bytes ++ (str " kb/s" ++ r.textAfter)) := by
    rw [ht]
    simp only [List.append_assoc]
  rw [videoAttributes_report, hm, Option.map_some, ← hw', groupText_eq h₁ ht durationStart_eq rfl,
    groupText_eq h₂ ht' (by rw [bitrateStart_eq hd, durationStart_eq]; simp only [List.length_append]) rfl]

theorem between_digits (r : Report) (d : Stamp) :
    (r.between d).countP isDigit = 2 + r.startText.countP isDigit := by
  have hbr : (str ", bitrate: ").countP isDigit = 0 := by decide +kernel
  have hdot : isDigit dot = false := by decide
  rw [Report.between, List.countP_append, List.countP_append, hbr]
  simp [hdot, d.centis]

theorem hms_digits (d : Stamp) : 6 ≤ d.hms.countP isDigit := by
  have hh : d.hours.countP isDigit = d.hours.length := List.countP_eq_length.mpr d.hours_digits
  have hm := isMinute_digits d.minutes
  have hs := isMinute_digits d.seconds
  have hc : isDigit colon = false := by decide
  have := d.two_hours
  rw [Stamp.hms, List.countP_append, hh]
  simp only [List.countP_cons, List.countP_nil, hm, hs, hc]
  simp
  omega

/-! ## A time in an earlier line -/

theorem hasTime_iff {x : Bytes} : hasTime x = true ↔ ∃ u v, x = u ++ v ∧ timeAt v = true := by
  simp only [hasTime, List.any_eq_true, List.mem_tails]
  constructor
  · rintro ⟨v, ⟨u, rfl⟩, h⟩
    exact ⟨u, v, rfl, h⟩
  · rintro ⟨u, v, rfl, h⟩
    exact ⟨v, ⟨u, rfl⟩, h⟩

theorem group_one_start {i : Nat} {z : Bytes} {m : Cursor Byte}
    (h : m ∈ (Regex.seq (.group 1 clockRegex) (numbersRegex 3)).run ⟨i, z, []⟩) : ∃ l, m.group 1 = some (i, l) := by
  obtain ⟨a, ha, hm⟩ := List.mem_flatMap.mp h
  obtain ⟨c, hc, rfl⟩ := List.mem_map.mp ha
  obtain ⟨w, v, y, -, -, -, -, hg⟩ := numbers_mem hm
  rw [groups_of_plain rfl hc] at hg
  exact ⟨_, group_one hg⟩

/-- The match begins no later than any time with four digits after it. -/
theorem match_start_le {x u v : Bytes} (hx : x = u ++ v) (ht : timeAt v = true) (hd : 4 ≤ (v.drop 4).countP isDigit)
    {m : Cursor Byte} (hm : attributeRegex.search x = some m) : ∃ i l, m.group 1 = some (i, l) ∧ i ≤ u.length := by
  rw [hx, attributeRegex, anything, search_few_seq] at hm
  obtain ⟨u', v', m', rfl, hf, hm'⟩ := first_few_seq_le (i := 0) (w := u) (fun _ _ => rfl) (clock_numbers_ne_nil ht hd _ [])
  obtain rfl := Option.some.inj (hm.symm.trans hf)
  obtain ⟨l, hl⟩ := group_one_start (first_mem hm')
  refine ⟨_, l, hl, ?_⟩
  rw [Nat.zero_add, List.length_append]
  exact Nat.le_add_right ..

theorem no_time_before (hd : r.duration = some d) {m : Cursor Byte} {l : Nat}
    (hm : attributeRegex.search (attrOutput r.lines) = some m) (h₁ : m.group 1 = some (r.durationStart, l)) :
    hasTime r.textBefore = false := by
  rw [Bool.eq_false_iff]
  intro h
  obtain ⟨u, v, hP, ht⟩ := hasTime_iff.mp h
  have hx : attrOutput r.lines =
      u ++ (v ++ (str "  Duration: " ++ (d.hms ++ (r.between d ++ (r.bitrateText ++ r.textAfter))))) := by
    rw [text_of_duration hd, hP]
    simp only [List.append_assoc]
  have hfour : 4 ≤ ((v ++ (str "  Duration: " ++ (d.hms ++ (r.between d ++ (r.bitrateText ++ r.textAfter))))).drop
      4).countP isDigit := by
    obtain ⟨a, e, f, z, rfl, -, -⟩ := timeAt_iff.mp ht
    have := hms_digits d
    simp only [List.cons_append, List.drop_succ_cons, List.drop_zero, List.countP_append]
    omega
  obtain ⟨i, l', hi, hle⟩ := match_start_le hx (timeAt_append ht _) hfour hm
  obtain ⟨rfl, -⟩ := Prod.mk.inj (Option.some.inj (hi.symm.trans h₁))
  rw [Report.durationStart, hP, List.length_append] at hle
  have : (str "  Duration: ").length = 12 := by decide +kernel
  omega

/-! ## A report that is read as it is meant -/

theorem not_digit_of_str {t : String} (h : (str t).all (fun c => !isDigit c) = true) :
    ∀ c ∈ str t, isDigit c = false := by
  intro c hc
  simpa using List.all_eq_true.mp h c hc

/-- Before the Duration field no time begins, if there is none in the earlier lines. -/
theorem no_clock_before {P t : Bytes} (hP : hasTime P = false) {u v : Bytes} (h : P ++ str "  Duration: " = u ++ v)
    (hv : v ≠ []) (i : Nat) (g : List (Nat × Nat × Nat)) : clockRegex.run ⟨i, v ++ t, g⟩ = [] := by
  rcases List.append_eq_append_iff.mp h with ⟨y, -, hy⟩ | ⟨y, hu, rfl⟩
  · obtain ⟨c, v, rfl⟩ := List.exists_cons_of_ne_nil hv
    have hc : isDigit c = false :=
      not_digit_of_str (t := "  Duration: ") (by decide +kernel) c (by rw [hy]; simp)
    exact clock_run_nil_of_head hc ..
  · have hno : ∀ u' v', y = u' ++ v' → timeAt v' = false := by
      rintro u' v' rfl
      rw [Bool.eq_false_iff]
      intro ht
      have : hasTime P = true := hasTime_iff.mpr ⟨u ++ u', v', by rw [hu, List.append_assoc], ht⟩
      rw [hP] at this
      cases this
    rw [List.append_assoc]
    exact clock_run_nil (c := space) (t := str " Duration: " ++ t) hno (by decide) (by decide) ..

/-- What stands before the digits of the start. -/
def Start.gap (s : Start) : Bytes := str ", start: " ++ if s.negative then [dash] else []

theorem gap_not_digit (s : Start) : ∀ c ∈ s.gap, isDigit c = false := by
  intro c hc
  rcases List.mem_append.mp hc with hc | hc
  · exact not_digit_of_str (t := ", start: ") (by decide +kernel) c hc
  · split at hc
    · rw [List.mem_singleton.mp hc]
      decide
    · cases hc

theorem fraction_ne_nil (s : Start) : s.fraction ≠ [] := by
  intro hnil
  have := s.fraction_digits.1
  rw [hnil] at this
  cases this

/-- Behind the time there are four numbers, the last of them the bitrate. -/
def afterTime (d : Stamp) (s : Start) (b : Bitrate) (y : Bytes) : Bytes :=
  [dot] ++ ([d.c₁, d.c₂] ++ (s.gap ++ (s.whole ++ ([dot] ++ (s.fraction ++ (str ", bitrate: " ++ (b.bytes ++ y)))))))

theorem between_eq {s : Start} (hs : r.start = some s) (y : Bytes) :
    r.between d ++ (b.bytes ++ y) = afterTime d s b y := by
  rw [Report.between, Report.startText, hs, afterTime, Start.gap]
  simp only [List.append_assoc, List.cons_append, List.nil_append]

theorem between_length {s : Start} (hs : r.start = some s) : (r.between d).length =
    3 + s.gap.length + s.whole.length + 1 + s.fraction.length + (str ", bitrate: ").length := by
  rw [Report.between, Report.startText, hs, Start.gap]
  simp only [List.length_append, List.length_cons, List.length_nil]
  omega

theorem first_afterTime {s : Start} {y : Bytes} (hs : r.start = some s) (hy : ∀ c ∈ y.head?, isDigit c = false) (i : Nat)
    (g : List (Nat × Nat × Nat)) : ∃ m, (numbersRegex 3).first ⟨i, afterTime d s b y, g⟩ = some m ∧
      m.groups = (2, i + (r.between d).length, b.bytes.length) :: g := by
  have hdot : ∀ c ∈ [dot], isDigit c = false := by simp; decide
  have hcc : ∀ c ∈ [d.c₁, d.c₂], isDigit c = true := by simp [d.centis]
  have hbit : ∀ c ∈ str ", bitrate: ", isDigit c = false := not_digit_of_str (by decide +kernel)
  refine ⟨_, first_number hdot (by simp) hcc (by simp [Start.gap, str]; decide) (first_number (gap_not_digit s)
    s.whole_digits.1 s.whole_digits.2 (by simp; decide) (first_number hdot (fraction_ne_nil s) s.fraction_digits.2
      (by simp [str]; decide) (first_last_number hbit b.ne_nil b.digits hy))), ?_⟩
  rw [between_length hs]
  simp only [List.length_cons, List.length_nil, List.cons.injEq, Prod.mk.injEq, true_and, and_true]
  omega

theorem search_of_readable {s : Start} (hd : r.duration = some d) (hb : r.bitrate = some b) (hs : r.start = some s)
    (hlen : d.hours.length = 2) (hle : digitsVal d.hours ≤ 23) (hP : hasTime r.textBefore = false) :
    ∃ m, attributeRegex.search (attrOutput r.lines) = some m ∧ m.group 1 = some (r.durationStart, d.hms.length) ∧
      m.group 2 = some (r.bitrateStart, b.bytes.length) := by
  obtain ⟨h, k, hhk⟩ := List.length_eq_two.mp hlen
  have hdig := d.hours_digits
  rw [hhk] at hdig hle
  have hh := hdig h (by simp)
  have hk := hdig k (by simp)
  have hhms : d.hms = [h, k, colon, d.m₁, d.m₂, colon, d.s₁, d.s₂] := by rw [Stamp.hms, hhk]; rfl
  have ht := text_of_fields hd hb
  rw [between_eq hs] at ht
  obtain ⟨m, hm, hg⟩ := first_afterTime (r := r) (d := d) (b := b) (y := str " kb/s" ++ r.textAfter) hs
    (by simp [str]; decide) (r.durationStart + 8) [(1, r.durationStart, r.durationStart + 8 - r.durationStart)]
  refine ⟨m, ?_, ?_, ?_⟩
  · rw [ht, attributeRegex, anything, search_few_seq]
    refine first_few_seq (fun _ _ => rfl) (fun u v huv hv => ?_) ?_
    · rw [run, run, no_clock_before hP huv hv]
      rfl
    · rw [Nat.zero_add, ← durationStart_eq, hhms]
      exact first_seq_of (first_group (first_clock hk ((hours_le_iff hh hk).mpr hle) d.minutes d.seconds _ _) 1) hm
  · rw [group_one hg, hhms, Nat.add_sub_cancel_left]
    rfl
  · rw [group_two hg, bitrateStart_eq hd, hhms]
    rfl

/-! ## When the reader agrees -/

theorem agrees_fields_iff (hd : r.duration = some d) (hb : r.bitrate = some b) :
    (∃ m, attributeRegex.search (attrOutput r.lines) = some m ∧ m.group 1 = some (r.durationStart, d.hms.length) ∧
      m.group 2 = some (r.bitrateStart, b.bytes.length)) ↔
      r.start.isSome ∧ d.hours.length = 2 ∧ digitsVal d.hours ≤ 23 ∧ hasTime r.textBefore = false := by
  constructor
  · rintro ⟨m, hm, h₁, h₂⟩
    obtain ⟨hdur, hcount, -⟩ := texts_of_spans hd hb hm h₁ h₂
    obtain ⟨hlen, hle⟩ := (isDuration_hms_iff d).mp hdur
    refine ⟨?_, hlen, hle, no_time_before hd hm h₁⟩
    by_contra hs
    -- the two digits of the centiseconds are not the three numbers that are passed over
    rw [Option.not_isSome_iff_eq_none] at hs
    rw [between_digits, Report.startText, hs] at hcount
    simp at hcount
  · rintro ⟨hs, hlen, hle, hP⟩
    obtain ⟨s, hs⟩ := Option.isSome_iff_exists.mp hs
    exact search_of_readable hd hb hs hlen hle hP

/-- A duration is always taken for a match: without a bitrate, digits from
elsewhere are stored. -/
theorem not_none_of_duration (hd : r.duration = some d) : videoAttributes r.lines ≠ none := by
  intro h
  rw [videoAttributes_none_iff, Bool.eq_false_iff] at h
  refine h (timeThenDigits_iff.mpr ?_)
  have hne : d.hours ≠ [] := by
    intro hnil
    have := d.two_hours
    rw [hnil] at this
    cases this
  obtain ⟨u, k, hk⟩ : ∃ u k, d.hours = u ++ [k] := ⟨_, _, (List.dropLast_append_getLast hne).symm⟩
  have hkd : isDigit k = true := d.hours_digits k (by rw [hk]; simp)
  have hs := isMinute_digits d.seconds
  refine ⟨r.textBefore ++ str "  Duration: " ++ u, k :: colon :: d.m₁ :: d.m₂ ::
    ([colon, d.s₁, d.s₂] ++ (r.between d ++ (r.bitrateText ++ r.textAfter))), ?_, ?_, ?_⟩
  · rw [text_of_duration hd, Stamp.hms, hk]
    simp only [List.append_assoc, List.cons_append, List.nil_append]
  · exact timeAt_iff.mpr ⟨k, d.m₁, d.m₂, _, rfl, hkd, d.minutes⟩
  · have hc : isDigit colon = false := by decide
    have := between_digits r d
    simp only [List.drop_succ_cons, List.drop_zero, List.countP_append, List.countP_cons, List.countP_nil, hs, hc]
    simp
    omega

end

theorem agrees_of_both_iff (hd : r.duration = some d) (hb : r.bitrate = some b) :
    Agrees r ↔ r.start.isSome ∧ d.hours.length = 2 ∧ digitsVal d.hours ≤ 23 ∧ hasTime r.textBefore = false := by
  rw [Agrees, hd, hb]
  apply Iff.trans _ (agrees_fields_iff hd hb)
  constructor
  · exact And.left
  · rintro ⟨m, hm, h₁, h₂⟩
    exact ⟨⟨m, hm, h₁, h₂⟩, (texts_of_spans hd hb hm h₁ h₂).2.2⟩

/-- The attributes are read from the Duration line, or error 11 is taken where
a field is missing, exactly in the readable reports. -/
theorem agrees_iff_readable (r : Report) : Agrees r ↔ Readable r := by
  rw [Readable]
  cases hd : r.duration with
  | none =>
    rw [Agrees, hd]
    exact videoAttributes_none_iff r
  | some d =>
    cases hb : r.bitrate with
    | none =>
      rw [Agrees, hd, hb]
      exact iff_of_false (not_none_of_duration hd) not_false
    | some b => exact agrees_of_both_iff hd hb

/-! ## A report without a bitrate -/

def streamReport : Report where
  before := []
  duration := some ⟨str "00", 48, 49, 48, 50, 53, 48, by decide +kernel, by decide +kernel, by decide +kernel,
    by decide +kernel, by decide +kernel⟩
  start := some ⟨false, str "0", str "000000", by decide +kernel, by decide +kernel⟩
  bitrate := none
  after := [⟨str "    Stream #0:1(und): Audio: aac (LC), 44100 Hz, stereo", by decide +kernel⟩]

/-- The stream number is stored as the bitrate. -/
theorem streamReport_disagrees : ¬ Agrees streamReport := by
  have h : videoAttributes streamReport.lines = some (str "00:01:02", str "0") := by decide +kernel
  change videoAttributes streamReport.lines ≠ none
  rw [h]
  nofun

end Vortex
