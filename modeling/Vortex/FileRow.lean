import Vortex.Columns
import Vortex.Dump
import Vortex.Report

/-!
# From the file to the row

The Duration line that `av_dump_format` prints is that of a report, so what is
known of the attribute reader holds of the values of the file: where it reads
its own line, the row has the seconds and the kilobits of the file.
-/

namespace Vortex

open Ascii

namespace FormatContext

variable (c : FormatContext)

/-- Values that a demuxer reports: a duration that is not negative and below
2^31 seconds, if it is known, and a bit rate that is not negative. -/
structure Reported : Prop where
  duration : c.duration = noPts ∨ 0 ≤ c.duration ∧ c.duration + 5000 < 2147483648 * avTimeBase
  bitRate : 0 ≤ c.bitRate

/-- The duration in microseconds, rounded to centiseconds once they are cut off. -/
def rounded : Nat := (c.duration + 5000).toNat

end FormatContext

/-! ## The line as the line of a report -/

theorem twoDigits_bytes : ∀ n < 100, twoDigits n = [(48 + n / 10).toUInt8, (48 + n % 10).toUInt8] := by
  decide +kernel

theorem minute_bytes : ∀ n < 60, isMinute (48 + n / 10).toUInt8 (48 + n % 10).toUInt8 = true := by
  decide +kernel

theorem digit_byte : ∀ n < 10, isDigit (48 + n).toUInt8 = true := by
  decide +kernel

theorem twoDigits_digits (n : Nat) : ∀ c ∈ twoDigits n, isDigit c = true := by
  unfold twoDigits
  split
  · exact List.forall_mem_cons.mpr ⟨by decide, decimal_digits n⟩
  · exact decimal_digits n

theorem twoDigits_length (n : Nat) : 2 ≤ (twoDigits n).length ∧ ((twoDigits n).length = 2 ↔ n < 100) := by
  by_cases h : n < 100
  · rw [twoDigits_bytes n h]
    exact ⟨Nat.le_refl 2, iff_of_true rfl h⟩
  · have hten : ¬ n < 10 := by omega
    have h₁ : ¬ n / 10 < 10 := by omega
    rw [twoDigits, if_neg hten, decimal_eq, if_neg hten, decimal_eq (n / 10), if_neg h₁]
    have := List.length_pos_of_ne_nil (decimal_ne_nil (n / 10 / 10))
    simp only [List.length_append, List.length_singleton]
    omega

/-- `HH:MM:SS.cc` of seconds and centiseconds. -/
def stampOf (secs : Nat) (centis : Fin 100) : Stamp where
  hours := twoDigits (secs / 3600)
  m₁ := (48 + secs / 60 % 60 / 10).toUInt8
  m₂ := (48 + secs / 60 % 60 % 10).toUInt8
  s₁ := (48 + secs % 60 / 10).toUInt8
  s₂ := (48 + secs % 60 % 10).toUInt8
  c₁ := (48 + centis.val / 10).toUInt8
  c₂ := (48 + centis.val % 10).toUInt8
  hours_digits := twoDigits_digits _
  two_hours := (twoDigits_length _).1
  minutes := minute_bytes _ (Nat.mod_lt _ (by omega))
  seconds := minute_bytes _ (Nat.mod_lt _ (by omega))
  centis := ⟨digit_byte _ (by omega), digit_byte _ (Nat.mod_lt _ (by omega))⟩

theorem stampOf_hms (secs : Nat) (centis : Fin 100) : (stampOf secs centis).hms = timeText secs := by
  rw [Stamp.hms, timeText, twoDigits_bytes (secs / 60 % 60) (by omega), twoDigits_bytes (secs % 60) (by omega)]
  rfl

theorem cInt_of_lt {n : Nat} (h : n < 2 ^ 31) : cInt n = n := by
  rw [cInt, Int.bmod_def]
  omega

theorem tdiv_cast (m n : Nat) : Int.tdiv m n = (m / n : Nat) := rfl

theorem tmod_cast (m n : Nat) : Int.tmod m n = (m % n : Nat) := rfl

theorem pad2_cast (n : Nat) : pad2 n = twoDigits n := by
  have hn : ¬ (n : Int) < 0 := by omega
  rw [pad2, if_neg hn, Int.toNat_natCast]

namespace FormatContext

variable {c : FormatContext}

def centis (c : FormatContext) : Fin 100 := ⟨c.rounded % 1000000 / 10000, by omega⟩

def stamp (c : FormatContext) : Stamp := stampOf (c.rounded / 1000000) c.centis

theorem durationText_eq (h : c.duration ≠ noPts) (h₀ : 0 ≤ c.duration) (h₁ : c.duration + 5000 < 2147483648 * avTimeBase) :
    c.durationText = c.stamp.hms ++ [dot, c.stamp.c₁, c.stamp.c₂] := by
  obtain ⟨n, hn⟩ : ∃ n : Nat, c.duration + 5000 = n := ⟨(c.duration + 5000).toNat, by omega⟩
  have hr : c.rounded = n := by rw [rounded, hn, Int.toNat_natCast]
  have hle : c.duration ≤ int64Max - 5000 := by
    rw [avTimeBase] at h₁
    rw [int64Max]
    omega
  have hlt : n < 2 ^ 31 * 1000000 := by
    rw [avTimeBase] at h₁
    omega
  have hbase : avTimeBase = (1000000 : Nat) := rfl
  have h60 : (60 : Int) = (60 : Nat) := rfl
  have h100 : ∀ m : Nat, (100 : Int) * m = (100 * m : Nat) := fun m => rfl
  have hsecs : cInt (n / 1000000 : Nat) = (n / 1000000 : Nat) := cInt_of_lt (by omega)
  have hus : cInt (n % 1000000 : Nat) = (n % 1000000 : Nat) := cInt_of_lt (by omega)
  have hcentis : 100 * (n % 1000000) / 1000000 = n % 1000000 / 10000 := by omega
  have hmins : n / 1000000 / 60 / 60 = n / 1000000 / 3600 := by omega
  rw [durationText, if_pos h, if_pos hle, hn, hbase, h60]
  simp only [tdiv_cast, tmod_cast, hsecs, hus, h100, pad2_cast, hcentis, hmins]
  have hc : twoDigits (n % 1000000 / 10000) = [c.stamp.c₁, c.stamp.c₂] := by
    rw [twoDigits_bytes _ (by omega), stamp, stampOf, centis]
    simp only [hr]
  rw [hc, stamp, stampOf_hms, hr, timeText]
  simp only [List.append_assoc, List.cons_append]

theorem pad6_digits {n : Nat} (h : n < 1000000) : (pad6 n).length = 6 ∧ ∀ c ∈ pad6 n, isDigit c = true := by
  have hlen : (decimal n).length ≤ 6 := by
    have key : ∀ (k n : Nat), n < 10 ^ k → 0 < k → (decimal n).length ≤ k := by
      intro k
      induction k with
      | zero => omega
      | succ k ih =>
        intro n hn _
        rw [decimal_eq]
        split
        · simp
        · have hk : 0 < k := by
            apply Nat.pos_of_ne_zero
            intro h0
            rw [h0] at hn
            omega
          have := ih (n / 10) (by rw [Nat.pow_succ] at hn; omega) hk
          simp only [List.length_append, List.length_singleton]
          omega
    exact key 6 n h (by omega)
  constructor
  · rw [pad6, List.length_append, List.length_replicate]
    omega
  · intro c hc
    rcases List.mem_append.mp hc with hc | hc
    · rw [List.eq_of_mem_replicate hc]
      decide
    · exact decimal_digits n c hc

def start (c : FormatContext) : Start where
  negative := decide (cInt (c.startTime.tdiv avTimeBase) < 0)
  whole := decimal (cInt (c.startTime.tdiv avTimeBase)).natAbs
  fraction := pad6 (c.startTime.tmod avTimeBase).natAbs
  whole_digits := ⟨decimal_ne_nil _, decimal_digits _⟩
  fraction_digits := pad6_digits (by
    have := Int.natAbs_tmod c.startTime avTimeBase
    rw [this]
    exact Nat.mod_lt _ (by decide))

def kbits (c : FormatContext) : Bitrate := ⟨decimal (c.bitRate.tdiv 1000).natAbs, decimal_ne_nil _, decimal_digits _⟩

def toLines (x : Bytes) : List Line := (textLines x).attach.map fun l => ⟨l.1, textLines_no_newline x l.1 l.2⟩

theorem toLines_bytes (x : Bytes) : (toLines x).map Line.bytes = textLines x := by
  rw [toLines, List.map_map]
  exact List.attach_map_subtype_val _

/-- The report that is printed between what is logged before and `rest`. -/
def report (c : FormatContext) (l : Log) (rest : Bytes) : Report where
  before := toLines (c.textBefore l)
  duration := if c.duration ≠ noPts then some c.stamp else none
  start := if c.startTime ≠ noPts then some c.start else none
  bitrate := if c.bitRate ≠ 0 then some c.kbits else none
  after := toLines rest

theorem durationLine_eq (h : c.Reported) (l : Log) (rest : Bytes) : c.durationLine = (c.report l rest).durationLine := by
  have hduration : c.durationText = (c.report l rest).durationText := by
    by_cases hd : c.duration = noPts
    · simp only [durationText, Report.durationText, report, hd, ne_eq, not_true_eq_false, if_false]
    · obtain ⟨h₀, h₁⟩ := h.duration.resolve_left hd
      rw [durationText_eq hd h₀ h₁]
      simp only [Report.durationText, report, ne_eq, hd, not_false_eq_true, if_true]
  have hstart : c.startTexts.flatten = (c.report l rest).startText := by
    by_cases hs : c.startTime = noPts
    · simp only [startTexts, Report.startText, report, hs, ne_eq, not_true_eq_false, if_false, List.flatten_nil]
    · simp only [startTexts, Report.startText, report, ne_eq, hs, not_false_eq_true, if_true, signedDecimal, start,
        decide_eq_true_eq, List.flatten_cons, List.flatten_nil, List.append_nil, List.append_assoc, List.singleton_append]
  have hbitrate : c.bitrateText = (c.report l rest).bitrateText := by
    by_cases hb : c.bitRate = 0
    · simp only [bitrateText, Report.bitrateText, report, hb, ne_eq, not_true_eq_false, if_false]
    · have hneg : ¬ c.bitRate.tdiv 1000 < 0 := by
        have := Int.tdiv_nonneg h.bitRate (by decide : (0 : Int) ≤ 1000)
        omega
      simp only [bitrateText, Report.bitrateText, report, ne_eq, hb, not_false_eq_true, if_true, signedDecimal, hneg,
        if_false, List.nil_append, kbits]
  rw [durationLine, Report.durationLine, hduration, hstart, hbitrate]

theorem printed_report (h : c.Reported) {l : Log} (hl : c.inputMessage.take (lineSize - 1) ≠ l.prev) (rest : Bytes) :
    textLines ((c.messages.foldl Log.write l).out ++ rest) = (c.report l rest).lines := by
  rw [c.printed_lines hl, durationLine_eq h l rest, Report.lines]
  simp only [report, toLines_bytes]

/-! ## From the file to the row -/

/-- The retained lines that are logged before the Duration line. -/
def earlier (c : FormatContext) (l : Log) : Bytes := attrOutput (textLines (c.textBefore l))

theorem report_textBefore (l : Log) (rest : Bytes) : (c.report l rest).textBefore = c.earlier l := by
  rw [Report.textBefore, earlier]
  simp only [report, toLines_bytes]

/-- What the reader needs: a start, less than a day, and no time before. -/
def Legible (c : FormatContext) (l : Log) : Prop :=
  c.startTime ≠ noPts ∧ c.duration + 5000 < 86400 * avTimeBase ∧ hasTime (c.earlier l) = false

theorem stamp_hours (h₀ : 0 ≤ c.duration) :
    c.stamp.hours.length = 2 ∧ digitsVal c.stamp.hours ≤ 23 ↔ c.duration + 5000 < 86400 * avTimeBase := by
  have hrounded : (c.rounded : Int) = c.duration + 5000 := by
    rw [rounded]
    omega
  have hval : ∀ n, digitsVal (twoDigits n) = n := by
    intro n
    unfold twoDigits
    split
    · have hzero : digitsVal (zero :: decimal n) = digitsVal (decimal n) := rfl
      rw [hzero, digitsVal_decimal]
    · exact digitsVal_decimal n
  have hlen := (twoDigits_length (c.rounded / 1000000 / 3600)).2
  rw [stamp, stampOf]
  simp only [hlen, hval, avTimeBase]
  omega

theorem agrees_iff_legible (hd : c.duration ≠ noPts) (h₀ : 0 ≤ c.duration) (hb : c.bitRate ≠ 0) (l : Log) (rest : Bytes) :
    Agrees (c.report l rest) ↔ c.Legible l := by
  have hduration : (c.report l rest).duration = some c.stamp := if_pos hd
  have hbitrate : (c.report l rest).bitrate = some c.kbits := if_pos hb
  have hstart : (c.report l rest).start.isSome ↔ c.startTime ≠ noPts := by
    by_cases hs : c.startTime = noPts <;> simp [report, hs]
  rw [agrees_of_both_iff hduration hbitrate, Legible, ← stamp_hours h₀, ← report_textBefore l rest, ← hstart, and_assoc]

theorem timeColumn_timeText {n : Nat} (h : n < 86400) : timeColumn (timeText n) = n := by
  have hpair : ∀ n < 100, digitsVal [(48 + n / 10).toUInt8, (48 + n % 10).toUInt8] = n ∧
      isDigit (48 + n / 10).toUInt8 = true ∧ isDigit (48 + n % 10).toUInt8 = true := by decide +kernel
  obtain ⟨vh, dh, dh'⟩ := hpair (n / 3600) (by omega)
  obtain ⟨vm, dm, dm'⟩ := hpair (n / 60 % 60) (by omega)
  obtain ⟨vs, ds, ds'⟩ := hpair (n % 60) (by omega)
  rw [timeText, twoDigits_bytes _ (by omega), twoDigits_bytes _ (by omega), twoDigits_bytes _ (by omega)]
  have hfields := timeColumn_fields (List.forall_mem_cons.mpr ⟨dh, List.forall_mem_cons.mpr ⟨dh', List.forall_mem_cons.mpr
    ⟨dm, List.forall_mem_cons.mpr ⟨dm', List.forall_mem_cons.mpr ⟨ds, List.forall_mem_cons.mpr ⟨ds', List.forall_mem_nil _⟩⟩⟩⟩⟩⟩)
  apply hfields.trans
  rw [vh, vm, vs, seconds, if_pos ⟨Nat.mod_lt _ (by omega), Nat.mod_lt _ (by omega)⟩]
  omega

/-- Of a file with a known duration and bit rate the reader takes its two
fields exactly where they are legible. Then the row has the seconds of the
file, and its kilobits as far as a SMALLINT goes. -/
theorem row_of_file (h : c.Reported) {l : Log} (hl : c.inputMessage.take (lineSize - 1) ≠ l.prev) (rest : Bytes)
    (hd : c.duration ≠ noPts) (hb : c.bitRate ≠ 0) :
    (Agrees (c.report l rest) ↔ c.Legible l) ∧
    (c.Legible l → ∀ (q : Request) (uuid : Uniqid) (id : Nat), ∃ a : Attributes, a.uuid = uuid ∧
      videoAttributes (textLines ((c.messages.foldl Log.write l).out ++ rest)) = some (a.duration.bytes, a.bitrate.bytes) ∧
      (((q.values a).row id).duration : Int) = (c.duration + 5000) / avTimeBase ∧
      (((q.values a).row id).bitrate : Int) = min 32767 (c.bitRate / 1000)) := by
  obtain ⟨h₀, -⟩ := h.duration.resolve_left hd
  have hagrees := agrees_iff_legible hd h₀ hb l rest
  refine ⟨hagrees, fun hleg q uuid id => ?_⟩
  have hread := hagrees.mpr hleg
  have hduration : (c.report l rest).duration = some c.stamp := if_pos hd
  have hbitrate : (c.report l rest).bitrate = some c.kbits := if_pos hb
  rw [Agrees, hduration, hbitrate] at hread
  obtain ⟨a, ha, hbits, huuid⟩ := attributes_of_lines hread.2 uuid
  have hday := hleg.2.1
  rw [avTimeBase] at hday
  refine ⟨a, huuid, ?_, ?_, ?_⟩
  · rw [printed_report h hl rest, ha, hbits]
    exact hread.2
  · have hsecs : timeColumn a.duration.bytes = c.rounded / 1000000 := by
      rw [ha, stamp, stampOf_hms, timeColumn_timeText (by rw [rounded]; omega)]
    change (timeColumn a.duration.bytes : Int) = _
    rw [hsecs, rounded, avTimeBase]
    omega
  · have hdigits : (decimal (c.bitRate.tdiv 1000).natAbs).takeWhile isDigit = decimal (c.bitRate.tdiv 1000).natAbs :=
      List.takeWhile_eq_self_iff.mpr (decimal_digits _)
    have hrate := h.bitRate
    change (smallintColumn a.bitrate.bytes : Int) = _
    rw [hbits, kbits, smallintColumn, hdigits, digitsVal_decimal, Int.tdiv_eq_ediv_of_nonneg hrate]
    omega

end FormatContext

/-! ## A clip of a minute -/

def sampleFile : FormatContext where
  iformat := str "mov,mp4,m4a,3gp,3g2,mj2"
  url := str "/tmp/phpA1b2C3"
  metadata := [(str "major_brand", str "isom")]
  duration := 62500000
  startTime := 0
  bitRate := 1205959

def quietLog : Log := ⟨true, 0, [], []⟩

theorem sample_row_of_file : ∃ a : Attributes,
    videoAttributes (textLines ((sampleFile.messages.foldl Log.write quietLog).out ++
      str "    Stream #0:1(und): Audio: aac (LC), 44100 Hz, stereo\n")) = some (a.duration.bytes, a.bitrate.bytes) ∧
    ((sampleRequest.values a).row 58).duration = 62 ∧ ((sampleRequest.values a).row 58).bitrate = 1205 := by
  have hreported : sampleFile.Reported := ⟨.inr (by decide), by decide⟩
  have hnew : sampleFile.inputMessage.take (lineSize - 1) ≠ quietLog.prev := by decide +kernel
  have hlegible : sampleFile.Legible quietLog := ⟨by decide, by decide, by decide +kernel⟩
  obtain ⟨a, -, hread, hd, hb⟩ := (FormatContext.row_of_file hreported hnew
    (str "    Stream #0:1(und): Audio: aac (LC), 44100 Hz, stereo\n") (by decide) (by decide)).2 hlegible sampleRequest
    sampleAttributes.uuid 58
  refine ⟨a, hread, ?_, ?_⟩
  · exact Int.ofNat_inj.mp (hd.trans (by decide))
  · exact Int.ofNat_inj.mp (hb.trans (by decide))

end Vortex
