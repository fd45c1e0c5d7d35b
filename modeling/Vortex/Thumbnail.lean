import Vortex.Shell
import Vortex.VideoUpload

/-!
# The thumbnail command

`makeThumbnail` quotes the client's file name with double quotes only, and it
takes the name as it came, not its base name. The shell reads the command as
meant exactly for the names that are inert there and their own base names.
-/

namespace Vortex

open Ascii

/-- One simple command: ffmpeg on `input`, the fixed options, `output`, and
standard error joined to standard output. -/
def thumbTokens (input output : Bytes) : List ShellToken :=
  [.word (str "/usr/bin/ffmpeg"), .word (str "-i"), .word input, .word (str "-ss"), .word (str "5"), .word (str "-y"),
    .word (str "-f"), .word (str "mjpeg"), .word (str "-s"), .word (str "240x135"), .word (str "-vframes"),
    .word (str "1"), .word output, .io (str "2"), .op (str ">&"), .word (str "1")]

theorem thumbTokens_eq (input output : Bytes) :
    thumbTokens input output =
      [.word (str "/usr/bin/ffmpeg"), .word (str "-i")] ++ (thumbTokens input output).drop 2 := rfl

theorem feed_commandHead :
    shellLexer.feed .blank (str "/usr/bin/ffmpeg -i \"/tmp/") =
      some (.double (str "/tmp/"), [.word (str "/usr/bin/ffmpeg"), .word (str "-i")]) := by
  decide +kernel

theorem feed_options :
    shellLexer.feed .blank (str "-ss 5 -y -f mjpeg -s 240x135 -vframes 1 /tmp/") =
      some (.word .bare (str "/tmp/"), [.word (str "-ss"), .word (str "5"), .word (str "-y"), .word (str "-f"),
        .word (str "mjpeg"), .word (str "-s"), .word (str "240x135"), .word (str "-vframes"), .word (str "1")]) := by
  decide +kernel

def commandTail (uuid : Bytes) : Bytes :=
  str "-ss 5 -y -f mjpeg -s 240x135 -vframes 1 /tmp/" ++ (uuid ++ str ".jpg 2>&1")

theorem thumbCommand_eq (name uuid : Bytes) :
    thumbCommand name uuid =
      str "/usr/bin/ffmpeg -i \"/tmp/" ++ (name ++ dquote :: space :: commandTail uuid) := by
  simp [thumbCommand, commandTail, str]

theorem commandTail_plain (uuid : Uniqid) : ∀ c ∈ commandTail uuid.bytes, isPlain c = true := by
  have hf : ∀ t ∈ [str "-ss 5 -y -f mjpeg -s 240x135 -vframes 1 /tmp/", str ".jpg 2>&1"],
      ∀ c ∈ t, isPlain c = true := by decide +kernel
  intro c hc
  simp only [commandTail, List.mem_append] at hc
  rcases hc with hc | hc | hc
  · exact hf _ (by simp) c hc
  · have hi := uuid.inert c hc
    simp only [isPlain, Bool.and_eq_true, bne_iff_ne, ne_eq]
    exact ⟨⟨⟨⟨inert_ne hi rfl, inert_ne hi rfl⟩, inert_ne hi rfl⟩, inert_ne hi rfl⟩, inert_ne hi rfl⟩
  · exact hf _ (by simp) c hc

theorem inWord_hex {c : Byte} (h : isHexDigit c = true) (w : Bytes) :
    shellLexer.step (.word .bare w) c = some (.word .bare (w ++ [c]), []) := by
  have ne : ∀ d, isHexDigit d = false → c ≠ d := by
    rintro d hd rfl
    rw [h] at hd; cases hd
  have hs : (isBlank c || c == newline || isOperator c) = false := by
    simp [isBlank, isOperator, ne 32 rfl, ne 9 rfl, ne 10 rfl, ne 124 rfl, ne 38 rfl, ne 59 rfl, ne 60 rfl,
      ne 62 rfl, ne 40 rfl, ne 41 rfl]
  have hw : wordByte .bare w c = some (.word .bare (w ++ [c])) := by
    simp [wordByte, isPattern, ne 34 rfl, ne 39 rfl, ne 92 rfl, ne 36 rfl, ne 96 rfl, ne 42 rfl, ne 63 rfl,
      ne 91 rfl, ne 126 rfl]
  simp [shellLexer, shellStep, inWord, hs, hw]

/-- From the end of the quoted name on, the command reads the same whatever
word came before. -/
theorem read_commandTail (uuid : Uniqid) (w : Bytes) :
    shellLexer.read (.word .quoted w) (space :: commandTail uuid.bytes) =
      some ((thumbTokens w (thumbPath uuid)).drop 2) := by
  have huuid := shellLexer.feed_collect (.word .bare) (fun c hc => inWord_hex (uuid.hex c hc)) (str "/tmp/")
  have hjpg : ∀ v, shellLexer.read (.word .bare v) (str ".jpg 2>&1") =
      some [.word (v ++ str ".jpg"), .io (str "2"), .op (str ">&"), .word (str "1")] := by
    intro v
    have hc := shellLexer.feed_collect (.word .bare) (x := str ".jpg") (fun c hc acc => by
      have : c ∈ [46, 106, 112, 103] := hc
      simp only [List.mem_cons, List.not_mem_nil, or_false] at this
      rcases this with rfl | rfl | rfl | rfl <;> rfl) v
    have hr : shellLexer.read .blank (str "2>&1") = some [.io (str "2"), .op (str ">&"), .word (str "1")] := by
      decide +kernel
    rw [show str ".jpg 2>&1" = str ".jpg" ++ space :: str "2>&1" from rfl, shellLexer.read_append hc,
      shellLexer.read_cons (t := .blank) (o := [.word (v ++ str ".jpg")]) rfl, hr]
    rfl
  rw [shellLexer.read_cons (t := .blank) (o := [.word w]) rfl, commandTail, shellLexer.read_append feed_options,
    shellLexer.read_append huuid, hjpg]
  rfl

theorem shellRead_thumbCommand (name : Bytes) (uuid : Uniqid) :
    shellRead (thumbCommand name uuid.bytes) =
      (shellLexer.read (.double (str "/tmp/")) (name ++ dquote :: space :: commandTail uuid.bytes)).map
        ([.word (str "/usr/bin/ffmpeg"), .word (str "-i")] ++ ·) := by
  rw [shellRead, thumbCommand_eq, shellLexer.read_append feed_commandHead]

/-- The path the shell hands to ffmpeg, where the text is the one command
`makeThumbnail` means. -/
def thumbInput (name : Bytes) (uuid : Uniqid) : Option Bytes :=
  match shellRead (thumbCommand name uuid.bytes) with
  | some (.word f :: .word i :: .word p :: ts) =>
    if ShellToken.word f :: .word i :: .word p :: ts = thumbTokens p (thumbPath uuid) then some p else none
  | _ => none

theorem thumbInput_of_read {name p : Bytes} {uuid : Uniqid}
    (h : shellRead (thumbCommand name uuid.bytes) = some (thumbTokens p (thumbPath uuid))) :
    thumbInput name uuid = some p := by
  unfold thumbInput
  rw [h]
  exact if_pos rfl

theorem plain_of_high {c : Byte} (h : 128 ≤ c) : isPlain c = true := by
  have hne : ∀ d : Byte, ¬128 ≤ d → c ≠ d := by
    rintro d hd rfl
    exact hd h
  simp only [isPlain, Bool.and_eq_true, bne_iff_ne, ne_eq]
  exact ⟨⟨⟨⟨hne 34 (by decide), hne 39 (by decide)⟩, hne 92 (by decide)⟩, hne 36 (by decide)⟩, hne 96 (by decide)⟩

theorem shellRead_inert {q : Request} (h : shellInert q.name.bytes = true) (uuid : Uniqid) :
    shellRead (thumbCommand q.name.bytes uuid.bytes) = some (thumbTokens (tmpPath q.name.bytes) (thumbPath uuid)) := by
  have hb : ∀ c ∈ q.name.bytes, c ≠ backslash := fun c hc => (q.name.clean c hc).2.2
  rw [shellRead_thumbCommand, read_double_inert hb h, read_commandTail]
  rfl

/-- The names that the shell and `basename` both leave as they are. -/
def Request.plainName (q : Request) : Prop := shellInert q.name.bytes = true ∧ q.file = q.name.bytes

instance (q : Request) : Decidable q.plainName := inferInstanceAs (Decidable (_ ∧ _))

theorem Request.plainName.videoPath {q : Request} (h : q.plainName) : q.videoPath = tmpPath q.name.bytes := by
  rw [Request.videoPath, h.2]

theorem shellRead_plain {q : Request} (h : q.plainName) (uuid : Uniqid) :
    shellRead (thumbCommand q.name.bytes uuid.bytes) = some (thumbTokens q.videoPath (thumbPath uuid)) := by
  rw [shellRead_inert h.1, h.videoPath]

theorem thumb_command_iff (q : Request) (uuid : Uniqid) :
    shellRead (thumbCommand q.name.bytes uuid.bytes) = some (thumbTokens q.videoPath (thumbPath uuid)) ↔
      q.plainName := by
  have hb : ∀ c ∈ q.name.bytes, c ≠ backslash := fun c hc => (q.name.clean c hc).2.2
  constructor
  · intro h
    rw [shellRead_thumbCommand] at h
    obtain ⟨ts, hr, he⟩ := Option.map_eq_some_iff.mp h
    rw [thumbTokens_eq] at he
    rw [List.append_cancel_left he] at hr
    obtain ⟨lead, hname, hlead, -⟩ := basename_lead (L := q.locale) q.name.no_slash
    change q.name.bytes = lead ++ q.file at hname
    have hf : ∀ c ∈ q.file, c ≠ backslash := fun c hc => hb c (hname ▸ List.mem_append_right lead hc)
    -- what `basename` has dropped would stand at the front of the word
    have hnil : lead = [] := by
      rw [hname, List.append_assoc] at hr
      exact lead_of_read_double (commandTail_plain uuid) (fun c hc => plain_of_high (hlead c hc)) hf hr
    rw [hnil, List.nil_append] at hname
    rw [Request.videoPath, ← hname] at hr
    exact ⟨inert_of_read_double (commandTail_plain uuid) hb hr, hname.symm⟩
  · exact fun h => shellRead_plain h uuid

-- without a UTF-8 locale the two bytes of the accent begin no character
example : ({ sampleRequest with name := ⟨[195, 169] ++ str ".mp4", by decide +kernel⟩ } : Request).videoPath =
    str "/tmp/.mp4" := by
  decide +kernel

theorem thumbInput_inert {q : Request} (h : shellInert q.name.bytes = true) (uuid : Uniqid) :
    thumbInput q.name.bytes uuid = some (tmpPath q.name.bytes) :=
  thumbInput_of_read (shellRead_inert h uuid)

theorem thumbInput_plain {q : Request} (h : q.plainName) (uuid : Uniqid) :
    thumbInput q.name.bytes uuid = some q.videoPath :=
  thumbInput_of_read (shellRead_plain h uuid)

theorem thumb_command_substitutes :
    ¬ ∀ (q : Request) (uuid : Uniqid),
      shellRead (thumbCommand q.name.bytes uuid.bytes) = some (thumbTokens q.videoPath (thumbPath uuid)) := by
  intro h
  exact absurd (h { sampleRequest with name := ⟨str "$(id).mp4", by decide +kernel⟩ } sampleUuid) (by decide +kernel)

end Vortex
