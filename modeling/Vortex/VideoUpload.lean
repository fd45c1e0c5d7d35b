import Vortex.Php
import Vortex.VideoData

/-!
# VideoUpload.php: the values and the texts of an upload

What a request brings, what `videoAttributes` adds to it, and the strings the
class builds from them: sanitised texts, paths under `/tmp`, S3 keys, the
thumbnail command and the INSERT.
-/

namespace Vortex

open Ascii

/-! ## Values -/

structure Request where
  name : ClientName
  title : Bytes
  description : Bytes
  -- the bytes of the file part, which PHP stores under a name of its own
  content : Bytes
  -- of the process that serves the request
  locale : Locale

/-- `uniqid()`: the microsecond clock in 13 hex digits. -/
structure Uniqid where
  bytes : Bytes
  length : bytes.length = 13
  hex : ∀ c ∈ bytes, isHexDigit c = true
  deriving DecidableEq

def isMinute (a b : Byte) : Bool := 48 ≤ a && a ≤ 53 && isDigit b

-- `\s?(?:am|AM|pm|PM)` under the flag `i`, or nothing
def isMeridiem : Bytes → Bool
  | [] => true
  | [a, m] => (a == 97 || a == 65 || a == 112 || a == 80) && (m == 109 || m == 77)
  | [s, a, m] =>
    (s == 9 || s == 10 || s == 11 || s == 12 || s == 13 || s == 32) && (a == 97 || a == 65 || a == 112 || a == 80) &&
      (m == 109 || m == 77)
  | _ => false

def isMinutesOn : Bytes → Bool
  | a :: b :: c :: d :: e :: x =>
    isMinute a b && if c = colon then isMinute d e && isMeridiem x else isMeridiem (c :: d :: e :: x)
  | a :: b :: x => isMinute a b && isMeridiem x
  | _ => false

/-- The texts that the first group of the attribute regex matches. -/
def isDuration : Bytes → Bool
  | h :: c :: x =>
    if c = colon then isDigit h && isMinutesOn x
    else (((h == 48 || h == 49) && isDigit c) || (h == 50 && 48 ≤ c && c ≤ 51)) &&
      match x with
      | d :: x => d == colon && isMinutesOn x
      | [] => false
  | _ => false

structure Duration where
  bytes : Bytes
  form : isDuration bytes = true

structure Bitrate where
  bytes : Bytes
  ne_nil : bytes ≠ []
  digits : ∀ c ∈ bytes, isDigit c = true

structure Attributes where
  duration : Duration
  bitrate : Bitrate
  uuid : Uniqid

/-! ## Texts -/

def verifyInput (input : Bytes) : Bytes := strtrParens (htmlspecialchars (stripslashes (trim input)))

def tmpPath (file : Bytes) : Bytes := str "/tmp/" ++ file

namespace Request

variable (q : Request)

def file : Bytes := basename q.locale q.name.bytes

def videoPath : Bytes := tmpPath q.file

def ext : Bytes := pathinfoExtension q.locale (tmpPath q.file)

def keyname (uuid : Uniqid) : Bytes := uuid.bytes ++ str "." ++ q.ext

end Request

/-- `$thumb`, the same path as `$path` in `uploadFile`. -/
def thumbPath (uuid : Uniqid) : Bytes := str "/tmp/" ++ uuid.bytes ++ str ".jpg"

def thumbName (uuid : Uniqid) : Bytes := uuid.bytes ++ str ".jpg"

/-- The string `makeThumbnail` passes to `exec`; the input is the raw name. -/
def thumbCommand (name : Bytes) (uuid : Bytes) : Bytes :=
  str "/usr/bin/ffmpeg" ++ str " -i " ++ (str "\"/tmp/" ++ name ++ str "\"") ++
    str " -ss 5 -y -f mjpeg -s 240x135 -vframes 1 " ++ (str "/tmp/" ++ uuid ++ str ".jpg") ++ str " 2>&1"

def insertText (v : Values) : Bytes :=
  str "INSERT INTO VideoData ( UUID, Duration, Name, Description, Bitrate, Title, Ext)\n\t\t\t\t\tVALUES ( '" ++
    v.uuid ++ str "', '" ++ v.duration ++ str "', '" ++ v.name ++ str "', '" ++ v.description ++ str "', '" ++
    v.bitrate ++ str "', '" ++ v.title ++ str "', '" ++ v.ext ++ str "')"

/-- The seven values `preparedSQL` puts between the quotes. -/
def Request.values (q : Request) (a : Attributes) : Values where
  uuid := a.uuid.bytes
  duration := a.duration.bytes
  name := verifyInput q.name.bytes
  description := verifyInput q.description
  bitrate := a.bitrate.bytes
  title := verifyInput q.title
  ext := q.ext

/-! ## Bytes of the generated values -/

/-- Neither a delimiter of any of the languages the values are put in, nor an
escape character. -/
def isInert (c : Byte) : Bool := isLetter c || isDigit c || c == colon || (9 ≤ c && c ≤ 13) || c == 32

theorem isDigit_inert {c : Byte} (h : isDigit c = true) : isInert c = true := by simp [isInert, h]

theorem isHexDigit_inert {c : Byte} (h : isHexDigit c = true) : isInert c = true := by
  simp only [isHexDigit, isInert, isLetter, isUpper, isLower, Bool.or_eq_true, Bool.and_eq_true,
    decide_eq_true_eq] at *
  grind

theorem isMinute_inert {a b : Byte} (h : isMinute a b = true) : isInert a = true ∧ isInert b = true := by
  simp only [isMinute, isInert, isDigit, Bool.or_eq_true, Bool.and_eq_true, decide_eq_true_eq] at *
  grind

theorem isMeridiem_inert {x : Bytes} (h : isMeridiem x = true) : ∀ c ∈ x, isInert c = true := by
  unfold isMeridiem at h
  split at h
  · simp
  · simp only [Bool.and_eq_true, Bool.or_eq_true, beq_iff_eq] at h
    obtain ⟨(((rfl | rfl) | rfl) | rfl), (rfl | rfl)⟩ := h <;> decide +kernel
  · simp only [Bool.and_eq_true, Bool.or_eq_true, beq_iff_eq] at h
    obtain ⟨⟨(((((rfl | rfl) | rfl) | rfl) | rfl) | rfl), (((rfl | rfl) | rfl) | rfl)⟩, (rfl | rfl)⟩ := h <;> decide +kernel
  · cases h

theorem isMinutesOn_inert {x : Bytes} (h : isMinutesOn x = true) : ∀ c ∈ x, isInert c = true := by
  unfold isMinutesOn at h
  split at h
  · rename_i a b c d e x
    rw [Bool.and_eq_true] at h
    obtain ⟨ha, hb⟩ := isMinute_inert h.1
    split at h
    · rename_i hc
      rw [Bool.and_eq_true] at h
      obtain ⟨hd, he⟩ := isMinute_inert h.2.1
      simp only [List.forall_mem_cons]
      exact ⟨ha, hb, by rw [hc]; rfl, hd, he, isMeridiem_inert h.2.2⟩
    · have := isMeridiem_inert h.2
      simp only [List.forall_mem_cons] at this ⊢
      exact ⟨ha, hb, this⟩
  · rw [Bool.and_eq_true] at h
    obtain ⟨ha, hb⟩ := isMinute_inert h.1
    simp only [List.forall_mem_cons]
    exact ⟨ha, hb, isMeridiem_inert h.2⟩
  · cases h

theorem isDuration_inert {x : Bytes} (h : isDuration x = true) : ∀ c ∈ x, isInert c = true := by
  unfold isDuration at h
  split at h
  · rename_i a c x
    split at h
    · rename_i hc
      rw [Bool.and_eq_true] at h
      simp only [List.forall_mem_cons]
      exact ⟨isDigit_inert h.1, by rw [hc]; rfl, isMinutesOn_inert h.2⟩
    · rw [Bool.and_eq_true] at h
      obtain ⟨h₁, h₂⟩ := h
      split at h₂
      · rename_i d x
        rw [Bool.and_eq_true, beq_iff_eq] at h₂
        simp only [List.forall_mem_cons]
        refine ⟨?_, ?_, by rw [h₂.1]; rfl, isMinutesOn_inert h₂.2⟩
        · simp only [isInert, isDigit, Bool.or_eq_true, Bool.and_eq_true, decide_eq_true_eq, beq_iff_eq] at *
          grind
        · simp only [isInert, isDigit, Bool.or_eq_true, Bool.and_eq_true, decide_eq_true_eq, beq_iff_eq] at *
          grind
      · cases h₂
  · cases h

theorem Duration.inert (d : Duration) : ∀ c ∈ d.bytes, isInert c = true := isDuration_inert d.form

theorem Uniqid.inert (u : Uniqid) : ∀ c ∈ u.bytes, isInert c = true := fun c hc => isHexDigit_inert (u.hex c hc)

theorem Bitrate.inert (b : Bitrate) : ∀ c ∈ b.bytes, isInert c = true := fun c hc => isDigit_inert (b.digits c hc)

theorem inert_ne {c d : Byte} (hc : isInert c = true) (hd : isInert d = false) : c ≠ d := by
  rintro rfl
  rw [hc] at hd; cases hd

/-! ## Keys and columns -/

theorem keyname_eq (q : Request) (uuid : Uniqid) : q.keyname uuid = uuid.bytes ++ dot :: q.ext := by
  simp [Request.keyname]; rfl

theorem thumbName_eq (uuid : Uniqid) : thumbName uuid = uuid.bytes ++ dot :: str "jpg" := rfl

/-- Keys of different uuids are different, whatever the extensions. -/
theorem uuid_of_key {u u' : Uniqid} {x x' : Bytes} (h : u.bytes ++ x = u'.bytes ++ x') : u = u' := by
  have := (List.append_inj h (by rw [u.length, u'.length])).1
  cases u; cases u'; cases this; rfl

theorem basename_tmpPath (L : Locale) {x : Bytes} (hx : ∀ c ∈ x, c ≠ slash) (hm : (L.mblen x).isSome) (hne : x ≠ []) :
    basename L (tmpPath x) = x :=
  @basename_below L x (str "/tmp") (by decide +kernel) hx hm hne

theorem charColumn_of_short {n : Nat} {x : Bytes} (hn : x.length ≤ n) (h : ∀ c ∈ x, c ≠ space) :
    charColumn n x = x := by
  rw [charColumn, List.take_of_length_le hn, List.rdropWhile_eq_self_iff]
  intro hne
  simpa using h _ (List.getLast_mem hne)

theorem Uniqid.charColumn (u : Uniqid) : charColumn 13 u.bytes = u.bytes :=
  charColumn_of_short (by rw [u.length]) fun c hc => by
    have := u.hex c hc
    rintro rfl
    revert this; decide

theorem row_uuid (q : Request) (a : Attributes) (id : Nat) : ((q.values a).row id).uuid = a.uuid.bytes :=
  a.uuid.charColumn

theorem Request.values_ext (q : Request) (a : Attributes) : (q.values a).ext = q.ext := rfl

theorem row_ext (q : Request) (a : Attributes) (id : Nat) : ((q.values a).row id).ext = charColumn 3 q.ext := by
  rw [Values.row, Request.values_ext]

/-! ## A sample upload -/

def sampleUuid : Uniqid := ⟨str "56f1a2b3c4d5e", by decide +kernel, by decide +kernel⟩

def sampleAttributes : Attributes :=
  ⟨⟨str "00:01:02", by decide +kernel⟩, ⟨str "900", by decide +kernel, by decide +kernel⟩, sampleUuid⟩

def laterAttributes : Attributes :=
  { sampleAttributes with uuid := ⟨str "56f1a2b3c4d60", by decide +kernel, by decide +kernel⟩ }

def sampleRequest : Request where
  name := ⟨str "holiday.mp4", by decide +kernel⟩
  title := str "Holiday"
  description := str "By the sea"
  content := [0, 1, 2, 3]
  locale := posixLocale

def laterRequest : Request where
  name := ⟨str "party.avi", by decide +kernel⟩
  title := str "Party"
  description := str "At home"
  content := [4, 5, 6]
  locale := posixLocale

end Vortex
