import Vortex.InsertRows
import Vortex.VideoPlayer

/-!
# Uploader text never becomes markup

`verifyInput` leaves no `<`, and none of the later passes makes one: not the
decoding of escapes in the literal, nor the cut at the column's width. The
texts stand between tags in every template, so the tokenizer never leaves its
data state in them.
-/

namespace Vortex

open Ascii

/-! ## No `<` gets into the table -/

theorem lt_not_mem_verifyInput (x : Bytes) : ∀ c ∈ verifyInput x, c ≠ lt := by
  intro c hc
  rcases mem_htmlspecialchars (mem_strtrParens hc).1 with ⟨-, -, h, -⟩ | rfl | rfl | h
  · exact h
  · decide
  · decide
  · rintro rfl
    cases h

def LexState.content : LexState → Bytes
  | .str _ s | .esc _ s | .quote _ s => s
  | _ => []

theorem escapeOf_ne_lt {c : Byte} (hc : c ≠ lt) : ∀ d ∈ escapeOf c, d ≠ lt := by
  unfold escapeOf
  repeat' split
  all_goals simp [hc]
  all_goals decide

theorem lexStep_content {s s' : LexState} {c : Byte} {out : List Token} (hc : c ≠ lt)
    (h : lexStep s c = some (s', out)) (hs : ∀ d ∈ s.content, d ≠ lt) : ∀ d ∈ s'.content, d ≠ lt := by
  rcases lexStep_cases h with ⟨ts, -, hf⟩ | ⟨-, hq⟩ | ⟨rfl, -⟩
  · obtain ⟨rfl, -⟩ := Prod.mk.inj hf
    have : (fromGap c).1.content = [] := by
      unfold fromGap
      repeat' split
      all_goals rfl
    change ∀ d ∈ (fromGap c).1.content, d ≠ lt
    simp [this]
  · have grown : ∀ {z y : Bytes}, (∀ d ∈ z, d ≠ lt) → (∀ d ∈ y, d ≠ lt) → ∀ d ∈ z ++ y, d ≠ lt := by
      intro z y hz hy d hd
      exact (List.mem_append.mp hd).elim (hz d) (hy d)
    cases hq with
    | word => simp [LexState.content]
    | char | doubled => exact grown hs (by simpa using hc)
    | escape | close => exact hs
    | escaped => exact grown hs (escapeOf_ne_lt hc)
    | between _ _ hq => cases s' <;> simp_all [LexState.quiet, LexState.content]
  · exact nofun

theorem decodeLiteral_ne_lt {x s : Bytes} (hx : ∀ c ∈ x, c ≠ lt) (h : decodeLiteral x = some s) : ∀ c ∈ s, c ≠ lt := by
  have hq : ∀ c ∈ x ++ [quote], c ≠ lt := by
    intro c hc
    rcases List.mem_append.mp hc with hc | hc
    · exact hx c hc
    · rw [List.mem_singleton.mp hc]
      decide
  have step : ∀ c ∈ x ++ [quote], ∀ s s' out, (∀ d ∈ s.content, d ≠ lt) → sqlLexer.step s c = some (s', out) →
      (∀ d ∈ s'.content, d ≠ lt) ∧ ∀ t ∈ out, True :=
    fun c hc s s' out hs hst => ⟨lexStep_content (hq c hc) hst hs, fun _ _ => trivial⟩
  exact (sqlLexer.feed_invariant step (by simp [LexState.content]) (decodeLiteral_some h)).1

/-! ## The stored row -/

/-- `w` is what MySQL makes of the seven literals with the texts `v`. -/
structure Values.Decodes (v w : Values) : Prop where
  uuid : decodeLiteral v.uuid = some w.uuid
  duration : decodeLiteral v.duration = some w.duration
  name : decodeLiteral v.name = some w.name
  description : decodeLiteral v.description = some w.description
  bitrate : decodeLiteral v.bitrate = some w.bitrate
  title : decodeLiteral v.title = some w.title
  ext : decodeLiteral v.ext = some w.ext

/-- Then the INSERT stores one row with the values `w`. -/
theorem readInsert_decodes {v w : Values} (h : v.Decodes w) : readInsert (insertText v) = some [w] := by
  have hf : List.Forall₂ (fun f d => decodeLiteral f = some d) v.fields w.fields :=
    .cons h.uuid (.cons h.duration (.cons h.name (.cons h.description (.cons h.bitrate (.cons h.title
      (.cons h.ext .nil))))))
  rw [readInsert_insertText, read_literals (by simp [Values.fields]) hf]
  rfl

/-- The upload stored `r`, a row of its decoded values cut to the columns. -/
def Request.Stores (q : Request) (a : Attributes) (r : Row) : Prop :=
  ∃ v, (q.values a).Decodes v ∧ r = v.row r.id

structure Row.PlainText (r : Row) : Prop where
  title : ∀ c ∈ r.title, c ≠ lt
  name : ∀ c ∈ r.name, c ≠ lt
  description : ∀ c ∈ r.description, c ≠ lt

theorem Request.Stores.plainText {q : Request} {a : Attributes} {r : Row} (h : q.Stores a r) : r.PlainText := by
  obtain ⟨v, hv, hr⟩ := h
  have column : ∀ {n : Nat} {x s : Bytes}, decodeLiteral (verifyInput x) = some s →
      ∀ c ∈ varcharColumn n s, c ≠ lt := fun hs c hc =>
    decodeLiteral_ne_lt (lt_not_mem_verifyInput _) hs c (List.mem_of_mem_take hc)
  rw [hr]
  exact ⟨column hv.title, column hv.name, column hv.description⟩

theorem decode_inert {x s : Bytes} (hx : ∀ c ∈ x, isInert c = true) (h : decodeLiteral x = some s) : s = x := by
  rw [decodeLiteral_selfReading (selfReading_of_inert hx), Option.some.injEq] at h
  exact h.symm

theorem Request.Stores.uuid {q : Request} {a : Attributes} {r : Row} (h : q.Stores a r) : r.uuid = a.uuid.bytes := by
  obtain ⟨v, hv, hr⟩ := h
  rw [hr, ← a.uuid.charColumn, ← decode_inert a.uuid.inert hv.uuid]
  rfl

theorem Request.Stores.agree {q q' : Request} {a : Attributes} {r r' : Row} (h : q.Stores a r) (h' : q'.Stores a r')
    (hext : q.ext = q'.ext) : r.duration = r'.duration ∧ r.bitrate = r'.bitrate ∧ r.ext = r'.ext := by
  obtain ⟨v, hv, hr⟩ := h
  obtain ⟨v', hv', hr'⟩ := h'
  have hd : v.duration = v'.duration := Option.some.inj (hv.duration.symm.trans hv'.duration)
  have hb : v.bitrate = v'.bitrate := Option.some.inj (hv.bitrate.symm.trans hv'.bitrate)
  have hx : v.ext = v'.ext := by
    have h₁ := hv.ext
    rw [Request.values_ext, hext, ← q'.values_ext a, hv'.ext, Option.some.injEq] at h₁
    exact h₁.symm
  rw [hr, hr']
  simp only [Values.row, hd, hb, hx, and_self]

/-! ## The index entry -/

def entryHead (id : Nat) (uuid : Bytes) : Bytes :=
  (str "\n" ++ str "<div class=\"col-lg-4 col-sm-5 col-xs-6\"> <a href=\"" ++
      str "http://www.videovortex.stream/php/player.php/") ++
    (decimal id ++ ((str "\" class=\"thumbnail-attr\"> <img src=\"" ++
      str "https://s3-us-west-2.amazonaws.com/vortex-bucket/") ++
    (uuid ++ (str ".jpg" ++ str "\" class=\"img-responsive\"> </a> <h3>"))))

def entryTail : Bytes := str "</h3> </div>" ++ str "\n"

theorem entry_eq (r : Row) : entry r = entryHead r.id r.uuid ++ (r.title ++ entryTail) := by
  simp only [entry, entryHead, entryTail, playerUrl, imageUrl, bucketUrl, List.append_assoc]

theorem entryHead_closed {id : Nat} {uuid : Bytes} (hu : ∀ c ∈ uuid, c ≠ dquote) : Closed (entryHead id uuid) := by
  apply data_of_erase
  rw [entryHead, value_slot (by decide +kernel) (decimal_ne rfl id), value_slot (by decide +kernel) hu]
  decide +kernel

theorem entry_tags {r : Row} (hu : ∀ c ∈ r.uuid, c ≠ dquote) (ht : ∀ c ∈ r.title, c ≠ lt) :
    Closed (entry r) ∧ htmlTags (entry r) = htmlTags (entryHead r.id r.uuid ++ entryTail) := by
  rw [entry_eq]
  exact text_slot (entryHead_closed hu) (by decide +kernel) ht

/-! ## The player page -/

theorem heading_tags {title : Bytes} (ht : ∀ c ∈ title, c ≠ lt) :
    Closed (heading title) ∧ htmlTags (heading title) = htmlTags (heading []) := by
  have heq : ∀ x, heading x = str "<div class=\"container\">" ++ str "\n<h2>" ++ (x ++ str "</h2>\n") := by
    intro x
    simp only [heading, List.append_assoc]
  rw [heq, heq]
  exact text_slot (by decide +kernel) (by decide +kernel) ht

theorem twoDigits_ne_lt (n : Nat) : ∀ c ∈ twoDigits n, c ≠ lt := by
  unfold twoDigits
  split
  · rw [List.forall_mem_cons]
    exact ⟨by decide, decimal_ne rfl n⟩
  · exact decimal_ne rfl n

theorem timeText_ne_lt (t : Nat) : ∀ c ∈ timeText t, c ≠ lt := by
  intro c hc
  simp only [timeText, List.mem_append, List.mem_cons] at hc
  rcases hc with hc | rfl | hc | rfl | hc
  · exact twoDigits_ne_lt _ c hc
  · decide
  · exact twoDigits_ne_lt _ c hc
  · decide
  · exact twoDigits_ne_lt _ c hc

theorem attributeTable_tags {duration fname bitrate : Bytes} (hd : ∀ c ∈ duration, c ≠ lt) (hf : ∀ c ∈ fname, c ≠ lt)
    (hb : ∀ c ∈ bitrate, c ≠ lt) :
    Closed (attributeTable duration fname bitrate) ∧
      htmlTags (attributeTable duration fname bitrate) = htmlTags (attributeTable [] [] []) := by
  let a := str "\n" ++ str "\t<table style=\"border: 1px solid black; width:75%\">" ++ str "\n\t    <tr>\n\t       <th>" ++
    str "Duration</th>\n\t\t   <th>File Name</th>\n   \t       <th>Bitrate (kbs)</th>\n\t     </tr>" ++
    str "\n\t     <tr>\n\t       <td>"
  let b := str "</td>\n\t       <td>"
  let c := str "</td>\n" ++ str "\t       <td>"
  let d := str "</td>\n\t     </tr>\n      </table>\n"
  have heq : ∀ x y z, attributeTable x y z = a ++ (x ++ (b ++ (y ++ (c ++ (z ++ d))))) := by
    intro x y z
    simp only [attributeTable, a, b, c, d, List.append_assoc]
  have ha : Closed a := by decide +kernel
  have hb' : Closed b := by decide +kernel
  have hc : Closed c := by decide +kernel
  have hd' : Closed d := by decide +kernel
  -- from the last value to the first
  have h₁ := text_slot hc hd' hb
  have h₂ := text_slot hb' h₁.1 hf
  have h₃ := text_slot ha h₂.1 hd
  rw [heq, heq]
  refine ⟨h₃.1, ?_⟩
  rw [h₃.2, htmlTags_append ha, h₂.2, htmlTags_append hb', h₁.2]
  simp only [List.nil_append]
  rw [htmlTags_append ha, htmlTags_append hb']

theorem descript_tags {des : Bytes} (hd : ∀ c ∈ des, c ≠ lt) :
    Closed (descript des) ∧ htmlTags (descript des) = htmlTags (descript []) := by
  have heq : ∀ x, descript x = str "<div class=\"container col-md-7 col-md-offset-2 text-left\">" ++ str "     <h3>" ++
      (x ++ (str "</h3><br><br><br>\n" ++ str "\n" ++ str "</div>\n")) := by
    intro x
    simp only [descript, List.append_assoc]
  rw [heq, heq]
  exact text_slot (by decide +kernel) (by decide +kernel) hd

def mediaPart (r : Row) (b : Branch) : Bytes :=
  str "\n" ++ videoTag r.uuid ++ str "\n" ++ mime r b ++ str "'>" ++ str "\"" ++ str "\n" ++
    str "        </video><br><br>" ++ str "\n</div>" ++ str "\n"

/-- The page between the two values of `mediaPart`, and after them. -/
def toSource (b : Branch) : Bytes :=
  str "\" class=\"video-js vjs-default-skin\" controls preload=\"auto\" width=\"860\" height=\"420\"" ++
    str "data-setup='\x7b" ++ str "\"Dispay_option\":true\x7d" ++ str "'>" ++ str "\n" ++ b.indent ++
    str "<source src=\"" ++ b.base

def fromSource (b : Branch) : Bytes :=
  str "\"" ++ str " type='" ++ b.type ++ str "'>" ++ str "\"" ++ str "\n" ++ str "        </video><br><br>" ++
    str "\n</div>" ++ str "\n"

theorem branch_tags : ∀ ext ∈ supported, ∀ b ∈ branch ext,
    (after inValue (toSource b)).erase = inValue ∧ (after inValue (fromSource b)).erase = .data ∧
      ∀ c ∈ ext, c ≠ dquote := by
  decide +kernel

theorem mediaPart_closed {r : Row} {b : Branch} (hu : ∀ c ∈ r.uuid, c ≠ dquote) (hb : branch r.ext = some b) :
    Closed (mediaPart r b) := by
  have hsup : r.ext ∈ supported := branch_isSome.mp (by rw [hb]; rfl)
  obtain ⟨hto, hfrom, hx⟩ := branch_tags r.ext hsup b hb
  have hname : ∀ c ∈ mediaName r, c ≠ dquote := by
    intro c hc
    simp only [mediaName, List.mem_append] at hc
    rcases hc with (hc | hc) | hc
    · exact hu c hc
    · have : c ∈ [dot] := hc
      rw [List.mem_singleton.mp this]
      decide
    · exact hx c hc
  have heq : mediaPart r b = (str "\n" ++ str "         <video id=\"") ++
      (r.uuid ++ (toSource b ++ (mediaName r ++ fromSource b))) := by
    simp only [mediaPart, videoTag, mime, toSource, fromSource, List.append_assoc]
  apply data_of_erase
  rw [heq, value_slot (by decide +kernel) hu, value_slot hto hname, hfrom]

theorem player_tags {r : Row} {b : Branch} {p : Player} (hr : r.PlainText) (hu : ∀ c ∈ r.uuid, c ≠ dquote)
    (hb : branch r.ext = some b) (hp : buildPlayer r = some p) :
    htmlTags p.html = htmlTags (heading []) ++ (htmlTags (attributeTable [] [] []) ++
      (htmlTags (mediaPart r b) ++ htmlTags (descript []))) := by
  obtain ⟨h₁, t₁⟩ := heading_tags hr.title
  obtain ⟨h₂, t₂⟩ := attributeTable_tags (timeText_ne_lt r.duration) hr.name (decimal_ne rfl r.bitrate)
  have h₃ := mediaPart_closed hu hb
  obtain ⟨-, t₄⟩ := descript_tags hr.description
  have heq : p.html = heading r.title ++ (attributeTable (timeText r.duration) r.name (decimal r.bitrate) ++
      (mediaPart r b ++ descript r.description)) := by
    unfold buildPlayer at hp
    rw [hb] at hp
    rw [← Option.some.inj hp]
    simp only [mediaPart, List.append_assoc]
  rw [heq, htmlTags_append h₁, htmlTags_append h₂, htmlTags_append h₃, t₁, t₂, t₄]

/-! ## Two uploads -/

/-- Two uploads with the same attributes and extension, under the same id: the
tags of the entry and of the player page are the same, and so is the branch. -/
theorem uploader_text_is_no_markup {q q' : Request} {a : Attributes} {r r' : Row} (hext : q.ext = q'.ext)
    (h : q.Stores a r) (h' : q'.Stores a r') (hid : r.id = r'.id) :
    htmlTags (entry r) = htmlTags (entry r') ∧ branch r.ext = branch r'.ext ∧
      (buildPlayer r).map (fun p => (p.source, htmlTags p.html)) =
        (buildPlayer r').map fun p => (p.source, htmlTags p.html) := by
  obtain ⟨-, -, hx⟩ := h.agree h' hext
  have huuid : r.uuid = r'.uuid := h.uuid.trans h'.uuid.symm
  have hu : ∀ c ∈ r.uuid, c ≠ dquote := by
    rw [h.uuid]
    exact fun c hc => inert_ne (a.uuid.inert c hc) rfl
  have hu' : ∀ c ∈ r'.uuid, c ≠ dquote := huuid ▸ hu
  refine ⟨?_, by rw [hx], ?_⟩
  · rw [(entry_tags hu h.plainText.title).2, (entry_tags hu' h'.plainText.title).2, hid, huuid]
  · have hmedia : mediaName r = mediaName r' := by rw [mediaName, mediaName, huuid, hx]
    cases hb : branch r.ext with
    | none =>
      have hb' : branch r'.ext = none := by rw [← hx, hb]
      rw [buildPlayer, buildPlayer, hb, hb']
    | some b =>
      have hb' : branch r'.ext = some b := by rw [← hx, hb]
      obtain ⟨p, hp⟩ : ∃ p, buildPlayer r = some p := by rw [buildPlayer, hb]; exact ⟨_, rfl⟩
      obtain ⟨p', hp'⟩ : ∃ p, buildPlayer r' = some p := by rw [buildPlayer, hb']; exact ⟨_, rfl⟩
      have hsource : p.source = p'.source := by
        obtain ⟨c, hc, hs⟩ := buildPlayer_some hp
        obtain ⟨c', hc', hs'⟩ := buildPlayer_some hp'
        rw [hb, Option.some.injEq] at hc
        rw [hb', Option.some.injEq] at hc'
        rw [hs, hs', ← hc, ← hc', hmedia]
      have hpart : mediaPart r b = mediaPart r' b := by
        simp only [mediaPart, mime, huuid, hmedia]
      rw [hp, hp', Option.map_some, Option.map_some, player_tags h.plainText hu hb hp,
        player_tags h'.plainText hu' hb' hp', hsource, hpart]

theorem sample_markup_is_text :
    let q := { sampleRequest with title := str "</h3><script>alert(1)</script>" }
    let r := (sampleRequest.values sampleAttributes).row 58
    let r' := (q.values sampleAttributes).row 58
    htmlTags (entry r) = htmlTags (entry r') ∧ branch r.ext = branch r'.ext ∧
      (buildPlayer r).map (fun p => (p.source, htmlTags p.html)) =
        (buildPlayer r').map fun p => (p.source, htmlTags p.html) := by
  intro q r r'
  have stores : ∀ q : Request, (∀ f ∈ (q.values sampleAttributes).fields, selfReading f = true) →
      q.Stores sampleAttributes ((q.values sampleAttributes).row 58) := by
    intro q hq
    simp only [Values.fields, List.forall_mem_cons] at hq
    obtain ⟨h₁, h₂, h₃, h₄, h₅, h₆, h₇, -⟩ := hq
    exact ⟨_, ⟨decodeLiteral_selfReading h₁, decodeLiteral_selfReading h₂, decodeLiteral_selfReading h₃,
      decodeLiteral_selfReading h₄, decodeLiteral_selfReading h₅, decodeLiteral_selfReading h₆,
      decodeLiteral_selfReading h₇⟩, rfl⟩
  have hr := stores sampleRequest (by decide +kernel)
  have hr' := stores q (by decide +kernel)
  have hext : sampleRequest.ext = q.ext := rfl
  exact uploader_text_is_no_markup hext hr hr' rfl

end Vortex
