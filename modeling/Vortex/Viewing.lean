import Vortex.Columns
import Vortex.Entities
import Vortex.Playback
import Vortex.Reach

/-!
# What a visitor reads

The texts on a page, each behind the tag it is shown in, with their entities
decoded. What an uploader typed is read there again.
-/

namespace Vortex

open Ascii

/-! ## Texts behind their tags -/

/-- A heading or a cell of a table. -/
def isField (t : Tag) : Bool := !t.closing && (t.name == str "h2" || t.name == str "h3" || t.name == str "td")

def leading : List HtmlToken → Bytes
  | .char c :: ts => c :: leading ts
  | _ => []

/-- The tag of each heading and cell, and the text up to the next tag. -/
def fields : List HtmlToken → List (Bytes × Bytes)
  | [] => []
  | .tag t :: ts => if isField t then (t.name, leading ts) :: fields ts else fields ts
  | .char _ :: ts => fields ts

def readFields (html : Bytes) : List (Bytes × Bytes) :=
  (fields (htmlTokens html)).map fun f => (f.1, decodeEntities f.2)

/-- No heading and no cell begins there. -/
def quiet (ts : List HtmlToken) : Bool :=
  ts.all fun
    | .tag t => !isField t
    | .char _ => true

def beginsTag : List HtmlToken → Bool
  | .tag _ :: _ => true
  | _ => false

theorem fields_quiet {ts : List HtmlToken} (h : quiet ts = true) (us : List HtmlToken) : fields (ts ++ us) = fields us := by
  induction ts with
  | nil => rfl
  | cons a ts ih =>
    rw [quiet, List.all_cons, Bool.and_eq_true] at h
    obtain ⟨ha, hts⟩ := h
    cases a with
    | tag t =>
      have ht : isField t = false := by simpa using ha
      rw [List.cons_append, fields, ht]
      simpa using ih hts
    | char c =>
      rw [List.cons_append, fields]
      exact ih hts

theorem fields_chars (x : Bytes) (us : List HtmlToken) : fields (x.map .char ++ us) = fields us := by
  apply fields_quiet
  simp [quiet]

theorem leading_chars {ts : List HtmlToken} (h : beginsTag ts = true) (x : Bytes) (us : List HtmlToken) :
    leading (x.map .char ++ (ts ++ us)) = x := by
  induction x with
  | nil =>
    cases ts with
    | nil => simp [beginsTag] at h
    | cons a ts =>
      cases a with
      | tag t => rfl
      | char c => simp [beginsTag] at h
  | cons c x ih =>
    rw [List.map_cons, List.cons_append, leading, ih]

/-! ## Pieces of pages -/

/-- The piece begins and ends between tags, and shows these texts whatever
follows it. -/
structure Displays (x : Bytes) (fs : List (Bytes × Bytes)) : Prop where
  closed : Closed x
  fields : ∀ us, fields (htmlTokens x ++ us) = fs ++ fields us

section
variable {x y : Bytes} {fs gs : List (Bytes × Bytes)}

theorem Displays.append (hx : Displays x fs) (hy : Displays y gs) : Displays (x ++ y) (fs ++ gs) where
  closed := hx.closed.append hy.closed
  fields us := by
    rw [htmlTokens_append hx.closed, List.append_assoc, hx.fields, hy.fields, List.append_assoc]

theorem Displays.skip (hx : Displays x []) (hy : Displays y gs) : Displays (x ++ y) gs := hx.append hy

theorem Displays.fields_eq (h : Displays x fs) : Vortex.fields (htmlTokens x) = fs := by
  have := h.fields []
  simpa [Vortex.fields] using this

theorem tokens_text (h : ∀ c ∈ x, c ≠ lt) : htmlTokens x = x.map .char := by
  induction x with
  | nil => rfl
  | cons c x ih =>
    rw [htmlTokens, tokens_data (h c (by simp)), List.map_cons, ← ih fun d hd => h d (List.mem_cons_of_mem _ hd)]
    rfl

theorem displays_quiet (hc : Closed x) (hq : quiet (htmlTokens x) = true) : Displays x [] :=
  ⟨hc, fun us => by rw [fields_quiet hq]; rfl⟩

theorem quiet_of_tags {ts : List HtmlToken} (h : ∀ t ∈ ts.filterMap HtmlToken.tag?, isField t = false) : quiet ts = true := by
  rw [quiet, List.all_eq_true]
  intro a ha
  cases a with
  | tag t => simp [h t (List.mem_filterMap.mpr ⟨_, ha, rfl⟩)]
  | char c => rfl

theorem Reads.displays {ts : List Tag} (h : Reads .data x ts .data) (hts : ∀ t ∈ ts, isField t = false) : Displays x [] := by
  refine displays_quiet h.after (quiet_of_tags ?_)
  rw [htmlTokens, h.tags]
  exact hts

theorem displays_str (l : List Char) (h : Closed (l.map fun c => c.toNat.toUInt8) ∧
    quiet (htmlTokens (l.map fun c => c.toNat.toUInt8)) = true) : Displays (str (String.ofList l)) [] := by
  rw [str_ofList]
  exact displays_quiet h.1 h.2

end

/-! ## The frame -/

set_option maxRecDepth 2000 in
theorem header_displays : Displays header [] := by
  delta header
  simp only [List.append_assoc]
  iterate 16 refine Displays.skip (displays_str _ (by decide +kernel)) ?_
  exact displays_str _ (by decide +kernel)

set_option maxRecDepth 2000 in
theorem indexHeader_displays : Displays indexHeader [] := by
  delta indexHeader
  simp only [List.append_assoc]
  iterate 17 refine Displays.skip (displays_str _ (by decide +kernel)) ?_
  exact displays_str _ (by decide +kernel)

theorem footer_displays : Displays footer [] := displays_str _ (by decide +kernel)

theorem blank_displays : Displays (str "\n\n") [] := displays_str _ (by decide +kernel)

/-! ## Texts in their places -/

/-- It does so and begins with a tag. -/
structure DisplaysNext (x : Bytes) (fs : List (Bytes × Bytes)) : Prop extends Displays x fs where
  begins : beginsTag (htmlTokens x) = true

/-- The piece ends with the tag of a text. -/
structure Opening (x n : Bytes) : Prop where
  closed : Closed x
  tokens : ∃ ts t, htmlTokens x = ts ++ [.tag t] ∧ quiet ts = true ∧ isField t = true ∧ t.name = n

section
variable {x y n : Bytes} {fs gs : List (Bytes × Bytes)}

theorem beginsTag_append (hc : Closed x) (h : beginsTag (htmlTokens x) = true) : beginsTag (htmlTokens (x ++ y)) = true := by
  rw [htmlTokens_append hc]
  cases hts : htmlTokens x with
  | nil => simp [hts, beginsTag] at h
  | cons a ts =>
    cases a with
    | tag t => rfl
    | char c => simp [hts, beginsTag] at h

theorem DisplaysNext.append (hx : DisplaysNext x fs) (hy : Displays y gs) : DisplaysNext (x ++ y) (fs ++ gs) where
  toDisplays := hx.toDisplays.append hy
  begins := beginsTag_append hx.closed hx.begins

/-- A text in its place: behind its tag and before another one. -/
theorem Opening.slot (ho : Opening x n) {v : Bytes} (hv : ∀ c ∈ v, c ≠ lt) (hy : DisplaysNext y gs) :
    Displays (x ++ (v ++ y)) ((n, v) :: gs) := by
  have hclosed : Closed v := (text_closed hv).1
  refine ⟨ho.closed.append (hclosed.append hy.closed), fun us => ?_⟩
  obtain ⟨ts, t, hts, hq, ht, rfl⟩ := ho.tokens
  rw [htmlTokens_append ho.closed, htmlTokens_append hclosed, hts, tokens_text hv]
  simp only [List.append_assoc, List.cons_append, List.nil_append]
  rw [fields_quiet hq, fields, if_pos ht, leading_chars hy.begins, fields_chars, hy.fields]

/-- With a tag of its own before it, so that a text may stand before that. -/
theorem Opening.slotNext (ho : Opening x n) {v : Bytes} (hv : ∀ c ∈ v, c ≠ lt) (hy : DisplaysNext y gs)
    (hb : beginsTag (htmlTokens x) = true) : DisplaysNext (x ++ (v ++ y)) ((n, v) :: gs) where
  toDisplays := ho.slot hv hy
  begins := beginsTag_append ho.closed hb

theorem opening_of_reads {ts : List Tag} {s : HtmlState} {us : List HtmlToken} {t : Tag} (hx : Reads .data x ts s)
    (hts : ∀ t ∈ ts, isField t = false) (hy : tokensFrom s y = us ++ [.tag t]) (hq : quiet us = true)
    (ht : isField t = true) (ha : after s y = .data) : Opening (x ++ y) t.name := by
  have hquiet : quiet (tokensFrom .data x ++ us) = true := by
    have hxq : quiet (tokensFrom .data x) = true := by
      apply quiet_of_tags
      rw [hx.tags]
      exact hts
    unfold quiet at *
    rw [List.all_append, hxq, hq]
    rfl
  refine ⟨?_, tokensFrom .data x ++ us, t, ?_, hquiet, ht, rfl⟩
  · rw [Closed, after_append, hx.after, ha]
  · rw [htmlTokens, tokensFrom_append, hx.after, hy, List.append_assoc]

theorem begins_str (l : List Char) (h : Closed (l.map fun c => c.toNat.toUInt8) ∧
    quiet (htmlTokens (l.map fun c => c.toNat.toUInt8)) = true ∧
    beginsTag (htmlTokens (l.map fun c => c.toNat.toUInt8)) = true) : DisplaysNext (str (String.ofList l)) [] := by
  refine ⟨displays_str l ⟨h.1, h.2.1⟩, ?_⟩
  rw [str_ofList]
  exact h.2.2

theorem opening_str (l : List Char) {t : Tag} (h : Closed (l.map fun c => c.toNat.toUInt8) ∧
    (htmlTokens (l.map fun c => c.toNat.toUInt8)).getLast? = some (.tag t) ∧
    quiet (htmlTokens (l.map fun c => c.toNat.toUInt8)).dropLast = true ∧ isField t = true) :
    Opening (str (String.ofList l)) t.name := by
  rw [str_ofList]
  obtain ⟨hc, hlast, hq, ht⟩ := h
  exact ⟨hc, _, t, (List.dropLast_append_getLast? _ hlast).symm, hq, ht, rfl⟩

end

/-! ## The player page -/

def h2 : Tag := ⟨false, str "h2", []⟩

def h3 : Tag := ⟨false, str "h3", []⟩

def td : Tag := ⟨false, str "td", []⟩

theorem heading_displays {title : Bytes} (ht : ∀ c ∈ title, c ≠ lt) : Displays (heading title) [(str "h2", title)] := by
  have hdiv : Displays (str "<div class=\"container\">") [] := displays_str _ (by decide +kernel)
  have hopen : Opening (str "\n<h2>") (str "h2") := opening_str (t := h2) _ (by decide +kernel)
  have hnext : DisplaysNext (str "</h2>\n") [] := begins_str _ (by decide +kernel)
  have hslot := hdiv.skip (hopen.slot ht hnext)
  simpa only [heading, List.append_assoc] using hslot

theorem attributeTable_displays {duration fname bitrate : Bytes} (hd : ∀ c ∈ duration, c ≠ lt) (hf : ∀ c ∈ fname, c ≠ lt)
    (hb : ∀ c ∈ bitrate, c ≠ lt) :
    Displays (attributeTable duration fname bitrate) [(str "td", duration), (str "td", fname), (str "td", bitrate)] := by
  have h₁ : Displays (str "\n") [] := displays_str _ (by decide +kernel)
  have h₂ : Displays (str "\t<table style=\"border: 1px solid black; width:75%\">") [] := displays_str _ (by decide +kernel)
  have h₃ : Displays (str "\n\t    <tr>\n\t       <th>") [] := displays_str _ (by decide +kernel)
  have h₄ : Displays (str "Duration</th>\n\t\t   <th>File Name</th>\n   \t       <th>Bitrate (kbs)</th>\n\t     </tr>") [] :=
    displays_str _ (by decide +kernel)
  have o₁ : Opening (str "\n\t     <tr>\n\t       <td>") (str "td") := opening_str (t := td) _ (by decide +kernel)
  have o₂ : Opening (str "</td>\n\t       <td>") (str "td") := opening_str (t := td) _ (by decide +kernel)
  have b₂ : beginsTag (htmlTokens (str "</td>\n\t       <td>")) = true := by decide +kernel
  have n₂ : DisplaysNext (str "</td>\n") [] := begins_str _ (by decide +kernel)
  have o₃ : Opening (str "\t       <td>") (str "td") := opening_str (t := td) _ (by decide +kernel)
  have n₃ : DisplaysNext (str "</td>\n\t     </tr>\n      </table>\n") [] := begins_str _ (by decide +kernel)
  have hlast := n₂.append (o₃.slot hb n₃)
  have hall := h₁.skip (h₂.skip (h₃.skip (h₄.skip (o₁.slot hd (o₂.slotNext hf hlast b₂)))))
  simpa only [attributeTable, List.append_assoc, List.nil_append] using hall

theorem descript_displays {des : Bytes} (hd : ∀ c ∈ des, c ≠ lt) : Displays (descript des) [(str "h3", des)] := by
  have h₁ : Displays (str "<div class=\"container col-md-7 col-md-offset-2 text-left\">") [] := displays_str _ (by decide +kernel)
  have hopen : Opening (str "     <h3>") (str "h3") := opening_str (t := h3) _ (by decide +kernel)
  have hnext : DisplaysNext (str "</h3><br><br><br>\n") [] := begins_str _ (by decide +kernel)
  have h₂ : Displays (str "\n" ++ str "</div>\n") [] :=
    Displays.skip (displays_str _ (by decide +kernel)) (displays_str _ (by decide +kernel))
  have hall := h₁.skip (hopen.slot hd (hnext.append h₂))
  simpa only [descript, List.append_assoc, List.append_nil] using hall

theorem mediaPart_displays {r : Row} {b : Branch} (hu : ∀ c ∈ r.uuid, c ≠ dquote) (hb : branch r.ext = some b) :
    Displays (mediaPart r b) [] := by
  apply (mediaPart_reads hu hb).displays
  intro t ht
  simp only [List.mem_cons, List.not_mem_nil, or_false] at ht
  rcases ht with rfl | rfl | rfl | rfl | rfl | rfl <;> rfl

theorem playerPage_displays {r : Row} {p : Player} (h : r.Plain) (hp : buildPlayer r = some p) :
    fields (htmlTokens (playerPage p)) = [(str "h2", r.title), (str "td", timeText r.duration), (str "td", r.name),
      (str "td", decimal r.bitrate), (str "h3", r.description)] := by
  obtain ⟨b, hb, -⟩ := buildPlayer_some hp
  have hhead := heading_displays h.text.title
  have htable := attributeTable_displays (timeText_ne_lt r.duration) h.text.name (decimal_ne rfl r.bitrate)
  have hmedia := mediaPart_displays h.uuid hb
  have hdes := descript_displays h.text.description
  have hall := header_displays.append ((hhead.append (htable.append (hmedia.append hdes))).append
    (footer_displays.append blank_displays))
  rw [playerPage, player_html hb hp]
  exact hall.fields_eq

/-! ## The listing -/

theorem entry_displays {r : Row} (h : r.Plain) : Displays (entry r) [(str "h3", r.title)] := by
  have htail : ∀ u, tokensFrom (.value ⟨false, str "img", []⟩ (str "src") dquote u)
      (str "\" class=\"img-responsive\"> </a> <h3>") =
        [.tag (imgTag u), .char space, .tag ⟨true, str "a", []⟩, .char space] ++ [.tag h3] := fun u => tokens_str _ rfl
  have hend : after (.value ⟨false, str "img", []⟩ (str "src") dquote (imageUrl r))
      (str "\" class=\"img-responsive\"> </a> <h3>") = .data := by
    rw [str_ofList]
    rfl
  have hquiet : ∀ t ∈ [divTag, aTag (playerUrl r)], isField t = false := by
    intro t ht
    simp only [List.mem_cons, List.not_mem_nil, or_false] at ht
    rcases ht with rfl | rfl <;> rfl
  have hopen : Opening _ (str "h3") := opening_of_reads (toImage_reads h.uuid) hquiet (htail _) rfl rfl hend
  have hnext : DisplaysNext (str "</h3> </div>") [] := begins_str _ (by decide +kernel)
  have hblank : Displays (str "\n") [] := displays_str _ (by decide +kernel)
  have hall := hopen.slot h.text.title (hnext.append hblank)
  simpa only [entry, toImage, List.append_assoc, List.append_nil] using hall

theorem entries_displays : ∀ {rows : List Row}, (∀ r ∈ rows, r.Plain) →
    Displays (rows.flatMap entry) (rows.map fun r => (str "h3", r.title))
  | [], _ => displays_quiet rfl rfl
  | r :: rows, h => by
    rw [List.flatMap_cons]
    exact (entry_displays (h r (by simp))).append (entries_displays fun r' hr' => h r' (List.mem_cons_of_mem _ hr'))

theorem moreForm_displays {next : Bytes} (h : ∀ c ∈ next, c ≠ quote) : Displays (moreForm next) [(str "h2", str "More")] := by
  have hto : Displays (toMore next) [] := by
    apply (toMore_reads h).displays
    intro t ht
    simp only [List.mem_cons, List.not_mem_nil, or_false] at ht
    rcases ht with rfl | rfl <;> rfl
  have hsplit : str "\n        <h2>More</h2>\n    </button>\n" =
      str "\n        <h2>" ++ (str "More" ++ str "</h2>\n    </button>\n") := by
    simp [str]
  have hopen : Opening (str "\n        <h2>") (str "h2") := opening_str (t := h2) _ (by decide +kernel)
  have hnext : DisplaysNext (str "</h2>\n    </button>\n") [] := begins_str _ (by decide +kernel)
  rw [moreForm_eq, hsplit]
  exact hto.skip (hopen.slot (by simp [str, lt]) hnext)

theorem indexPage_displays {l : Listing} (h : ∀ r ∈ l.rows, r.Plain) {n : Nat} (hn : l.next = decimal n) :
    fields (htmlTokens (indexPage l)) = l.rows.map (fun r => (str "h3", r.title)) ++ [(str "h2", str "More")] := by
  have h₁ : Displays (str "<div class=\"container\"> <div class=\"row\">") [] := displays_str _ (by decide +kernel)
  have h₂ : Displays (str "</div>") [] := displays_str _ (by decide +kernel)
  have h₃ : Displays (str "\n") [] := displays_str _ (by decide +kernel)
  have hlisting : Displays l.html (l.rows.map fun r => (str "h3", r.title)) := by
    have hall := ((h₁.skip (entries_displays h)).append h₂).append h₃
    simpa only [Listing.html, List.append_nil] using hall
  have hform : Displays (moreForm l.next) [(str "h2", str "More")] := by
    rw [hn]
    exact moreForm_displays (decimal_ne rfl n)
  have hall := indexHeader_displays.skip (hlisting.append (hform.append (footer_displays.append blank_displays)))
  rw [indexPage, hall.fields_eq]
  rfl

/-! ## What was typed -/

/-- What is left of a typed text. -/
def typed (x : Bytes) : Bytes := strtrParens (stripslashes (trim x))

structure Request.Utf8 (q : Request) : Prop where
  title : validUtf8 (stripslashes (trim q.title)) = true
  description : validUtf8 (stripslashes (trim q.description)) = true
  name : validUtf8 (stripslashes (trim q.name.bytes)) = true

theorem decodeEntities_of_ne {x : Bytes} (h : ∀ c ∈ x, c ≠ amp) : decodeEntities x = x := by
  induction x with
  | nil => rfl
  | cons c x ih =>
    rw [decodeEntities, decodeFrom, entityAt_of_ne (h c (by simp))]
    simp only [List.cons.injEq, true_and]
    exact ih fun d hd => h d (List.mem_cons_of_mem _ hd)

theorem decode_verifyInput {x : Bytes} (h : validUtf8 (stripslashes (trim x)) = true) :
    decodeEntities (verifyInput x) = typed x := by
  rw [verifyInput, htmlspecialchars, if_pos h, strtrParens_htmlEscape, decodeEntities_flatMap]
  rfl

/-- What the player page of an upload is meant to say. -/
def uploadFields (q : Request) (a : Attributes) : List (Bytes × Bytes) :=
  [(str "h2", typed q.title), (str "td", a.duration.bytes), (str "td", typed q.name.bytes),
    (str "td", decimal (digitsVal a.bitrate.bytes)), (str "h3", typed q.description)]

theorem playerPage_read {q : Request} {a : Attributes} {id : Nat} {p : Player} (hr : ((q.values a).row id).Plain)
    (hp : buildPlayer ((q.values a).row id) = some p) (hk : Held (q.values a) ((q.values a).row id)) (hu : q.Utf8) :
    readFields (playerPage p) = uploadFields q a := by
  have hduration : ∀ c ∈ a.duration.bytes, c ≠ amp := fun c hc => inert_ne (a.duration.inert c hc) rfl
  have hbitrate : ∀ c ∈ decimal (digitsVal a.bitrate.bytes), c ≠ amp := decimal_ne rfl _
  have hname : ((q.values a).row id).name = verifyInput q.name.bytes := hk.name
  have htitle : ((q.values a).row id).title = verifyInput q.title := hk.title
  have hdes : ((q.values a).row id).description = verifyInput q.description := hk.description
  have htime : timeText ((q.values a).row id).duration = a.duration.bytes := hk.duration
  have hbits : ((q.values a).row id).bitrate = digitsVal a.bitrate.bytes := hk.bitrate
  rw [readFields, playerPage_displays hr hp, hname, htitle, hdes, htime, hbits]
  simp only [List.map_cons, List.map_nil, decode_verifyInput hu.title, decode_verifyInput hu.name,
    decode_verifyInput hu.description, decodeEntities_of_ne hduration, decodeEntities_of_ne hbitrate]
  rfl

/-! ## From the form to the screen -/

variable {other : Bytes → Option (List Row)} {thumbOf : Bytes → Bytes} {ι : Type*} [DecidableEq ι] {requests : ι → Request}
  {s : Tour ι}

theorem row_ext_of_supported {q : Request} {a : Attributes} {id : Nat} (hx : q.ext ∈ supported) :
    ((q.values a).row id).ext = q.ext := by
  rw [row_ext]
  exact (supported_plain _ hx).2.2.2.2

/-- What the visitor reads on the page that is shown. -/
def Tour.read (s : Tour ι) : List (Bytes × Bytes) :=
  match s.shown with
  | .away => []
  | .page _ html => readFields html

theorem tour_media {w : World} {es : List (TourEvent ι)}
    (hg : (tour other thumbOf requests).Guarded (TourStoresOwn requests) (.opening w) es)
    (h : (tour other thumbOf requests).run (.opening w) es = some s) : MediaInv requests s.site := by
  refine Machine.guarded_invariant (I := fun s : Tour ι => MediaInv requests s.site) ?_ (mediaInv_opening w) hg h
  intro s e s' hs hown hst
  rcases tour_site hst with hsite | ⟨c, rfl, hc⟩
  · rw [hsite]
    exact hs
  · exact hs.step hown.2 hc

/-- An upload that has its row is found on the listing under the title that
was typed, and behind the link there is what was typed with it, if the texts
are UTF-8 and fit their columns. -/
theorem visitor_reads_upload {w : World} {es : List (TourEvent ι)} (hw : ∀ r ∈ w.db.rows, r.Plain)
    (hg : (tour other thumbOf requests).Guarded (TourStoresOwn requests) (.opening w) es)
    (h : (tour other thumbOf requests).run (.opening w) es = some s) {j : ι} {o : Upload} {id : Nat}
    (ho : s.site.upload j = some o) (hid : o.row = some id) (hx : (requests j).ext ∈ supported)
    (hd : isHms o.attrs.duration.bytes = true) (hf : Fits (requests j) o.attrs) (hu : (requests j).Utf8) :
    ∃ (i : Nat) (front page : Tour ι), s.table.rows[i]?.map Row.id = some id ∧
      (tour other thumbOf requests).run s (.address :: List.replicate (i / 15) .more) = some front ∧
      front.read[i % 15]? = some (str "h3", typed (requests j).title) ∧
      (tour other thumbOf requests).run front [.link (4 + i % 15)] = some page ∧
      page.read = uploadFields (requests j) o.attrs := by
  have hinv := tourInv_run hw hg h
  let r := ((requests j).values o.attrs).row id
  have hr : r ∈ s.table.rows := ((tour_media hg h).media j o ho).row id hid
  have hk : Held ((requests j).values o.attrs) r := (held_iff_fits hd id).mpr hf
  obtain ⟨i, hi⟩ := List.getElem?_of_mem hr
  obtain ⟨front, t, more, hrun, -, hshown, hentry, hplain, ⟨m, hnext⟩, hlink⟩ := row_reached hinv hi
  refine ⟨i, front, _, ?_, hrun, ?_, hlink, ?_⟩
  · rw [hi]
    rfl
  · have htitle : r.title = verifyInput (requests j).title := hk.title
    have hfield : (fields (htmlTokens (indexPage (index t more))))[i % 15]? = some (str "h3", r.title) := by
      have hlt : i % 15 < ((index t more).rows.map fun r => (str "h3", r.title)).length := by
        rw [List.length_map]
        exact (List.getElem?_eq_some_iff.mp hentry).1
      rw [indexPage_displays hplain hnext, List.getElem?_append_left hlt, List.getElem?_map, hentry]
      rfl
    rw [Tour.read, hshown]
    change (readFields (indexPage (index t more)))[i % 15]? = _
    rw [readFields, List.getElem?_map, hfield, Option.map_some, htitle, decode_verifyInput hu.title]
  · obtain ⟨p, hp, hpage⟩ := rowPage_of_supported (r := r) (by rw [row_ext_of_supported hx]; exact hx)
    rw [Tour.read, hpage]
    exact playerPage_read (hinv.plain r hr) hp hk hu

/-- A title with characters that are escaped. -/
def quotedRequest : Request := { sampleRequest with title := str "  Q&A <live> " }

theorem sample_visitor_reads_upload : ∃ (s front page : Tour Unit) (i : Nat) (o : Upload),
    (tour (fun _ => none) sampleThumb fun _ => quotedRequest).run s (.address :: List.replicate (i / 15) .more) = some front ∧
      front.read[i % 15]? = some (str "h3", str "Q&A <live>") ∧
      (tour (fun _ => none) sampleThumb fun _ => quotedRequest).run front [.link (4 + i % 15)] = some page ∧
      page.read = uploadFields quotedRequest o.attrs := by
  let es : List (TourEvent Unit) := (sampleEvents sampleTmpName sampleAttributes).map fun out => .call ((), out)
  have hrun : ((tour (fun _ => none) sampleThumb fun _ => quotedRequest).run (.opening sampleWorld) es).map
      (fun s => (s.site.upload ()).map fun o => (o.row, isHms o.attrs.duration.bytes,
        decide (digitsVal o.attrs.bitrate.bytes ≤ 32767))) = some (some (some 58, true, true)) := by
    decide +kernel
  obtain ⟨s, hs, hu⟩ := Option.map_eq_some_iff.mp hrun
  obtain ⟨o, ho, hp⟩ := Option.map_eq_some_iff.mp hu
  obtain ⟨hid, hp⟩ := Prod.mk.inj hp
  obtain ⟨hd, hb⟩ := Prod.mk.inj hp
  have honest : ∀ c ∈ calls es, c.2.smuggles = false := by simp [es, calls, sampleEvents, Outcome.smuggles]
  have hfits : Fits quotedRequest o.attrs :=
    ⟨by decide +kernel, by decide +kernel, by decide +kernel, of_decide_eq_true hb⟩
  have htyped : typed quotedRequest.title = str "Q&A <live>" := by decide +kernel
  obtain ⟨i, front, page, -, hfront, htitle, hpage, hread⟩ := visitor_reads_upload sampleWorld_plain
    (inertTour_guarded (fun _ => by decide +kernel) honest _) hs ho hid (by decide +kernel) hd hfits
    ⟨by decide +kernel, by decide +kernel, by decide +kernel⟩
  exact ⟨s, front, page, i, o, hfront, htyped ▸ htitle, hpage, hread⟩

end Vortex
