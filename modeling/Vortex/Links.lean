import Vortex.ErrorPage
import Vortex.Markup

/-!
# The links and the media of a page

What a visitor can follow, the `a` tags and the More button, and what the
browser loads for the images and the player, as it finds them in the bytes of
the page.
-/

namespace Vortex

open Ascii

def Tag.attr (t : Tag) (n : Bytes) : Option Bytes := (t.attrs.find? fun a => a.1 == n).map Prod.snd

def Tag.href (t : Tag) : Option Bytes := if !t.closing && t.name == str "a" then t.attr (str "href") else none

/-- The value that the button of the form sends as `More`. -/
def Tag.more (t : Tag) : Option Bytes :=
  if !t.closing && t.name == str "button" && t.attr (str "name") == some (str "More") then t.attr (str "value") else none

/-- What an image or a source of the player is loaded from. -/
def Tag.src (t : Tag) : Option Bytes :=
  if !t.closing && (t.name == str "img" || t.name == str "source") then t.attr (str "src") else none

def links (html : Bytes) : List Bytes := (htmlTags html).filterMap Tag.href

def buttons (html : Bytes) : List Bytes := (htmlTags html).filterMap Tag.more

def media (html : Bytes) : List Bytes := (htmlTags html).filterMap Tag.src

/-! ## Pieces of pages -/

/-- The piece begins and ends between tags, and has these links, buttons and media. -/
structure Offers (x : Bytes) (ls bs ms : List Bytes) : Prop where
  closed : Closed x
  links : links x = ls
  buttons : buttons x = bs
  media : media x = ms

section
variable {x y : Bytes} {ls bs ms ls' bs' ms' : List Bytes}

theorem Offers.append (hx : Offers x ls bs ms) (hy : Offers y ls' bs' ms') :
    Offers (x ++ y) (ls ++ ls') (bs ++ bs') (ms ++ ms') where
  closed := hx.closed.append hy.closed
  links := by rw [Vortex.links, htmlTags_append hx.closed, List.filterMap_append, ← hx.links, ← hy.links]; rfl
  buttons := by rw [Vortex.buttons, htmlTags_append hx.closed, List.filterMap_append, ← hx.buttons, ← hy.buttons]; rfl
  media := by rw [Vortex.media, htmlTags_append hx.closed, List.filterMap_append, ← hx.media, ← hy.media]; rfl

theorem Offers.skip (hx : Offers x [] [] []) (hy : Offers y ls bs ms) : Offers (x ++ y) ls bs ms := hx.append hy

theorem Offers.link {l : Bytes} (hx : Offers x [l] [] []) (hy : Offers y ls bs ms) : Offers (x ++ y) (l :: ls) bs ms :=
  hx.append hy

theorem Offers.of_tags {ts : List Tag} (hc : Closed x) (ht : htmlTags x = ts) (hl : ts.filterMap Tag.href = ls)
    (hb : ts.filterMap Tag.more = bs) (hm : ts.filterMap Tag.src = ms) : Offers x ls bs ms :=
  ⟨hc, by rw [Vortex.links, ht, hl], by rw [Vortex.buttons, ht, hb], by rw [Vortex.media, ht, hm]⟩

theorem offers_str (l : List Char) (h : Closed (l.map fun c => c.toNat.toUInt8) ∧
    ((htmlTokens (l.map fun c => c.toNat.toUInt8)).filterMap HtmlToken.tag?).filterMap Tag.href = ls ∧
    ((htmlTokens (l.map fun c => c.toNat.toUInt8)).filterMap HtmlToken.tag?).filterMap Tag.more = bs ∧
    ((htmlTokens (l.map fun c => c.toNat.toUInt8)).filterMap HtmlToken.tag?).filterMap Tag.src = ms) :
    Offers (str (String.ofList l)) ls bs ms := by
  rw [str_ofList]
  rw [tags_of_tokens] at h
  exact ⟨h.1, h.2.1, h.2.2.1, h.2.2.2⟩

end

/-! ## The frame -/

def navigation : List Bytes :=
  [str "/php/upload.php", str "/php/live.php", str "https://github.com/ngduser/vortex-video/blob/master/README.md",
    str "http://www.denig.me/"]

set_option maxRecDepth 2000 in
theorem header_offers : Offers header navigation [] [] := by
  delta header
  simp only [List.append_assoc]
  iterate 10 refine Offers.skip (offers_str _ (by decide +kernel)) ?_
  iterate 4 refine Offers.link (offers_str _ (by decide +kernel)) ?_
  iterate 2 refine Offers.skip (offers_str _ (by decide +kernel)) ?_
  exact offers_str _ (by decide +kernel)

set_option maxRecDepth 2000 in
theorem indexHeader_offers : Offers indexHeader navigation [] [] := by
  delta indexHeader
  simp only [List.append_assoc]
  iterate 10 refine Offers.skip (offers_str _ (by decide +kernel)) ?_
  iterate 4 refine Offers.link (offers_str _ (by decide +kernel)) ?_
  iterate 3 refine Offers.skip (offers_str _ (by decide +kernel)) ?_
  exact offers_str _ (by decide +kernel)

theorem footer_offers : Offers footer [] [] [] := offers_str _ (by decide +kernel)

theorem newline_offers : Offers (str "\n") [] [] [] := offers_str _ (by decide +kernel)

theorem uploadPage_offers : Offers uploadPage navigation [] [] := by
  have hform : Offers uploadForm [] [] [] := by
    delta uploadForm
    simp only [List.append_assoc]
    iterate 19 refine Offers.skip (offers_str _ (by decide +kernel)) ?_
    -- one tag in two pieces
    rw [← List.append_assoc]
    refine Offers.skip ⟨by decide +kernel, by decide +kernel, by decide +kernel, by decide +kernel⟩ ?_
    iterate 4 refine Offers.skip (offers_str _ (by decide +kernel)) ?_
    exact offers_str _ (by decide +kernel)
  exact header_offers.append (hform.append (footer_offers.append newline_offers))

theorem livePage_offers : Offers (livePage none) navigation [] [] := by
  have hform : Offers Live.form [] [] [] := by
    delta Live.form
    simp only [List.append_assoc]
    iterate 6 refine Offers.skip (offers_str _ (by decide +kernel)) ?_
    exact offers_str _ (by decide +kernel)
  exact header_offers.append (hform.append footer_offers)

/-- There is no frame around PHP's message. -/
theorem fatalPage_offers : Offers fatalPage [] [] [] := by
  delta fatalPage
  apply Offers.skip (offers_str _ (by decide +kernel))
  exact offers_str _ (by decide +kernel)

set_option maxRecDepth 2000 in
/-- The messages have no links and no images. -/
theorem errorPage_offers (pathInfo : Option Bytes) : Offers (errorPage pathInfo) navigation [] [] := by
  have hmsg : ∀ m ∈ errorMsg.map Prod.snd, Offers m [] [] [] := by
    delta errorMsg
    simp only [List.map_cons, List.map_nil]
    iterate 11 refine List.forall_mem_cons.mpr ⟨offers_str _ (by decide +kernel), ?_⟩
    exact List.forall_mem_nil _
  obtain ⟨e, ⟨he, -⟩, hpage⟩ := errorPage_shown pathInfo
  have hdiv : Offers (str "<div class=\"center-text\">") [] [] [] := offers_str _ (by decide +kernel)
  have hend : Offers (str "</div>") [] [] [] := offers_str _ (by decide +kernel)
  rw [hpage]
  exact indexHeader_offers.append (hdiv.append ((hmsg _ (List.mem_map_of_mem he)).append (hend.append footer_offers)))

/-! ## Templates with values -/

/-- From `s` the text is read to `s'`, past these tags. -/
structure Reads (s : HtmlState) (x : Bytes) (ts : List Tag) (s' : HtmlState) : Prop where
  tags : (tokensFrom s x).filterMap HtmlToken.tag? = ts
  after : after s x = s'

section
variable {s s' s'' : HtmlState} {x y : Bytes} {ts ts' : List Tag}

theorem Reads.append (hx : Reads s x ts s') (hy : Reads s' y ts' s'') : Reads s (x ++ y) (ts ++ ts') s'' where
  tags := by rw [tokensFrom_append, List.filterMap_append, hx.tags, hx.after, hy.tags]
  after := by rw [after_append, hx.after, hy.after]

theorem reads_str (l : List Char) (h : Reads s (l.map fun c => c.toNat.toUInt8) ts s') :
    Reads s (str (String.ofList l)) ts s' := by
  rw [str_ofList]
  exact h

theorem reads_value {q : Byte} {v : Bytes} (hv : ∀ c ∈ v, c ≠ q) (t : Tag) (n w : Bytes) :
    Reads (.value t n q w) v [] (.value t n q (w ++ v)) := by
  induction v generalizing w with
  | nil =>
    rw [List.append_nil]
    exact ⟨rfl, rfl⟩
  | cons c v ih =>
    have hc : htmlStep (.value t n q w) c = (.value t n q (w ++ [c]), []) := by
      simp only [htmlStep, if_neg (hv c (List.mem_cons_self ..))]
    have hone : Reads (.value t n q w) [c] [] (.value t n q (w ++ [c])) := by
      refine ⟨?_, ?_⟩
      · rw [tokensFrom, htmlEmit, hc]
        rfl
      · change (htmlStep (.value t n q w) c).1 = _
        rw [hc]
    have := hone.append (ih (fun d hd => hv d (List.mem_cons_of_mem _ hd)) (w ++ [c]))
    rwa [List.append_assoc] at this

theorem Reads.offers (h : Reads .data x ts .data) : Offers x (ts.filterMap Tag.href) (ts.filterMap Tag.more) (ts.filterMap Tag.src) :=
  .of_tags h.after ((tags_of_tokens x).symm.trans h.tags) rfl rfl rfl

end

def divTag : Tag := ⟨false, str "div", [(str "class", str "col-lg-4 col-sm-5 col-xs-6")]⟩

def aTag (url : Bytes) : Tag := ⟨false, str "a", [(str "href", url), (str "class", str "thumbnail-attr")]⟩

def imgTag (url : Bytes) : Tag := ⟨false, str "img", [(str "src", url), (str "class", str "img-responsive")]⟩

theorem reads_text {x : Bytes} (h : ∀ c ∈ x, c ≠ lt) : Reads .data x [] .data :=
  ⟨(tags_of_tokens x).trans (text_closed h).2, (text_closed h).1⟩

theorem not_dquote_append {x y : Bytes} (hx : ∀ c ∈ x, c ≠ dquote) (hy : ∀ c ∈ y, c ≠ dquote) : ∀ c ∈ x ++ y, c ≠ dquote :=
  fun c hc => (List.mem_append.mp hc).elim (hx c) (hy c)

theorem playerUrl_ne (r : Row) : ∀ c ∈ playerUrl r, c ≠ dquote :=
  not_dquote_append (by decide +kernel) (decimal_ne rfl r.id)

theorem imageUrl_ne {r : Row} (hu : ∀ c ∈ r.uuid, c ≠ dquote) : ∀ c ∈ imageUrl r, c ≠ dquote :=
  not_dquote_append (by decide +kernel) (not_dquote_append hu (by decide +kernel))

/-- A row that shows as it should: its uuid ends no attribute, its texts are no markup. -/
structure Row.Plain (r : Row) : Prop where
  uuid : ∀ c ∈ r.uuid, c ≠ dquote
  text : r.PlainText

/-- The entry up to the end of the address of its image. -/
def toImage (r : Row) : Bytes :=
  str "\n" ++ str "<div class=\"col-lg-4 col-sm-5 col-xs-6\"> <a href=\"" ++ playerUrl r ++
    str "\" class=\"thumbnail-attr\"> <img src=\"" ++ imageUrl r

theorem toImage_reads {r : Row} (hu : ∀ c ∈ r.uuid, c ≠ dquote) : Reads .data (toImage r) [divTag, aTag (playerUrl r)]
    (.value ⟨false, str "img", []⟩ (str "src") dquote (imageUrl r)) := by
  have h₁ : Reads .data (str "\n") [] .data := reads_str _ ⟨by decide +kernel, by decide +kernel⟩
  have h₂ : Reads .data (str "<div class=\"col-lg-4 col-sm-5 col-xs-6\"> <a href=\"") [divTag]
      (.value ⟨false, str "a", []⟩ (str "href") dquote []) := reads_str _ ⟨by decide +kernel, by decide +kernel⟩
  have h₃ : ∀ u, Reads (.value ⟨false, str "a", []⟩ (str "href") dquote u)
      (str "\" class=\"thumbnail-attr\"> <img src=\"") [aTag u] (.value ⟨false, str "img", []⟩ (str "src") dquote []) :=
    fun u => reads_str _ ⟨rfl, rfl⟩
  exact (((h₁.append h₂).append (reads_value (playerUrl_ne r) _ _ _)).append (h₃ _)).append (reads_value (imageUrl_ne hu) _ _ _)

theorem entry_reads {r : Row} (h : r.Plain) : Reads .data (entry r)
    [divTag, aTag (playerUrl r), imgTag (imageUrl r), ⟨true, str "a", []⟩, ⟨false, str "h3", []⟩, ⟨true, str "h3", []⟩,
      ⟨true, str "div", []⟩] .data := by
  have h₁ : Reads .data (str "\n") [] .data := reads_str _ ⟨by decide +kernel, by decide +kernel⟩
  have h₄ : ∀ u, Reads (.value ⟨false, str "img", []⟩ (str "src") dquote u)
      (str "\" class=\"img-responsive\"> </a> <h3>") [imgTag u, ⟨true, str "a", []⟩, ⟨false, str "h3", []⟩] .data :=
    fun u => reads_str _ ⟨rfl, rfl⟩
  have h₅ : Reads .data (str "</h3> </div>") [⟨true, str "h3", []⟩, ⟨true, str "div", []⟩] .data :=
    reads_str _ ⟨by decide +kernel, by decide +kernel⟩
  exact ((((toImage_reads h.uuid).append (h₄ _)).append (reads_text h.text.title)).append h₅).append h₁

theorem aTag_href (url : Bytes) : (aTag url).href = some url := by
  simp [Tag.href, aTag, Tag.attr]

theorem imgTag_src (url : Bytes) : (imgTag url).src = some url := rfl

theorem entry_offers {r : Row} (h : r.Plain) : Offers (entry r) [playerUrl r] [] [imageUrl r] := by
  have hreads := (entry_reads h).offers
  have hm : [divTag, aTag (playerUrl r), imgTag (imageUrl r), ⟨true, str "a", []⟩, ⟨false, str "h3", []⟩,
      ⟨true, str "h3", []⟩, ⟨true, str "div", []⟩].filterMap Tag.src = [imageUrl r] := by
    rw [List.filterMap_cons, List.filterMap_cons, List.filterMap_cons, imgTag_src]
    rfl
  rw [hm, List.filterMap_cons, List.filterMap_cons, aTag_href] at hreads
  exact hreads

/-! ## The pages with rows -/

theorem entries_offers : ∀ {rows : List Row}, (∀ r ∈ rows, r.Plain) → Offers (rows.flatMap entry) (rows.map playerUrl) []
    (rows.map imageUrl)
  | [], _ => ⟨rfl, rfl, rfl, rfl⟩
  | r :: rows, h => by
    rw [List.flatMap_cons]
    exact (entry_offers (h r (List.mem_cons_self ..))).append (entries_offers fun r' hr' => h r' (List.mem_cons_of_mem _ hr'))

theorem listing_offers {l : Listing} (h : ∀ r ∈ l.rows, r.Plain) : Offers l.html (l.rows.map playerUrl) []
    (l.rows.map imageUrl) := by
  have h₁ : Offers (str "<div class=\"container\"> <div class=\"row\">") [] [] [] := offers_str _ (by decide +kernel)
  have h₂ : Offers (str "</div>") [] [] [] := offers_str _ (by decide +kernel)
  have hall := ((h₁.append (entries_offers h)).append h₂).append newline_offers
  simp only [List.append_nil, List.nil_append] at hall
  exact hall

def moreTag (startingRow : Bytes) : Tag :=
  ⟨false, str "button", [(str "name", str "More"), (str "type", str "submit"), (str "value", startingRow),
    (str "style", str "border: none; background: none; padding: 0;")]⟩

def formTag : Tag := ⟨false, str "form", [(str "action", []), (str "method", str "get")]⟩

/-- The form up to the end of its button's tag. -/
def toMore (next : Bytes) : Bytes :=
  str "    <form action='' method='get'>\n    <button name='More' type='submit' value='" ++
    (next ++ str "' style='border: none; background: none; padding: 0;'>")

set_option maxRecDepth 2000 in
theorem toMore_reads {next : Bytes} (h : ∀ c ∈ next, c ≠ quote) : Reads .data (toMore next) [formTag, moreTag next] .data := by
  have h₁ : Reads .data (str "    <form action='' method='get'>\n    <button name='More' type='submit' value='") [formTag]
      (.value ⟨false, str "button", [(str "name", str "More"), (str "type", str "submit")]⟩ (str "value") quote []) :=
    reads_str _ ⟨by decide +kernel, by decide +kernel⟩
  have h₂ : ∀ v, Reads
      (.value ⟨false, str "button", [(str "name", str "More"), (str "type", str "submit")]⟩ (str "value") quote v)
      (str "' style='border: none; background: none; padding: 0;'>") [moreTag v] .data :=
    fun v => reads_str _ ⟨rfl, rfl⟩
  exact h₁.append ((reads_value h _ _ _).append (h₂ _))

set_option maxRecDepth 2000 in
theorem moreForm_eq (next : Bytes) :
    moreForm next = toMore next ++ str "\n        <h2>More</h2>\n    </button>\n" := by
  have hsplit : str "' style='border: none; background: none; padding: 0;'>\n        <h2>More</h2>\n    </button>\n" =
      str "' style='border: none; background: none; padding: 0;'>" ++ str "\n        <h2>More</h2>\n    </button>\n" := by
    refine (str_ofList _).trans (Eq.trans ?_ (congrArg₂ (· ++ ·) (str_ofList _).symm (str_ofList _).symm))
    decide +kernel
  rw [moreForm, hsplit, toMore]
  simp only [List.append_assoc]

theorem moreForm_offers {next : Bytes} (h : ∀ c ∈ next, c ≠ quote) : Offers (moreForm next) [] [next] [] := by
  have h₃ : Reads .data (str "\n        <h2>More</h2>\n    </button>\n")
      [⟨false, str "h2", []⟩, ⟨true, str "h2", []⟩, ⟨true, str "button", []⟩] .data :=
    reads_str _ ⟨by decide +kernel, by decide +kernel⟩
  have hmore : (moreTag next).more = some next := by
    have hname : (moreTag next).attr (str "name") = some (str "More") := rfl
    have hvalue : (moreTag next).attr (str "value") = some next := rfl
    rw [Tag.more, hname, hvalue]
    rfl
  have hall := ((toMore_reads h).append h₃).offers
  have hb : [formTag, moreTag next, ⟨false, str "h2", []⟩, ⟨true, str "h2", []⟩, ⟨true, str "button", []⟩].filterMap
      Tag.more = [next] := by
    rw [List.filterMap_cons, List.filterMap_cons, hmore]
    rfl
  rw [moreForm_eq]
  exact ⟨hall.closed, hall.links, hall.buttons.trans hb, hall.media⟩

theorem indexPage_offers {l : Listing} (h : ∀ r ∈ l.rows, r.Plain) {n : Nat} (hn : l.next = decimal n) :
    Offers (indexPage l) (navigation ++ l.rows.map playerUrl) [decimal n] (l.rows.map imageUrl) := by
  have hend : Offers (str "\n\n") [] [] [] := offers_str _ (by decide +kernel)
  have hform : Offers (moreForm l.next) [] [decimal n] [] := by
    rw [hn]
    exact moreForm_offers (decimal_ne rfl n)
  have hall := indexHeader_offers.append ((listing_offers h).append (hform.append (footer_offers.append hend)))
  simp only [List.append_nil, List.nil_append] at hall
  exact hall

/-! ## The player page -/

/-- The texts of a branch stay in their places. -/
structure Branch.Proper (b : Branch) (ext : Bytes) : Prop where
  indent : ∀ c ∈ b.indent, c ≠ lt
  base : ∀ c ∈ b.base, c ≠ dquote
  type : ∀ c ∈ b.type, c ≠ quote
  ext : ∀ c ∈ ext, c ≠ dquote

theorem branch_proper {ext : Bytes} {b : Branch} (hb : branch ext = some b) : b.Proper ext := by
  have hall : ∀ ext ∈ supported, ∀ b ∈ branch ext, (∀ c ∈ b.indent, c ≠ lt) ∧ (∀ c ∈ b.base, c ≠ dquote) ∧
      (∀ c ∈ b.type, c ≠ quote) ∧ ∀ c ∈ ext, c ≠ dquote := by decide +kernel
  obtain ⟨hindent, hbase, htype, hext⟩ := hall ext (branch_isSome.mp (by rw [hb]; rfl)) b hb
  exact ⟨hindent, hbase, htype, hext⟩

section
variable (uuid : Bytes)

def videoAttrs : List (Bytes × Bytes) :=
  [(str "id", uuid), (str "class", str "video-js vjs-default-skin"), (str "controls", []), (str "preload", str "auto"),
    (str "width", str "860"), (str "height", str "420")]

def videoOpen : Tag := ⟨false, str "video", videoAttrs uuid ++ [(str "data-setup", str "\x7b\"Dispay_option\":true\x7d")]⟩

theorem videoTag_reads (h : ∀ c ∈ uuid, c ≠ dquote) : Reads .data (videoTag uuid) [videoOpen uuid] .data := by
  let classed : List (Bytes × Bytes) := [(str "id", uuid), (str "class", str "video-js vjs-default-skin")]
  have h₁ : Reads .data (str "         <video id=\"") [] (.value ⟨false, str "video", []⟩ (str "id") dquote []) :=
    reads_str _ ⟨by decide +kernel, by decide +kernel⟩
  have h₂ : Reads (.value ⟨false, str "video", []⟩ (str "id") dquote uuid) (str "\" class=\"video-js vjs-default-skin\"")
      [] (.beforeAttr ⟨false, str "video", classed⟩) := reads_str _ ⟨rfl, rfl⟩
  have h₃ : Reads (.beforeAttr ⟨false, str "video", classed⟩)
      (str " controls preload=\"auto\" width=\"860\" height=\"420\"")
      [] (.beforeAttr ⟨false, str "video", videoAttrs uuid⟩) := reads_str _ ⟨rfl, rfl⟩
  have h₄ : Reads (.beforeAttr ⟨false, str "video", videoAttrs uuid⟩) (str "data-setup='\x7b") []
      (.value ⟨false, str "video", videoAttrs uuid⟩ (str "data-setup") quote (str "\x7b")) := reads_str _ ⟨rfl, rfl⟩
  have h₅ : Reads (.value ⟨false, str "video", videoAttrs uuid⟩ (str "data-setup") quote (str "\x7b"))
      (str "\"Dispay_option\":true\x7d") []
      (.value ⟨false, str "video", videoAttrs uuid⟩ (str "data-setup") quote (str "\x7b\"Dispay_option\":true\x7d")) :=
    reads_value (by decide +kernel) _ _ _
  have h₆ : Reads
      (.value ⟨false, str "video", videoAttrs uuid⟩ (str "data-setup") quote (str "\x7b\"Dispay_option\":true\x7d"))
      (str "'>") [videoOpen uuid] .data := reads_str _ ⟨rfl, rfl⟩
  have hsplit : str "\" class=\"video-js vjs-default-skin\" controls preload=\"auto\" width=\"860\" height=\"420\"" =
      str "\" class=\"video-js vjs-default-skin\"" ++ str " controls preload=\"auto\" width=\"860\" height=\"420\"" := by
    refine (str_ofList _).trans (Eq.trans ?_ (congrArg₂ (· ++ ·) (str_ofList _).symm (str_ofList _).symm))
    decide +kernel
  rw [videoTag, hsplit]
  exact ((((h₁.append (reads_value h _ _ _)).append (h₂.append h₃)).append h₄).append h₅).append h₆

end

def sourceOf (r : Row) (b : Branch) : Tag :=
  ⟨false, str "source", [(str "src", b.base ++ mediaName r), (str "type", b.type)]⟩

theorem mediaPart_reads {r : Row} {b : Branch} (hu : ∀ c ∈ r.uuid, c ≠ dquote) (hb : branch r.ext = some b) :
    Reads .data (mediaPart r b) [videoOpen r.uuid, sourceOf r b, ⟨true, str "video", []⟩, ⟨false, str "br", []⟩,
      ⟨false, str "br", []⟩, ⟨true, str "div", []⟩] .data := by
  obtain ⟨hindent, hbase, htype, hext⟩ := branch_proper hb
  have hsrc : ∀ c ∈ b.base ++ mediaName r, c ≠ dquote :=
    not_dquote_append hbase (not_dquote_append (not_dquote_append hu (by simp [str, dquote])) hext)
  have h₁ : Reads .data (str "\n") [] .data := reads_str _ ⟨by decide +kernel, by decide +kernel⟩
  have h₂ : Reads .data (str "<source src=\"") [] (.value ⟨false, str "source", []⟩ (str "src") dquote []) :=
    reads_str _ ⟨by decide +kernel, by decide +kernel⟩
  have h₃ : ∀ u, Reads (.value ⟨false, str "source", []⟩ (str "src") dquote u) (str "\"") []
      (.beforeAttr ⟨false, str "source", [(str "src", u)]⟩) := fun u => reads_str _ ⟨rfl, rfl⟩
  have h₄ : ∀ u, Reads (.beforeAttr ⟨false, str "source", [(str "src", u)]⟩) (str " type='") []
      (.value ⟨false, str "source", [(str "src", u)]⟩ (str "type") quote []) := fun u => reads_str _ ⟨rfl, rfl⟩
  have h₅ : ∀ u v, Reads (.value ⟨false, str "source", [(str "src", u)]⟩ (str "type") quote v) (str "'>")
      [⟨false, str "source", [(str "src", u), (str "type", v)]⟩] .data := fun u v => reads_str _ ⟨rfl, rfl⟩
  have h₆ : Reads .data (str "\"") [] .data := reads_str _ ⟨by decide +kernel, by decide +kernel⟩
  have h₇ : Reads .data (str "        </video><br><br>")
      [⟨true, str "video", []⟩, ⟨false, str "br", []⟩, ⟨false, str "br", []⟩] .data :=
    reads_str _ ⟨by decide +kernel, by decide +kernel⟩
  have h₈ : Reads .data (str "\n</div>") [⟨true, str "div", []⟩] .data :=
    reads_str _ ⟨by decide +kernel, by decide +kernel⟩
  have hmime := ((((reads_text hindent).append h₂).append (reads_value hsrc _ _ _)).append (h₃ _)).append
    ((h₄ _).append (reads_value htype _ _ _))
  have hall := ((((((((h₁.append (videoTag_reads r.uuid hu)).append h₁).append hmime).append (h₅ _ _)).append h₆).append
    h₁).append h₇).append h₈).append h₁
  have hsplit : mime r b = b.indent ++ str "<source src=\"" ++ (b.base ++ mediaName r) ++ str "\"" ++
      (str " type='" ++ b.type) := by rw [mime, List.append_assoc _ (str " type='")]
  rw [mediaPart, hsplit]
  exact hall

theorem mediaPart_offers {r : Row} {b : Branch} (hu : ∀ c ∈ r.uuid, c ≠ dquote) (hb : branch r.ext = some b) :
    Offers (mediaPart r b) [] [] [b.base ++ mediaName r] := (mediaPart_reads hu hb).offers

theorem player_html {r : Row} {b : Branch} {p : Player} (hb : branch r.ext = some b) (hp : buildPlayer r = some p) :
    p.html = heading r.title ++ (attributeTable (timeText r.duration) r.name (decimal r.bitrate) ++
      (mediaPart r b ++ descript r.description)) := by
  unfold buildPlayer at hp
  rw [hb] at hp
  rw [← Option.some.inj hp]
  simp only [mediaPart, List.append_assoc]

theorem playerPage_offers {r : Row} {p : Player} (h : r.Plain) (hp : buildPlayer r = some p) :
    Offers (playerPage p) navigation [] [p.source] := by
  obtain ⟨b, hb, hsource⟩ := buildPlayer_some hp
  have blank : ∀ {x : Bytes}, Closed x → ∀ y, htmlTags x = htmlTags y → links y = [] ∧ buttons y = [] ∧ media y = [] →
      Offers x [] [] [] := fun hc y ht hy => .of_tags hc ht hy.1 hy.2.1 hy.2.2
  obtain ⟨c₁, t₁⟩ := heading_tags h.text.title
  obtain ⟨c₂, t₂⟩ := attributeTable_tags (timeText_ne_lt r.duration) h.text.name (decimal_ne rfl r.bitrate)
  obtain ⟨c₃, t₃⟩ := descript_tags h.text.description
  have h₁ := blank c₁ _ t₁ ⟨by decide +kernel, by decide +kernel, by decide +kernel⟩
  have h₂ := blank c₂ _ t₂ ⟨by decide +kernel, by decide +kernel, by decide +kernel⟩
  have h₃ := blank c₃ _ t₃ ⟨by decide +kernel, by decide +kernel, by decide +kernel⟩
  have hend : Offers (str "\n\n") [] [] [] := offers_str _ (by decide +kernel)
  rw [playerPage, player_html hb hp, hsource]
  exact header_offers.append ((h₁.append (h₂.append ((mediaPart_offers h.uuid hb).append h₃))).append
    (footer_offers.append hend))

end Vortex
