import Vortex.Entities
import Vortex.Links

/-!
# The key on the live page

`live.php` puts the key of the POST between two tags and into the value of an
attribute, without escaping it. A key whose bytes stand for themselves stays
there exactly when it opens no tag and has no double quote.
-/

namespace Vortex

open Ascii

/-! ## Bytes that stand for themselves -/

/-- A character reference may begin there. -/
def opensReference : Bytes → Bool
  | c :: d :: _ => c == amp && (isLetter d || isDigit d || d == hash)
  | _ => false

/-- What a browser makes of the bytes of a text, or of a value: its character
references, with the bytes each of them takes, and what it puts for a NUL. -/
structure Decoding where
  reference : Bytes → Option (Bytes × Nat)
  opens : ∀ {x : Bytes}, (reference x).isSome → opensReference x = true
  nul : Bytes

/-- The first `n` bytes are decoded already. The end of a line is always one
newline. -/
def Decoding.decodeFrom (d : Decoding) : Nat → Bytes → Bytes
  | _, [] => []
  | n + 1, _ :: x => d.decodeFrom n x
  | 0, c :: x =>
    match d.reference (c :: x) with
    | some (t, n) => t ++ d.decodeFrom (n - 1) x
    | none =>
      if c = 13 then newline :: d.decodeFrom (if x.head? = some newline then 1 else 0) x
      else if c = 0 then d.nul ++ d.decodeFrom 0 x
      else c :: d.decodeFrom 0 x

def Decoding.decode (d : Decoding) (x : Bytes) : Bytes := d.decodeFrom 0 x

/-- No reference, no carriage return and no NUL. -/
def literalText : Bytes → Bool
  | [] => true
  | c :: x => !opensReference (c :: x) && c != 13 && c != 0 && literalText x

theorem Decoding.decode_literal (d : Decoding) : ∀ {x : Bytes}, literalText x = true → d.decode x = x
  | [], _ => rfl
  | c :: x, h => by
    simp only [literalText, Bool.and_eq_true, Bool.not_eq_true', bne_iff_ne] at h
    obtain ⟨⟨⟨hopen, hcr⟩, hnul⟩, hx⟩ := h
    have hnone : d.reference (c :: x) = none := by
      by_contra hsome
      have := d.opens (Option.isSome_iff_ne_none.mpr hsome)
      rw [hopen] at this
      cases this
    have ih : d.decodeFrom 0 x = x := d.decode_literal hx
    rw [Decoding.decode, Decoding.decodeFrom, hnone]
    simp only [hcr, hnul, if_false, ih]

theorem literalText_append {x y : Bytes} (hx : ∀ c ∈ x, c ≠ amp ∧ c ≠ 13 ∧ c ≠ 0) (hy : literalText y = true) :
    literalText (x ++ y) = true := by
  induction x with
  | nil => exact hy
  | cons c x ih =>
    obtain ⟨hamp, hcr, hnul⟩ := hx c (List.mem_cons_self ..)
    have hopen : opensReference (c :: (x ++ y)) = false := by
      cases x ++ y with
      | nil => rfl
      | cons d z => simp [opensReference, hamp]
    rw [List.cons_append, literalText, hopen, ih fun d hd => hx d (List.mem_cons_of_mem _ hd)]
    simp [hcr, hnul]

/-- The four references of `htmlspecialchars` alone. -/
def formDecoding : Decoding where
  reference x := (entityAt x).map fun e => ([e.1], e.2)
  opens := by
    intro x h
    rw [Option.isSome_map, entityAt, Option.isSome_map] at h
    obtain ⟨e, he⟩ := Option.isSome_iff_exists.mp h
    have hpre : e.1.isPrefixOf x = true := by simpa using List.find?_some he
    obtain ⟨t, rfl⟩ := List.isPrefixOf_iff_prefix.mp hpre
    have hmem := List.mem_of_find?_eq_some he
    simp only [entities, List.mem_cons, List.not_mem_nil, or_false] at hmem
    rcases hmem with rfl | rfl | rfl | rfl <;> rfl
  nul := []

/-! ## The two places -/

namespace Live

def base : Bytes := str "rtmp://www.videovortex.stream:1935/live/"

/-- The key stays in its two places. -/
structure Safe (livekey : Bytes) : Prop where
  plain : plainText livekey = true
  quote : dquote ∉ livekey

def sourceTag (livekey : Bytes) : Tag :=
  ⟨false, str "source", [(str "src", base ++ livekey), (str "type", str "rtmp/mp4")]⟩

/-- The heading shows the key. -/
def headingTokens (livekey : Bytes) : List HtmlToken :=
  htmlTokens (str "<div class=\"container\">" ++ str "\n \t<h2>") ++ livekey.map .char ++ htmlTokens (str "</h2>\n")

/-- The stream is named by the key. -/
def sourceTokens (livekey : Bytes) : List HtmlToken :=
  htmlTokens (str "\t\t\t") ++ .tag (sourceTag livekey) :: htmlTokens (str "\"" ++ str ">\n \t\t    \n</video><br><br>")

theorem p1_iff (livekey : Bytes) : htmlTokens (p1 livekey) = headingTokens livekey ↔ plainText livekey = true := by
  have hclosed : Closed (str "<div class=\"container\">" ++ str "\n \t<h2>") :=
    (closed_str _ (by decide +kernel)).append (closed_str _ (by decide +kernel))
  have hend : str "</h2>\n" = lt :: str "/h2" ++ gt :: str "\n" := by simp [str]
  have hp1 : p1 livekey = (str "<div class=\"container\">" ++ str "\n \t<h2>") ++ (livekey ++ str "</h2>\n") := by
    simp only [p1, List.append_assoc]
  rw [hp1, htmlTokens_append hclosed, headingTokens, List.append_assoc, List.append_cancel_left_eq, hend]
  exact text_iff (by decide +kernel) (by decide +kernel) livekey

def sourceOpen : Bytes := str "\t\t\t<source src=\"rtmp://www.videovortex.stream:1935/live/"

def sourceClose : Bytes := str " type=" ++ str "'rtmp/mp4'>" ++ str "\"" ++ str ">\n \t\t    \n</video><br><br>"

def source : Tag := ⟨false, str "source", []⟩

theorem p3_eq (livekey : Bytes) : p3 livekey = sourceOpen ++ (livekey ++ dquote :: sourceClose) := by
  have hq : str "\" type=" = dquote :: str " type=" := by simp [str]
  simp only [p3, sourceOpen, sourceClose, List.append_assoc, hq, List.cons_append]

theorem after_sourceOpen : after .data sourceOpen = .value source (str "src") dquote base := by
  decide +kernel

theorem tokens_sourceOpen : tokensFrom .data sourceOpen = htmlTokens (str "\t\t\t") := by
  decide +kernel

/-- The tag is finished behind the value, whatever the value is. -/
theorem tokens_sourceClose (v : Bytes) : tokensFrom (.value source (str "src") dquote v) (dquote :: sourceClose) =
    .tag ⟨false, str "source", [(str "src", v), (str "type", str "rtmp/mp4")]⟩ ::
      htmlTokens (str "\"" ++ str ">\n \t\t    \n</video><br><br>") := by
  have hclose : sourceClose = str " type='rtmp/mp4'>" ++ (str "\"" ++ str ">\n \t\t    \n</video><br><br>") := by
    decide +kernel
  have htag : ∀ s y, s = HtmlState.beforeAttr ⟨false, str "source", [(str "src", v)]⟩ →
      tokensFrom s (str " type='rtmp/mp4'>" ++ y) =
        .tag ⟨false, str "source", [(str "src", v), (str "type", str "rtmp/mp4")]⟩ :: htmlTokens y := by
    rintro s y rfl
    have hread := str_ofList [' ', 't', 'y', 'p', 'e', '=', '\'', 'r', 't', 'm', 'p', '/', 'm', 'p', '4', '\'', '>']
    rw [tokensFrom_append]
    refine congrArg₂ (· ++ ·) (tokens_str _ rfl) (congrArg (tokensFrom · y) ?_)
    exact (congrArg (after _) hread).trans rfl
  rw [tokens_close, hclose]
  exact htag _ _ rfl

theorem p3_iff (livekey : Bytes) : htmlTokens (p3 livekey) = sourceTokens livekey ↔ dquote ∉ livekey := by
  rw [p3_eq, htmlTokens, tokensFrom_append, tokens_sourceOpen, after_sourceOpen, sourceTokens,
    List.append_cancel_left_eq, sourceTag, ← tokens_sourceClose]
  exact value_iff base (by simp [source]) (fun v => by rw [tokens_sourceClose]; simp) livekey

/-! ## The page -/

theorem p1_closed {livekey : Bytes} (h : plainText livekey = true) : Closed (p1 livekey) := by
  have hopen : Closed (str "<div class=\"container\">" ++ str "\n \t<h2>") :=
    (closed_str _ (by decide +kernel)).append (closed_str _ (by decide +kernel))
  have hend : str "</h2>\n" = lt :: str "/h2>\n" := by decide +kernel
  have hp1 : p1 livekey = (str "<div class=\"container\">" ++ str "\n \t<h2>") ++ (livekey ++ str "</h2>\n") := by
    simp only [p1, List.append_assoc]
  have hclose : Closed (str "</h2>\n") := closed_str _ (by decide +kernel)
  rw [hp1]
  apply hopen.append
  rw [Closed, hend, after_plain h, ← hend]
  exact hclose

theorem p2_closed : Closed p2 := by decide +kernel

theorem p3_closed {livekey : Bytes} (h : dquote ∉ livekey) : Closed (p3 livekey) := by
  have hopen : (after .data sourceOpen).erase = inValue := by
    rw [after_sourceOpen]
    rfl
  rw [p3_eq]
  apply data_of_erase
  rw [value_slot hopen (fun c hc he => h (he ▸ hc))]
  decide +kernel

end Live

/-- A literal key is shown and named as it was typed, whatever references the
browser decodes in texts and in values, exactly when it is safe; then the rest
of the page is read as it is without it. -/
theorem live_key_stays (text value : Decoding) {livekey : Bytes} (h : literalText livekey = true) :
    text.decode livekey = livekey ∧ value.decode (Live.base ++ livekey) = Live.base ++ livekey ∧
    (htmlTokens (Live.p1 livekey) = Live.headingTokens livekey ∧ htmlTokens (Live.p3 livekey) = Live.sourceTokens livekey ↔
      Live.Safe livekey) ∧
    (Live.Safe livekey → htmlTokens (livePage (some livekey)) =
      htmlTokens header ++ (Live.headingTokens livekey ++ (htmlTokens Live.p2 ++
        (Live.sourceTokens livekey ++ htmlTokens footer)))) := by
  have hbase : literalText (Live.base ++ livekey) = true := literalText_append (by decide +kernel) h
  refine ⟨text.decode_literal h, value.decode_literal hbase, ?_, ?_⟩
  · rw [Live.p1_iff, Live.p3_iff]
    exact ⟨fun h => ⟨h.1, h.2⟩, fun h => ⟨h.plain, h.quote⟩⟩
  rintro ⟨hplain, hquote⟩
  simp only [livePage, Live.content, List.append_assoc]
  rw [htmlTokens_append header_offers.closed, htmlTokens_append (Live.p1_closed hplain), htmlTokens_append Live.p2_closed,
    htmlTokens_append (Live.p3_closed hquote), (Live.p1_iff livekey).mpr hplain, (Live.p3_iff livekey).mpr hquote]

/-- `R & <3`: the ampersand and the angle bracket are text. -/
def sampleKey : Bytes := [82, 32, amp, 32, lt, 51]

theorem sample_live_key_stays : htmlTokens (livePage (some sampleKey)) =
    htmlTokens header ++ (Live.headingTokens sampleKey ++ (htmlTokens Live.p2 ++
      (Live.sourceTokens sampleKey ++ htmlTokens footer))) :=
  (@live_key_stays formDecoding formDecoding sampleKey (by decide +kernel)).2.2.2
    ⟨by decide +kernel, by decide +kernel⟩

end Vortex
