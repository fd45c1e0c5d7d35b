import Vortex.SqlShape
import Vortex.Windows

/-!
# Paging through the listing

A visitor opens `index.php` and then presses the More button again and again,
while uploads append rows. The offset the button carries is always a decimal
number not beyond the end of the table, so the pages are windows of fifteen
rows on a growing list.
-/

namespace Vortex

open Ascii

/-! ## The query at a decimal offset -/

theorem intText_decimal {n : Nat} (hn : n < 2 ^ 64) : IntText n (decimal n) :=
  ⟨decimal_ne_nil n, List.all_eq_true.mpr (decimal_digits n), digitsVal_decimal n, hn⟩

theorem readSelect_decimal {n : Nat} (hn : n < 2 ^ 64) : readSelect (selectText (decimal n)) = some (n, 15) := by
  have hread : sqlLexer.read .gap (decimal n ++ str ",15") = some [.int n, .punct comma, .int 15] := by
    rw [read_twoInts_iff]
    exact ⟨[], decimal n, [], [], str "15", [], rfl, .nil, intText_decimal hn, .nil, .nil, by decide +kernel,
      [], [], rfl, .nil, .inl rfl⟩
  have hlex : lexSql (selectText (decimal n)) = some (selectHead ++ [.int n, .punct comma, .int 15]) := by
    rw [lexSql_selectText, hread]
    rfl
  have hstrip : stripHead selectHead (selectHead ++ [.int n, .punct comma, .int 15]) =
      some [.int n, .punct comma, .int 15] := by
    rw [stripHead, if_pos (by simp)]
    simp
  simp [readSelect, hlex, hstrip]

theorem phpInt_decimal (n : Nat) : phpInt (decimal n) = n := by
  have hd := decimal_digits n
  have hdrop : (decimal n).dropWhile (fun c => c == 32 || (9 ≤ c && c ≤ 13)) = decimal n := by
    rw [List.dropWhile_eq_self_iff]
    intro hl
    have := hd _ (List.getElem_mem hl)
    simp only [isDigit, Bool.and_eq_true, decide_eq_true_eq, Bool.or_eq_true, beq_iff_eq] at *
    grind
  rw [phpInt, hdrop, List.takeWhile_eq_self_iff.mpr hd, digitsVal_decimal]

theorem decimal_inj {m n : Nat} (h : decimal m = decimal n) : m = n := by
  rw [← digitsVal_decimal m, h, digitsVal_decimal]

theorem str_zero : str "0" = decimal 0 := by decide +kernel

/-- What the page shows at a decimal offset, and what its button carries. -/
theorem index_decimal {t : Table} {more : Option Bytes} {n : Nat} (hm : startingRow more = decimal n)
    (hn : n < 2 ^ 64) :
    index t more = {
      rows := (t.rows.drop n).take 15
      next := if ((t.rows.drop n).take 15).length < 15 then decimal 0 else decimal (n + 15) } := by
  simp [index, hm, Table.execSelect, readSelect_decimal hn, phpInt_decimal, str_zero]

/-! ## A visit -/

-- unfolding the text of the statement never helps from here on
attribute [local irreducible] insertText

inductive Visit
  -- the visitor opens the page, or presses its More button
  | press
  -- an upload runs its INSERT
  | upload (q : Request) (a : Attributes)

structure PageView where
  table : Table
  more : Option Bytes

def PageView.listing (p : PageView) : Listing := index p.table p.more

/-- The pages of a visit, in order; each press sends what the last button carried. -/
def browse : Table → Option Bytes → List Visit → List PageView
  | _, _, [] => []
  | t, more, .press :: es => ⟨t, more⟩ :: browse t (some (index t more).next) es
  | t, more, .upload q a :: es => browse ((t.execInsert (insertText (q.values a))).getD t) more es

/-- From a page with offset 0 to the first page whose button carries 0 again. -/
structure IsRound (first : PageView) (pages : List PageView) (last : PageView) : Prop where
  opens : startingRow first.more = str "0"
  ends : (first :: pages).getLast? = some last
  closes : last.listing.next = str "0"
  runs_on : ∀ p ∈ (first :: pages).dropLast, p.listing.next ≠ str "0"

/-! ## The offset never leaves the table -/

/-- The offset is a decimal number not beyond the end of the table. -/
def OnTable (t : Table) (more : Option Bytes) : Prop := ∃ n, startingRow more = decimal n ∧ n ≤ t.rows.length

theorem Table.execInsert_prefix (t : Table) (text : Bytes) : t.rows <+: ((t.execInsert text).getD t).rows := by
  cases h : t.execInsert text with
  | none => exact List.prefix_refl _
  | some t' =>
    obtain ⟨vs, -, hv⟩ := Option.bind_eq_some_iff.mp h
    obtain ⟨new, hr, -⟩ := Table.insertAll_rows hv
    exact ⟨new, hr.symm⟩

theorem OnTable.grow {t t' : Table} {more : Option Bytes} (h : OnTable t more) (ht : t.rows <+: t'.rows) :
    OnTable t' more := by
  obtain ⟨n, hm, hn⟩ := h
  exact ⟨n, hm, Nat.le_trans hn ht.length_le⟩

theorem offset_lt {t : Table} {n : Nat} (h : n ≤ t.rows.length) : n < 2 ^ 64 :=
  Nat.lt_of_le_of_lt (Nat.le_trans h t.length_le) (by decide)

theorem OnTable.next {t : Table} {more : Option Bytes} (h : OnTable t more) : OnTable t (some (index t more).next) := by
  obtain ⟨n, hm, hn⟩ := h
  rw [index_decimal hm (offset_lt hn)]
  by_cases hl : ((t.rows.drop n).take 15).length < 15
  · exact ⟨0, by rw [startingRow, if_pos hl], Nat.zero_le _⟩
  · refine ⟨n + 15, by rw [startingRow, if_neg hl], ?_⟩
    rw [List.length_take, List.length_drop] at hl
    omega

theorem onTable_none (t : Table) : OnTable t none := ⟨0, str_zero, Nat.zero_le _⟩

/-- One press after another: rows were only appended, and the second request
carries the button of the first page. -/
def Pressed (p p' : PageView) : Prop := p.table.rows <+: p'.table.rows ∧ p'.more = some p.listing.next

theorem browse_onTable : ∀ (es : List Visit) (t : Table) (more : Option Bytes), OnTable t more →
    ∀ p ∈ browse t more es, OnTable p.table p.more
  | [], _, _, _ => by simp [browse]
  | .press :: es, t, more, h => by
    rw [browse, List.forall_mem_cons]
    exact ⟨h, browse_onTable es t _ h.next⟩
  | .upload q a :: es, t, more, h => by
    rw [browse]
    exact browse_onTable es _ more (h.grow (t.execInsert_prefix _))

theorem browse_head : ∀ (es : List Visit) (t : Table) (more : Option Bytes),
    ∀ p ∈ (browse t more es).head?, t.rows <+: p.table.rows ∧ p.more = more
  | [], _, _ => by simp [browse]
  | .press :: es, t, more => by
    intro p hp
    rw [browse, List.head?_cons, Option.mem_some_iff] at hp
    rw [← hp]
    exact ⟨List.prefix_refl _, rfl⟩
  | .upload q a :: es, t, more => by
    intro p hp
    rw [browse] at hp
    obtain ⟨ht, hm⟩ := browse_head es _ more p hp
    exact ⟨(t.execInsert_prefix _).trans ht, hm⟩

theorem browse_pressed : ∀ (es : List Visit) (t : Table) (more : Option Bytes), (browse t more es).IsChain Pressed
  | [], _, _ => List.isChain_nil
  | .press :: es, t, more => by
    rw [browse, List.isChain_cons]
    exact ⟨browse_head es t _, browse_pressed es t _⟩
  | .upload q a :: es, t, more => by
    rw [browse]
    exact browse_pressed es _ more

/-! ## Pages are windows -/

def PageView.window (p : PageView) : Windows.View Row where
  list := p.table.rows
  start := phpInt (startingRow p.more)

variable {p p' : PageView}

theorem PageView.listing_eq (h : OnTable p.table p.more) :
    p.listing.rows = Windows.page 15 p.window ∧
      p.listing.next =
        if p.table.rows.length < p.window.start + 15 then decimal 0 else decimal (p.window.start + 15) := by
  obtain ⟨n, hm, hn⟩ := h
  have hs : p.window.start = n := by rw [PageView.window, hm, phpInt_decimal]
  have hl : ((p.table.rows.drop n).take 15).length < 15 ↔ p.table.rows.length < n + 15 := by
    rw [List.length_take, List.length_drop]; omega
  rw [PageView.listing, index_decimal hm (offset_lt hn), hs]
  simp only [hl]
  exact ⟨by rw [Windows.page, hs]; rfl, trivial⟩

theorem window_next (h : OnTable p.table p.more) (hp : Pressed p p') (hn : p.listing.next ≠ str "0") :
    Windows.Next 15 p.window p'.window := by
  have he := (PageView.listing_eq h).2
  have hf : ¬ p.table.rows.length < p.window.start + 15 := by
    intro hlt
    rw [if_pos hlt, ← str_zero] at he
    exact hn he
  rw [if_neg hf] at he
  refine ⟨hp.1, ?_, Nat.le_of_not_lt hf⟩
  rw [PageView.window, hp.2, he]
  exact phpInt_decimal _

theorem window_short (h : OnTable p.table p.more) (hn : p.listing.next = str "0") :
    p.table.rows.length < p.window.start + 15 := by
  by_contra hf
  rw [(PageView.listing_eq h).2, if_neg hf, str_zero] at hn
  have := decimal_inj hn
  omega

theorem round_windows : ∀ {pages : List PageView} {first : PageView}, (first :: pages).IsChain Pressed →
    (∀ p ∈ first :: pages, OnTable p.table p.more) →
    (∀ p ∈ (first :: pages).dropLast, p.listing.next ≠ str "0") →
    (first.window :: pages.map PageView.window).IsChain (Windows.Next 15)
  | [], _, _, _, _ => List.isChain_singleton _
  | p :: pages, first, hc, ht, hn => by
    rw [List.isChain_cons_cons] at hc
    rw [List.dropLast_cons_cons] at hn
    rw [List.map_cons, List.isChain_cons_cons]
    refine ⟨window_next (ht _ (List.mem_cons_self ..)) hc.1 (hn _ (List.mem_cons_self ..)), ?_⟩
    exact round_windows hc.2 (fun q hq => ht q (List.mem_cons_of_mem _ hq)) fun q hq => hn q (List.mem_cons_of_mem _ hq)

/-- A visitor who keeps pressing on a table that nobody changes gets to a button
with 0 after one page more than there are full ones ahead. -/
theorem pressing_ends (t : Table) : ∀ (k : Nat) (more : Option Bytes) (n : Nat), startingRow more = decimal n →
    n ≤ t.rows.length → (t.rows.length - n) / 15 = k →
    ∃ pages last, browse t more (List.replicate (k + 1) .press) = ⟨t, more⟩ :: pages ∧
      (⟨t, more⟩ :: pages).getLast? = some last ∧ last.listing.next = str "0" ∧
      ∀ p ∈ ((⟨t, more⟩ : PageView) :: pages).dropLast, p.listing.next ≠ str "0"
  | 0, more, n, hm, hn, hk => by
    have hshort : ((t.rows.drop n).take 15).length < 15 := by
      rw [List.length_take, List.length_drop]
      omega
    refine ⟨[], ⟨t, more⟩, rfl, rfl, ?_, by simp⟩
    rw [PageView.listing, index_decimal hm (offset_lt hn), str_zero]
    exact if_pos hshort
  | k + 1, more, n, hm, hn, hk => by
    have hfull : ¬ ((t.rows.drop n).take 15).length < 15 := by
      rw [List.length_take, List.length_drop]
      omega
    have hnext : (index t more).next = decimal (n + 15) := by
      rw [index_decimal hm (offset_lt hn)]
      exact if_neg hfull
    obtain ⟨pages, last, hb, hl, hz, hr⟩ :=
      pressing_ends t k (some (index t more).next) (n + 15) hnext (by omega) (by omega)
    refine ⟨_, last, by rw [List.replicate_succ, browse, hb], by rw [List.getLast?_cons_cons, hl], hz, ?_⟩
    rw [List.dropLast_cons_cons, List.forall_mem_cons]
    refine ⟨fun h => ?_, hr⟩
    rw [PageView.listing, hnext, str_zero] at h
    have := decimal_inj h
    omega

theorem round_ends {first : PageView} (h : startingRow first.more = str "0") :
    ∃ pages last, browse first.table first.more (List.replicate (first.table.rows.length / 15 + 1) .press) =
      first :: pages ∧ IsRound first pages last := by
  rw [str_zero] at h
  obtain ⟨pages, last, hb, hl, hz, hr⟩ := pressing_ends first.table _ first.more 0 h (Nat.zero_le _) rfl
  exact ⟨pages, last, hb, by rw [h, str_zero], hl, hz, hr⟩

theorem round_shows {t : Table} {es : List Visit} {before after pages : List PageView} {first last : PageView}
    (hb : browse t none es = before ++ (first :: pages) ++ after) (hr : IsRound first pages last) :
    (first :: pages).flatMap (fun p => p.listing.rows) = last.table.rows ∧
      (first :: pages).length = last.table.rows.length / 15 + 1 := by
  have hmem : ∀ p ∈ first :: pages, OnTable p.table p.more := by
    intro p hp
    apply browse_onTable es t none (onTable_none t)
    rw [hb]
    simp only [List.mem_append]
    exact Or.inl (Or.inr hp)
  have hpressed : (first :: pages).IsChain Pressed := by
    have := browse_pressed es t none
    rw [hb, List.append_assoc] at this
    exact this.right_of_append.left_of_append
  have hlast : last ∈ first :: pages := List.mem_of_getLast? hr.ends
  have hchain := round_windows hpressed hmem hr.runs_on
  have hw : (first.window :: pages.map PageView.window).getLast? = some last.window := by
    rw [← List.map_cons, List.getLast?_map, hr.ends]
    rfl
  have h₀ : first.window.start = 0 := by
    rw [PageView.window, hr.opens, str_zero, phpInt_decimal]
  have hs := window_short (hmem _ hlast) hr.closes
  refine ⟨?_, ?_⟩
  · have hp := Windows.pages_eq_list hchain hw h₀ hs
    rw [← List.map_cons, List.flatMap_map] at hp
    rw [← show _ = last.table.rows from hp]
    exact List.flatMap_congr fun p hp => (PageView.listing_eq (hmem p hp)).1
  · obtain ⟨n, hm, hn⟩ := hmem _ hlast
    have := Windows.count_eq hchain hw h₀ hs (by rw [PageView.window, hm, phpInt_decimal]; exact hn)
    rw [List.length_cons, List.length_map] at this
    exact this

/-- Every round of every visit shows the table as it stands at its last page,
each row once and in order. Its length is settled by that table too, whether
or not rows arrived during the round; if none do, the round does end. -/
theorem round_shows_table {t : Table} {es : List Visit} {before after pages : List PageView} {first : PageView}
    (hb : browse t none es = before ++ (first :: pages) ++ after) (hopens : startingRow first.more = str "0") :
    (∀ last, IsRound first pages last →
        (first :: pages).flatMap (fun p => p.listing.rows) = last.table.rows ∧
          (first :: pages).length = last.table.rows.length / 15 + 1) ∧
      ∃ pages' last', browse first.table first.more (List.replicate (first.table.rows.length / 15 + 1) .press) =
        first :: pages' ∧ IsRound first pages' last' :=
  ⟨fun _ hr => round_shows hb hr, round_ends hopens⟩

/-- Sixteen rows fill one page and begin a second one. -/
def crowdedTable : Table := (Table.created.insertAll (List.replicate 16 (sampleRequest.values sampleAttributes))).getD .created

/-- The table after one more upload. -/
def laterTable : Table := (crowdedTable.execInsert (insertText (sampleRequest.values sampleAttributes))).getD crowdedTable

theorem round_shows_later_table : crowdedTable.rows.length = 16 ∧ laterTable.rows.length = 17 ∧
    browse crowdedTable none [.press, .upload sampleRequest sampleAttributes, .press] =
      [⟨crowdedTable, none⟩, ⟨laterTable, some (str "15")⟩] ∧
    [PageView.mk crowdedTable none, ⟨laterTable, some (str "15")⟩].flatMap (fun p => p.listing.rows) = laterTable.rows ∧
    [PageView.mk crowdedTable none, ⟨laterTable, some (str "15")⟩].length = laterTable.rows.length / 15 + 1 := by
  have hnext : (index crowdedTable none).next = str "15" := by decide +kernel
  have hlast : (index laterTable (some (str "15"))).next = str "0" := by decide +kernel
  have hbrowse : browse crowdedTable none [.press, .upload sampleRequest sampleAttributes, .press] =
      [⟨crowdedTable, none⟩, ⟨laterTable, some (str "15")⟩] := by
    rw [browse, browse, browse, browse, hnext]
    rfl
  have hround : IsRound ⟨crowdedTable, none⟩ [⟨laterTable, some (str "15")⟩] ⟨laterTable, some (str "15")⟩ := by
    refine ⟨rfl, rfl, hlast, fun p hp => ?_⟩
    rw [List.mem_singleton.mp hp, PageView.listing, hnext]
    decide
  have hpages : browse crowdedTable none [.press, .upload sampleRequest sampleAttributes, .press] =
      [] ++ [⟨crowdedTable, none⟩, ⟨laterTable, some (str "15")⟩] ++ [] := hbrowse
  obtain ⟨hrows, hlength⟩ := (round_shows_table hpages rfl).1 _ hround
  exact ⟨by decide +kernel, by decide +kernel, hbrowse, hrows, hlength⟩

end Vortex
