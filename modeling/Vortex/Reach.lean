import Vortex.Tour

/-!
# Every video is in reach

From wherever a visit stands, the video at place `i` of the table is the
address of the site, a press of the More button for every full page before it
and one link away. The uploads that go on meanwhile only append rows, so the
pages are found also where the table grows between one step and the next.
-/

namespace Vortex

open Ascii

attribute [local irreducible] insertText

variable {other : Bytes → Option (List Row)} {thumbOf : Bytes → Bytes} {ι : Type*} [DecidableEq ι] {requests : ι → Request}
  {s s' : Tour ι}

/-- The visitor's own events. -/
def moves (es : List (TourEvent ι)) : List (TourEvent ι) :=
  es.filter fun | .call _ => false | _ => true

/-! ## Steps -/

theorem page_rows {t : Table} (hs : ∀ r ∈ t.rows, r.Plain) {more : Option Bytes} {n : Nat}
    (hm : startingRow more = decimal n) (hn : n ≤ t.rows.length) :
    (index t more).rows = (t.rows.drop n).take 15 ∧ (∀ r ∈ (index t more).rows, r.Plain) ∧
      ∃ m, (index t more).next = decimal m := by
  refine ⟨?_, fun r hr => hs r (mem_of_index hr), index_next t more⟩
  rw [index_decimal hm (offset_lt hn)]

theorem press_step {t : Table} (hs : ∀ r ∈ t.rows, r.Plain) {more : Option Bytes}
    (hpage : s.shown = .page [slash] (indexPage (index t more))) :
    (tour other thumbOf requests).step s .more =
      some { s with shown := .page [slash] (indexPage (index s.table (some (index t more).next))) } := by
  obtain ⟨m, hnext⟩ := index_next t more
  have hsub : ∀ r ∈ (index t more).rows, r.Plain := fun r hr => hs r (mem_of_index hr)
  have hbutton := (indexPage_offers hsub hnext).buttons
  simp only [tour, hpage, hbutton, List.head?_cons, Option.bind_some, fetch_front, Option.map_some, hnext]

theorem link_step {t : Table} (hs : ∀ r ∈ t.rows, r.Plain) {more : Option Bytes} {n j : Nat} {r : Row}
    (hm : startingRow more = decimal n) (hn : n ≤ t.rows.length) (hj : j < 15) (hr : t.rows[n + j]? = some r)
    (hmem : r ∈ s.table.rows) (hpage : s.shown = .page [slash] (indexPage (index t more))) :
    (tour other thumbOf requests).step s (.link (4 + j)) = some { s with shown := rowPage r } := by
  obtain ⟨hrows, hsub, m, hnext⟩ := page_rows hs hm hn
  have hentry : ((index t more).rows.map playerUrl)[j]? = some (playerUrl r) := by
    rw [hrows, List.getElem?_map, List.getElem?_take_of_lt hj, List.getElem?_drop, hr]
    rfl
  have hlink : (links (indexPage (index t more)))[4 + j]? = some (playerUrl r) := by
    rw [(indexPage_offers hsub hnext).links, List.getElem?_append_right (by simp [navigation])]
    simpa [navigation] using hentry
  have hfetch : (target (playerUrl r)).bind (fetch other s.table none patience) = some (rowPage r) :=
    fetch_row other hmem 19
  simp only [tour, hpage, hlink, Option.bind_some, hfetch, Option.map_some]

/-! ## Interleavings -/

/-- A call leaves the page as it is and appends to the table. -/
theorem call_grows {c : ι × Outcome} {es : List (TourEvent ι)} {u : Site ι}
    (hg : (tour other thumbOf requests).Guarded (TourStoresOwn requests) s (.call c :: es))
    (hu : (site thumbOf requests).run s.site (calls (.call c :: es)) = some u) :
    ∃ t, (tour other thumbOf requests).step s (.call c) = some ⟨t, s.shown⟩ ∧ s.table.rows <+: t.world.db.rows ∧
      ((∀ r ∈ s.table.rows, r.Plain) → ∀ r ∈ t.world.db.rows, r.Plain) ∧
      (tour other thumbOf requests).Guarded (TourStoresOwn requests) ⟨t, s.shown⟩ es ∧
      (site thumbOf requests).run t (calls es) = some u := by
  obtain ⟨t, ht, hr⟩ := Machine.run_cons hu
  have hst : (tour other thumbOf requests).step s (.call c) = some ⟨t, s.shown⟩ := by
    simp only [tour, ht, Option.map_some]
  exact ⟨t, hst, Effect.rows_prefix (site_step ht).1 hg.1.2, call_plain ht hg.1.1 hg.1.2, hg.2 _ hst, hr⟩

theorem run_next {e : TourEvent ι} {es : List (TourEvent ι)} (h : (tour other thumbOf requests).step s e = some s') :
    (tour other thumbOf requests).run s (e :: es) = (tour other thumbOf requests).run s' es := by
  rw [Machine.run, h, Option.bind_some]

/-- When the visitor rests, only the site goes on. -/
theorem rest : ∀ (es : List (TourEvent ι)) {s : Tour ι} {u : Site ι}, moves es = [] →
    (tour other thumbOf requests).Guarded (TourStoresOwn requests) s es →
    (site thumbOf requests).run s.site (calls es) = some u →
    (tour other thumbOf requests).run s es = some ⟨u, s.shown⟩ ∧ s.table.rows <+: u.world.db.rows
  | [], s, u, _, _, hu => by
    cases hu
    exact ⟨rfl, List.prefix_refl _⟩
  | .call c :: es, s, u, hm, hg, hu => by
    obtain ⟨t, hst, hgrow, -, hg', hu'⟩ := call_grows hg hu
    obtain ⟨hrun, hrows⟩ := rest es hm hg' hu'
    exact ⟨by rw [run_next hst, hrun], hgrow.trans hrows⟩
  | .typed _ _ :: _, _, _, hm, _, _ | .link _ :: _, _, _, hm, _, _ | .more :: _, _, _, hm, _, _ => by cases hm

/-- The listing with the rows from `n` on is shown, as the table stood when it
was fetched. -/
structure Listed (s : Tour ι) (n : Nat) (t : Table) (more : Option Bytes) : Prop where
  page : s.shown = .page [slash] (indexPage (index t more))
  start : startingRow more = decimal n
  older : t.rows <+: s.table.rows

/-- Every press on a full page goes on by fifteen rows, also when the table
grows meanwhile. -/
theorem presses : ∀ (es : List (TourEvent ι)) {k n : Nat} {s : Tour ι} {t : Table} {more : Option Bytes} {u : Site ι},
    moves es = List.replicate k .more → (tour other thumbOf requests).Guarded (TourStoresOwn requests) s es →
    (∀ r ∈ s.table.rows, r.Plain) → n + 15 * k ≤ t.rows.length → Listed s n t more →
    (site thumbOf requests).run s.site (calls es) = some u →
    ∃ s' t' more', (tour other thumbOf requests).run s es = some s' ∧ s'.site = u ∧ Listed s' (n + 15 * k) t' more' ∧
      t.rows <+: t'.rows
  | [], k, n, s, t, more, u, hm, _, _, _, hl, hu => by
    cases hu
    obtain rfl : k = 0 := by
      cases k with
      | zero => rfl
      | succ k => cases hm
    exact ⟨s, t, more, rfl, rfl, hl, List.prefix_refl _⟩
  | .call c :: es, k, n, s, t, more, u, hm, hg, hs, hn, hl, hu => by
    obtain ⟨v, hst, hgrow, hplain, hg', hu'⟩ := call_grows hg hu
    rw [run_next hst]
    exact presses es hm hg' (hplain hs) hn ⟨hl.page, hl.start, hl.older.trans hgrow⟩ hu'
  | .more :: es, k, n, s, t, more, u, hm, hg, hs, hn, hl, hu => by
    cases k with
    | zero => cases hm
    | succ k =>
      have hfull : ¬ ((t.rows.drop n).take 15).length < 15 := by
        rw [List.length_take, List.length_drop]
        omega
      have hnext : startingRow (some (index t more).next) = decimal (n + 15) := by
        rw [startingRow, index_decimal hl.start (offset_lt (t := t) (by omega))]
        exact if_neg hfull
      have hst : (tour other thumbOf requests).step s .more = some _ :=
        press_step (fun r hr => hs r (hl.older.subset hr)) hl.page
      have hlen := hl.older.length_le
      obtain ⟨s', t', more', hrun, hsite, hl', hgrow⟩ := presses es (k := k) (List.cons.inj hm).2 (hg.2 _ hst) hs
        (by omega) ⟨rfl, hnext, List.prefix_refl _⟩ hu
      refine ⟨s', t', more', by rw [run_next hst, hrun], hsite, ?_, hl.older.trans hgrow⟩
      have hplace : n + 15 + 15 * k = n + 15 * (k + 1) := by omega
      rwa [hplace] at hl'
  | .typed _ _ :: _, k, _, _, _, _, _, hm, _, _, _, _, _ | .link _ :: _, k, _, _, _, _, _, hm, _, _, _, _, _ => by
    cases k <;> cases hm

/-- The address of the site, and the presses. -/
theorem front_reached : ∀ (es : List (TourEvent ι)) {k : Nat} {s : Tour ι} {u : Site ι},
    moves es = .address :: List.replicate k .more → (tour other thumbOf requests).Guarded (TourStoresOwn requests) s es →
    (∀ r ∈ s.table.rows, r.Plain) → 15 * k ≤ s.table.rows.length → (site thumbOf requests).run s.site (calls es) = some u →
    ∃ s' t more, (tour other thumbOf requests).run s es = some s' ∧ s'.site = u ∧ Listed s' (15 * k) t more ∧
      s.table.rows <+: t.rows
  | [], _, _, _, hm, _, _, _, _ => by cases hm
  | .call c :: es, k, s, u, hm, hg, hs, hn, hu => by
    obtain ⟨v, hst, hgrow, hplain, hg', hu'⟩ := call_grows hg hu
    rw [run_next hst]
    obtain ⟨s', t, more, hrun, hsite, hl, hrows⟩ :=
      front_reached es hm hg' (hplain hs) (Nat.le_trans hn hgrow.length_le) hu'
    exact ⟨s', t, more, hrun, hsite, hl, hgrow.trans hrows⟩
  | .typed path more :: es, k, s, u, hm, hg, hs, hn, hu => by
    obtain ⟨haddress, hmoves⟩ := List.cons.inj hm
    cases haddress
    have hst : (tour other thumbOf requests).step s .address =
        some { s with shown := .page [slash] (indexPage (index s.table none)) } := by
      have hmore : listingMore none = true := by
        rw [listingMore, startingRow, str_zero, readSelect_decimal (by decide)]
        rfl
      simp only [tour, TourEvent.address, hmore, if_true, fetch_front, Option.map_some]
    obtain ⟨s', t, more, hrun, hsite, hl, hrows⟩ := presses es (n := 0) hmoves (hg.2 _ hst) hs (by rwa [Nat.zero_add])
      ⟨rfl, str_zero, List.prefix_refl _⟩ hu
    rw [Nat.zero_add] at hl
    exact ⟨s', t, more, (run_next hst).trans hrun, hsite, hl, hrows⟩
  | .link _ :: _, _, _, _, hm, _, _, _, _ | .more :: _, _, _, _, hm, _, _, _, _ => by cases hm

theorem link_reached : ∀ (es : List (TourEvent ι)) {n j : Nat} {s : Tour ι} {t : Table} {more : Option Bytes} {u : Site ι}
    {r : Row}, moves es = [.link (4 + j)] → (tour other thumbOf requests).Guarded (TourStoresOwn requests) s es →
    (∀ r ∈ s.table.rows, r.Plain) → Listed s n t more → j < 15 → t.rows[n + j]? = some r →
    (site thumbOf requests).run s.site (calls es) = some u →
    (tour other thumbOf requests).run s es = some ⟨u, rowPage r⟩
  | [], _, _, _, _, _, _, _, hm, _, _, _, _, _, _ => by cases hm
  | .call c :: es, n, j, s, t, more, u, r, hm, hg, hs, hl, hj, hr, hu => by
    obtain ⟨v, hst, hgrow, hplain, hg', hu'⟩ := call_grows hg hu
    rw [run_next hst]
    exact link_reached es hm hg' (hplain hs) ⟨hl.page, hl.start, hl.older.trans hgrow⟩ hj hr hu'
  | .link _ :: es, n, j, s, t, more, u, r, hm, hg, hs, hl, hj, hr, hu => by
    obtain ⟨hlink, hmoves⟩ := List.cons.inj hm
    cases hlink
    have hn := (List.getElem?_eq_some_iff.mp hr).1
    have hst : (tour other thumbOf requests).step s (.link (4 + j)) = some { s with shown := rowPage r } :=
      link_step (fun r hr => hs r (hl.older.subset hr)) hl.start (by omega) hj hr
        (hl.older.subset (List.mem_of_getElem? hr)) hl.page
    rw [run_next hst]
    exact (rest es hmoves (hg.2 _ hst) hu).1
  | .typed _ _ :: _, _, _, _, _, _, _, _, hm, _, _, _, _, _, _ | .more :: _, _, _, _, _, _, _, _, hm, _, _, _, _, _, _ => by
    cases hm

/-! ## The page of a row -/

theorem buildPlayer_isSome {r : Row} : (buildPlayer r).isSome ↔ r.ext ∈ supported := by
  rw [← branch_isSome, buildPlayer]
  cases branch r.ext <;> exact Iff.rfl

theorem rowPage_of_supported {r : Row} (h : r.ext ∈ supported) :
    ∃ p, buildPlayer r = some p ∧ rowPage r = Script.player.shown (slash :: decimal r.id) (playerPage p) := by
  obtain ⟨p, hp⟩ := Option.isSome_iff_exists.mp (buildPlayer_isSome.mpr h)
  exact ⟨p, hp, by rw [rowPage, hp]⟩

theorem rowPage_of_unsupported {r : Row} (h : r.ext ∉ supported) :
    rowPage r = Script.error.shown (slash :: decimal 61) (errorPage (some (slash :: decimal 61))) := by
  have hp : buildPlayer r = none := by
    rw [← Option.not_isSome_iff_eq_none, buildPlayer_isSome]
    exact h
  rw [rowPage, hp]

/-- The visitor's steps to the video at place `i`. -/
def wayTo (i : Nat) : List (TourEvent ι) := .address :: (List.replicate (i / 15) .more ++ [.link (4 + i % 15)])

/-- They end on the page of the video, if its extension is one that is played,
and on the playback error if not; and the uploads go on between them. -/
theorem every_video_in_reach {w : World} {es : List (TourEvent ι)} (hw : ∀ r ∈ w.db.rows, r.Plain)
    (hg : (tour other thumbOf requests).Guarded (TourStoresOwn requests) (.opening w) es)
    (h : (tour other thumbOf requests).run (.opening w) es = some s) {i : Nat} {r : Row} (hr : s.table.rows[i]? = some r)
    {es' : List (TourEvent ι)} (hm : moves es' = wayTo i)
    (hg' : (tour other thumbOf requests).Guarded (TourStoresOwn requests) s es') {u : Site ι}
    (hu : (site thumbOf requests).run s.site (calls es') = some u) :
    ∃ s', (tour other thumbOf requests).run s es' = some s' ∧ s'.site = u ∧
      (r.ext ∈ supported → ∃ p, buildPlayer r = some p ∧
        s'.shown = Script.player.shown (slash :: decimal r.id) (playerPage p)) ∧
      (r.ext ∉ supported →
        s'.shown = Script.error.shown (slash :: decimal 61) (errorPage (some (slash :: decimal 61)))) := by
  have hs := (tourInv_run hw hg h).plain
  have hi : i < s.table.rows.length := (List.getElem?_eq_some_iff.mp hr).1
  -- the last move is the link, everything before it leads to the listing
  rw [wayTo, ← List.cons_append] at hm
  obtain ⟨es₁, es₂, rfl, hm₁, hm₂⟩ := List.filter_eq_append_iff.mp hm
  rw [calls, List.filterMap_append] at hu
  obtain ⟨v, hv, hu⟩ := Machine.run_append hu
  have hg₁ := Machine.guarded_left hg'
  obtain ⟨s₁, t, more, hrun, rfl, hl, hrows⟩ := front_reached es₁ hm₁ hg₁ hs (by omega) hv
  have hplain : ∀ r ∈ s₁.table.rows, r.Plain :=
    (Machine.guarded_invariant (I := TourInv) (fun _ _ _ hs hg => hs.step hg) ⟨hs, (tourInv_run hw hg h).meant⟩ hg₁ hrun).plain
  have hplace : t.rows[15 * (i / 15) + i % 15]? = some r := by
    rw [Nat.div_add_mod, List.prefix_iff_getElem?.mp hrows i hi, ← hr, List.getElem?_eq_getElem hi]
  have hrun₂ := link_reached es₂ hm₂ (Machine.guarded_right hg' hrun) hplain hl (Nat.mod_lt i (by decide)) hplace hu
  refine ⟨⟨u, rowPage r⟩, Machine.run_concat hrun hrun₂, rfl, rowPage_of_supported, rowPage_of_unsupported⟩

/-- The same where nothing else goes on: the listing that is shown on the way
has the video at its place. -/
theorem row_reached (hs : TourInv s) {i : Nat} {r : Row} (hr : s.table.rows[i]? = some r) :
    ∃ (front : Tour ι) (t : Table) (more : Option Bytes),
      (tour other thumbOf requests).run s (.address :: List.replicate (i / 15) .more) = some front ∧
      front.site = s.site ∧ front.shown = .page [slash] (indexPage (index t more)) ∧
      (index t more).rows[i % 15]? = some r ∧ (∀ r ∈ (index t more).rows, r.Plain) ∧
      (∃ m, (index t more).next = decimal m) ∧
      (tour other thumbOf requests).run front [.link (4 + i % 15)] = some ⟨s.site, rowPage r⟩ := by
  have hi : i < s.table.rows.length := (List.getElem?_eq_some_iff.mp hr).1
  have hmod : i % 15 < 15 := Nat.mod_lt i (by decide)
  have hquiet : ∀ (s : Tour ι) (es : List (TourEvent ι)), calls es = [] →
      (tour other thumbOf requests).Guarded (TourStoresOwn requests) s es := by
    intro s es hes
    refine Machine.guarded_of_events (fun e he s => ?_) s
    cases e with
    | call c =>
      have hmem : c ∈ calls es := List.mem_filterMap.mpr ⟨_, he, rfl⟩
      rw [hes] at hmem
      cases hmem
    | _ => trivial
  have hcalls : calls (.address :: List.replicate (i / 15) .more : List (TourEvent ι)) = [] := by
    simp [calls, TourEvent.address]
  have hmoves : moves (.address :: List.replicate (i / 15) .more : List (TourEvent ι)) =
      .address :: List.replicate (i / 15) .more := by
    simp [moves, TourEvent.address]
  obtain ⟨front, t, more, hrun, hsite, hl, hrows⟩ := front_reached _ hmoves (hquiet s _ hcalls)
    hs.plain (by omega) (by rw [hcalls]; rfl)
  have hplace : t.rows[15 * (i / 15) + i % 15]? = some r := by
    rw [Nat.div_add_mod, List.prefix_iff_getElem?.mp hrows i hi, ← hr, List.getElem?_eq_getElem hi]
  have hfront : ∀ r ∈ front.table.rows, r.Plain := by
    rw [Tour.table, hsite]
    exact hs.plain
  have hlink := link_reached [.link (4 + i % 15)] rfl (hquiet front _ rfl) hfront hl hmod hplace rfl
  have hlen := (List.getElem?_eq_some_iff.mp hplace).1
  obtain ⟨hwindow, hplain, hnext⟩ := page_rows (fun r hr => hfront r (hl.older.subset hr)) hl.start (by omega)
  refine ⟨front, t, more, hrun, hsite, hl.page, ?_, hplain, hnext, by rw [← hsite]; exact hlink⟩
  rw [hwindow, List.getElem?_take_of_lt hmod, List.getElem?_drop, hplace]

/-! ## A visit to the second page -/

theorem crowdedTable_plain : ∀ r ∈ crowdedTable.rows, r.Plain := by
  have hsome : (Table.created.insertAll (List.replicate 16 (sampleRequest.values sampleAttributes))).isSome := by
    decide +kernel
  obtain ⟨t, ht⟩ := Option.isSome_iff_exists.mp hsome
  have htable : crowdedTable = t := by rw [crowdedTable, ht, Option.getD_some]
  obtain ⟨new, hrows, -, hnew⟩ := Table.insertAll_rows ht
  intro r hr
  rw [htable, hrows] at hr
  obtain ⟨v, hv, id, rfl⟩ := hnew r hr
  rw [List.eq_of_mem_replicate hv]
  exact Request.Stores.plain ⟨_, decodes_of_inert sampleRequest_inert sampleAttributes, rfl⟩

def crowdedWorld : World := { sampleWorld with db := crowdedTable }

/-- From the upload page to the first video of the second listing page, while
another one is uploaded. -/
theorem sample_video_in_reach : ∃ (s s' : Tour Unit) (r : Row) (p : Player),
    (tour (fun _ => none) sampleThumb fun _ => sampleRequest).run (.opening crowdedWorld)
      [.typed (str "/php/upload.php") none] = some s ∧
    s.table.rows[15]? = some r ∧ buildPlayer r = some p ∧
    (tour (fun _ => none) sampleThumb fun _ => sampleRequest).run s
      (.address :: ((sampleEvents sampleTmpName sampleAttributes).map fun out => .call ((), out)) ++ [.more, .link 4]) =
        some s' ∧
    s'.table.rows.length = 17 ∧ s'.shown = Script.player.shown (slash :: decimal r.id) (playerPage p) := by
  let way : List (TourEvent Unit) :=
    .address :: ((sampleEvents sampleTmpName sampleAttributes).map fun out => .call ((), out)) ++ [.more, .link 4]
  have hrun : ((tour (fun _ => none) sampleThumb fun _ => sampleRequest).run (.opening crowdedWorld : Tour Unit)
      [.typed (str "/php/upload.php") none]).isSome := by
    decide +kernel
  obtain ⟨s, hs⟩ := Option.isSome_iff_exists.mp hrun
  have hsite : s.site = .opening crowdedWorld := by
    obtain ⟨s₁, hst, hend⟩ := Machine.run_cons hs
    cases hend
    obtain ⟨shown, -, rfl⟩ := typed_step hst
    rfl
  have hrow : (crowdedTable.rows[15]?.map fun r => decide (r.ext ∈ supported)) = some true := by decide +kernel
  obtain ⟨r, hr, hx⟩ := Option.map_eq_some_iff.mp hrow
  have hcalls : ((site sampleThumb fun _ => sampleRequest).run (.opening crowdedWorld) (calls way)).map
      (fun u => u.world.db.rows.length) = some 17 := by
    decide +kernel
  obtain ⟨u, hu, hlen⟩ := Option.map_eq_some_iff.mp hcalls
  have honest : ∀ c ∈ calls way, c.2.smuggles = false := by
    simp [way, calls, sampleEvents, TourEvent.address, Outcome.smuggles]
  have hmoves : moves way = wayTo 15 := rfl
  have hstart : ∀ c ∈ calls ([.typed (str "/php/upload.php") none] : List (TourEvent Unit)), c.2.smuggles = false := by
    simp [calls]
  have hrow' : s.table.rows[15]? = some r := by
    rw [Tour.table, hsite]
    exact hr
  obtain ⟨s', hs', hsite', hplayed, -⟩ := every_video_in_reach crowdedTable_plain
    (inertTour_guarded (fun _ => sampleRequest_inert) hstart _) hs hrow' hmoves
    (inertTour_guarded (fun _ => sampleRequest_inert) honest s) (by rw [hsite]; exact hu)
  obtain ⟨p, hp, hshown⟩ := hplayed (of_decide_eq_true hx)
  exact ⟨s, s', r, p, hs, hrow', hp, hs', by rw [Tour.table, hsite']; exact hlen, hshown⟩

end Vortex
