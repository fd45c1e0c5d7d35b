import Vortex.Deployment
import Vortex.Viewing

/-!
# What a visitor sees and plays

The images and the players of the pages name objects of the bucket. As rows
come after their objects and objects stay, none of the names is broken; and
where the uploads keep apart of themselves, what is behind the names of an
upload is its own.
-/

namespace Vortex

open Ascii

attribute [local irreducible] insertText

/-! ## The addresses of an object -/

/-- The bucket's own, and that of the stream server: its application
`playback` plays the files of `/srv/s3mnt`, where the bucket is mounted. -/
def objectUrls (key : Bytes) : List Bytes := [bucketUrl key, str "rtmp://www.videovortex.stream:1935/playback/" ++ key]

theorem branch_base {ext : Bytes} {b : Branch} (hb : branch ext = some b) (key : Bytes) : b.base ++ key ∈ objectUrls key := by
  have hall : ∀ ext ∈ supported, ∀ b ∈ branch ext, b.base = str "https://s3-us-west-2.amazonaws.com/vortex-bucket/" ∨
      b.base = str "rtmp://www.videovortex.stream:1935/playback/" := by decide +kernel
  rcases hall ext (branch_isSome.mp (by rw [hb]; rfl)) b hb with h | h
  · rw [h]
    exact List.mem_cons_self ..
  · rw [h]
    exact List.mem_cons_of_mem _ (List.mem_cons_self ..)

theorem source_urls {r : Row} {p : Player} (hp : buildPlayer r = some p) : p.source ∈ objectUrls (mediaName r) := by
  obtain ⟨b, hb, hsource⟩ := buildPlayer_some hp
  rw [hsource]
  exact branch_base hb _

theorem image_urls (r : Row) : imageUrl r ∈ objectUrls (r.uuid ++ str ".jpg") := List.mem_cons_self ..

/-! ## Rows and their objects -/

/-- The image of the row is there, and so is its video if the player has a
branch for it. -/
structure Row.Backed (bucket : Store) (r : Row) : Prop where
  image : (bucket (r.uuid ++ str ".jpg")).isSome
  video : r.ext ∈ supported → (bucket (mediaName r)).isSome

/-- What the table keeps of the extension is no extension of the player's, or
all of it. -/
def Request.KeepsExt (q : Request) : Prop := ∀ x ∈ decodeLiteral q.ext, charColumn 3 x ∈ supported → charColumn 3 x = q.ext

instance (q : Request) : Decidable q.KeepsExt :=
  match h : decodeLiteral q.ext with
  | none => isTrue (by rw [Request.KeepsExt, h]; exact nofun)
  | some x => decidable_of_iff (charColumn 3 x ∈ supported → charColumn 3 x = q.ext) (by simp [Request.KeepsExt, h])

theorem Row.Backed.mono {bucket bucket' : Store} {r : Row} (h : r.Backed bucket)
    (hb : ∀ k, (bucket k).isSome → (bucket' k).isSome) : r.Backed bucket' where
  image := hb _ h.image
  video hx := hb _ (h.video hx)

theorem Request.Stores.backed {q : Request} {w : World} {o : Upload} {r : Row} (h : q.Stores o.attrs r) (hx : q.KeepsExt)
    (hv : (w.bucket (q.keyname o.attrs.uuid)).isSome) (ht : (w.bucket (thumbName o.attrs.uuid)).isSome) :
    r.Backed w.bucket := by
  have huuid := h.uuid
  obtain ⟨v, hd, hr⟩ := h
  have hext : r.ext = charColumn 3 v.ext := by rw [hr]; rfl
  refine ⟨by rw [huuid]; exact ht, fun hs => ?_⟩
  have hkept : charColumn 3 v.ext = q.ext := hx v.ext hd.ext (by rw [← hext]; exact hs)
  have hname : mediaName r = q.keyname o.attrs.uuid := by
    rw [mediaName, huuid, hext, hkept]
    rfl
  rw [hname]
  exact hv

variable {other : Bytes → Option (List Row)} {thumbOf : Bytes → Bytes} {ι : Type*} [DecidableEq ι] {requests : ι → Request}

/-- What the site keeps of its rows and objects. -/
structure Backing (requests : ι → Request) (s : Site ι) : Prop where
  media : MediaInv requests s
  rows : ∀ r ∈ s.world.db.rows, r.Backed s.world.bucket

theorem Backing.step {s s' : Site ι} {e : ι × Outcome} (hx : ∀ i, (requests i).KeepsExt) (hs : Backing requests s)
    (hown : StoresOwn requests s e) (ht : e.2.tame s.world) (h : (site thumbOf requests).step s e = some s') :
    Backing requests s' := by
  refine ⟨hs.media.step ht h, fun r hr => ?_⟩
  have grows : ∀ k, (s.world.bucket k).isSome → (s'.world.bucket k).isSome := fun k =>
    Effect.bucket_grows (site_step h).1 ht
  rcases call_rows h hown ht hr with hr | ⟨o, hl, hstores⟩
  · exact (hs.rows r hr).mono grows
  · have ho : s.upload e.1 = some o := by rw [Site.upload, hl]; rfl
    have hmedia := hs.media.media e.1 o ho
    have hordered := hs.media.ordered e.1
    rw [hl] at hordered
    obtain ⟨hv, ht, -⟩ := hordered
    exact (hstores.backed (hx e.1) (hmedia.video hv) (hmedia.thumb ht)).mono grows

/-! ## No broken media -/

theorem backing_run {w : World} {es : List (TourEvent ι)} {s : Tour ι} (hx : ∀ i, (requests i).KeepsExt)
    (hb : ∀ r ∈ w.db.rows, r.Backed w.bucket)
    (hg : (tour other thumbOf requests).Guarded (TourStoresOwn requests) (.opening w) es)
    (h : (tour other thumbOf requests).run (.opening w) es = some s) : Backing requests s.site := by
  refine Machine.guarded_invariant (I := fun s : Tour ι => Backing requests s.site) ?_ ⟨mediaInv_opening w, hb⟩ hg h
  intro s e s' hs hown hst
  rcases tour_site hst with hsite | ⟨c, rfl, hc⟩
  · rw [hsite]
    exact hs
  · exact hs.step hx hown.1 hown.2 hc

variable (requests) in
/-- The calls store what they are meant to, and no command is hidden in a name. -/
def TourInert (s : Tour ι) : TourEvent ι → Prop
  | .call e => StoresOwn requests s.site e ∧ InertNames requests s.site e
  | _ => True

theorem storesOwn_of_tourInert {w : World} {es : List (TourEvent ι)} {s : Tour ι}
    (hg : (tour other thumbOf requests).Guarded (TourInert requests) (.opening w) es)
    (h : (tour other thumbOf requests).run (.opening w) es = some s) :
    (tour other thumbOf requests).Guarded (TourStoresOwn requests) (.opening w) es := by
  refine Machine.guarded_of_run (fun s e s' hi hst => ?_) hg h
  cases e with
  | call c =>
    obtain ⟨t, ht, -⟩ := Option.map_eq_some_iff.mp hst
    exact ⟨hi.1, tame_of_inert hi.2 ht⟩
  | _ => trivial

/-- Whatever page of the site a visit shows, an image or a source on it is the
address of an object that the bucket has. -/
theorem no_broken_media {w : World} {es : List (TourEvent ι)} {s : Tour ι} (hx : ∀ i, (requests i).KeepsExt)
    (hw : ∀ r ∈ w.db.rows, r.Plain) (hb : ∀ r ∈ w.db.rows, r.Backed w.bucket)
    (hi : (tour other thumbOf requests).Guarded (TourInert requests) (.opening w) es)
    (h : (tour other thumbOf requests).run (.opening w) es = some s) {path html : Bytes} (hpage : s.shown = .page path html) :
    ∀ u ∈ media html, ∃ key, u ∈ objectUrls key ∧ (s.site.world.bucket key).isSome := by
  have hg := storesOwn_of_tourInert hi h
  have hinv := tourInv_run hw hg h
  have hback := (backing_run hx hb hg h).rows
  have hmeant := hinv.meant
  rw [hpage] at hmeant
  obtain ⟨_, _, _, ms, -, -, hms, hoffers⟩ := hmeant.offers hinv.plain
  intro u hu
  rw [hoffers.media] at hu
  cases hms u hu with
  | image hr => exact ⟨_, image_urls _, (hback _ hr).image⟩
  | source hr hp =>
    obtain ⟨b, hbr, -⟩ := buildPlayer_some hp
    have hsup := branch_isSome.mp (by rw [hbr]; rfl)
    exact ⟨_, source_urls hp, (hback _ hr).video hsup⟩

/-! ## One's own video -/

variable {w : World} {es : List (TourEvent ι)} {s : Tour ι}

/-- The site's part of a visit is a run of the site. -/
theorem site_run {s' : Tour ι} (h : (tour other thumbOf requests).run s es = some s') :
    (site thumbOf requests).run s.site (calls es) = some s'.site := by
  induction es generalizing s with
  | nil =>
    cases h
    rfl
  | cons e es ih =>
    obtain ⟨t, hst, hr⟩ := Machine.run_cons h
    have hrun := ih hr
    cases e with
    | call c =>
      obtain ⟨u, hu, rfl⟩ := Option.map_eq_some_iff.mp hst
      change ((site thumbOf requests).step s.site c).bind _ = _
      rw [hu]
      exact hrun
    | _ =>
      rcases tour_site hst with hsite | ⟨c, he, -⟩
      · rw [← hsite]
        exact hrun
      · cases he

theorem deployed_storesOwn (hr : Deployable requests) {s' : Tour ι} (h : (tour other thumbOf requests).run s es = some s') :
    (tour other thumbOf requests).Guarded (TourStoresOwn requests) s es := by
  refine Machine.guarded_of_run (fun s e s' _ hst => ?_) (Machine.guarded_trivial s es) h
  cases e with
  | call c =>
    obtain ⟨t, ht, -⟩ := Option.map_eq_some_iff.mp hst
    exact ⟨storesOwn_of_inert hr.sql s.site c, tame_of_inert (fun _ _ => (hr.plain c.1).1) ht⟩
  | _ => trivial

/-- What the browser loads for the page that is shown. -/
def Tour.media (s : Tour ι) : List Bytes :=
  match s.shown with
  | .away => []
  | .page _ html => Vortex.media html

/-- Whatever the other uploads do, the upload's entry on the listing shows the
thumbnail of the uploaded bytes, and behind the link a player plays these
bytes. -/
theorem visitor_watches_upload (hr : Deployable requests) (hw : ∀ r ∈ w.db.rows, r.Plain)
    (hu : w.db.rows.Pairwise fun r r' => r.uuid ≠ r'.uuid) {ticks : List Clock} (hticks : ticks.Nodup)
    (hdraws : draws (calls es) = ticks.map uniqid) (hold : ∀ t ∈ ticks, ∀ r ∈ w.db.rows, r.uuid ≠ (uniqid t).bytes)
    (h : (tour other thumbOf requests).run (.opening w) es = some s) {j : ι} {o : Upload} {id : Nat}
    (ho : s.site.upload j = some o) (hid : o.row = some id) (hsup : (requests j).ext ∈ supported) :
    ∃ (i : Nat) (front page : Tour ι) (image video : Bytes) (source : Bytes),
      (tour other thumbOf requests).run s (.address :: List.replicate (i / 15) .more) = some front ∧
      front.media[i % 15]? = some (bucketUrl image) ∧
      s.site.world.bucket image = some (thumbOf (requests j).content) ∧
      (tour other thumbOf requests).run front [.link (4 + i % 15)] = some page ∧
      page.media = [source] ∧ source ∈ objectUrls video ∧
      s.site.world.bucket video = some (requests j).content := by
  have hinv := tourInv_run hw (deployed_storesOwn hr h) h
  have hrun := site_run h
  obtain ⟨published, -, hapart, hpub⟩ := (sitePublishes thumbOf w hr.ext).run (publishes_opening hu)
    (deployed_keepsApart hr hticks hdraws hu hold hrun) hrun
  let r := ((requests j).values o.attrs).row id
  have hmem : r ∈ s.table.rows := (hapart.media.media j o ho).row id hid
  have hfound := hpub.found hapart (hpub.entry j o ho id hid)
  obtain ⟨i, hi⟩ := List.getElem?_of_mem hmem
  obtain ⟨front, t, more, hfront, -, hshown, hentry, hplain, ⟨m, hnext⟩, hlink⟩ := row_reached hinv hi
  have hext : r.ext = (requests j).ext := row_ext_of_supported hsup
  obtain ⟨p, hp, hpage⟩ := rowPage_of_supported (r := r) (by rw [hext]; exact hsup)
  have hname : mediaName r = (requests j).keyname o.attrs.uuid := by
    have huuid : r.uuid = o.attrs.uuid.bytes := row_uuid ..
    rw [mediaName, huuid, hext]
    rfl
  refine ⟨i, front, _, _, _, p.source, hfront, ?_, hfound.thumb, hlink, ?_, ?_, hfound.video⟩
  · rw [Tour.media, hshown]
    change (Vortex.media (indexPage (index t more)))[i % 15]? = _
    rw [(indexPage_offers hplain hnext).media, List.getElem?_map, hentry, ← hfound.image]
    rfl
  · rw [Tour.media, hpage]
    exact (playerPage_offers (hinv.plain r hmem) hp).media
  · have hsource := source_urls hp
    rw [hname] at hsource
    exact hsource

/-! ## Visits after uploads -/

theorem sampleRequest_keepsExt : sampleRequest.KeepsExt := by decide +kernel

theorem inertTour_inert : (tour other sampleThumb fun _ => sampleRequest).Guarded (TourInert fun _ => sampleRequest)
    (.opening sampleWorld : Tour ι) es := by
  have hname : shellInert sampleRequest.name.bytes = true := by decide +kernel
  refine Machine.guarded_of_events (fun e _ s => ?_) _
  cases e with
  | call c => exact ⟨storesOwn_of_inert (fun _ => sampleRequest_inert) s.site c, fun _ _ => hname⟩
  | _ => trivial

theorem sample_no_broken_media : ∃ (s : Tour Unit) (u key : Bytes), u ∈ s.media ∧ u ∈ objectUrls key ∧
    (s.site.world.bucket key).isSome := by
  have hrun : ((tour (fun _ => none) sampleThumb fun _ => sampleRequest).run (.opening sampleWorld) sampleTour).map
      (fun s => s.table.rows[0]?.isSome) = some true := by
    decide +kernel
  obtain ⟨s, hs, hrow⟩ := Option.map_eq_some_iff.mp hrun
  obtain ⟨r, hr⟩ := Option.isSome_iff_exists.mp hrow
  have hinv := tourInv_run sampleWorld_plain (storesOwn_of_tourInert inertTour_inert hs) hs
  obtain ⟨front, t, more, hfront, -, hshown, hentry, hplain, ⟨m, hnext⟩, -⟩ := row_reached hinv hr
  have hmem : imageUrl r ∈ media (indexPage (index t more)) := by
    rw [(indexPage_offers hplain hnext).media]
    exact List.mem_map_of_mem (List.mem_of_getElem? hentry)
  obtain ⟨key, hkey, hstored⟩ := no_broken_media (fun _ => sampleRequest_keepsExt) sampleWorld_plain nofun
    inertTour_inert (Machine.run_concat hs hfront) hshown _ hmem
  exact ⟨front, imageUrl r, key, by rw [Tour.media, hshown]; exact hmem, hkey, hstored⟩

/-- Two uploads go on side by side, the second of them is watched. -/
theorem sample_visitor_watches_upload : ∃ (s front page : Tour Bool) (i : Nat) (image video source : Bytes),
    s.table.rows.length = 2 ∧
      (tour (fun _ => none) sampleThumb twoRequests).run s (.address :: List.replicate (i / 15) .more) = some front ∧
      front.media[i % 15]? = some (bucketUrl image) ∧
      s.site.world.bucket image = some (sampleThumb (twoRequests true).content) ∧
      (tour (fun _ => none) sampleThumb twoRequests).run front [.link (4 + i % 15)] = some page ∧
      page.media = [source] ∧ source ∈ objectUrls video ∧ s.site.world.bucket video = some (twoRequests true).content := by
  let es : List (TourEvent Bool) := ((sampleEvents sampleTmpName (attributesAt (twoClocks false))).zip
    (sampleEvents laterTmpName (attributesAt (twoClocks true)))).flatMap fun out =>
      [.call (false, out.1), .call (true, out.2)]
  have hrun : ((tour (fun _ => none) sampleThumb twoRequests).run (.opening sampleWorld) es).map
      (fun s => (s.table.rows.length, (s.site.upload true).map Upload.row)) = some (2, some (some 59)) := by
    decide +kernel
  obtain ⟨s, hs, hp⟩ := Option.map_eq_some_iff.mp hrun
  obtain ⟨hlen, hu⟩ := Prod.mk.inj hp
  obtain ⟨o, ho, hid⟩ := Option.map_eq_some_iff.mp hu
  obtain ⟨i, front, page, image, video, source, h⟩ := visitor_watches_upload twoRequests_deployable sampleWorld_plain
    List.Pairwise.nil twoClocks_nodup (by rfl) (by simp [sampleWorld, Table.created]) hs ho hid (by decide +kernel)
  exact ⟨s, front, page, i, image, video, source, hlen, h⟩

end Vortex
