import Mathlib.Logic.Function.Basic
import Vortex.Runs
import Vortex.Thumbnail

/-!
# Uploads at work

The stores that uploads share (`/tmp`, the bucket, the table) and what one
request does to them, call after call, from PHP's own storing of the file part
in `/tmp` on. Each call is one step; its outcome is chosen from outside: it may
succeed, fail, or the script may stop before it. `act` is the code; `Effect`
lists once what an action can do, and every invariant goes by cases on it.
-/

namespace Vortex

open Ascii

/-! ## The stores and the uploader -/

/-- File contents by path, or objects by key. -/
abbrev Store := Bytes → Option Bytes

theorem isSome_written (f : Store) (k b : Bytes) : (Function.update f k (some b) k).isSome := by
  rw [Function.update_self]
  rfl

theorem isSome_write {f : Store} {k : Bytes} (k' b : Bytes) (h : (f k).isSome) :
    (Function.update f k' (some b) k).isSome := by
  by_cases he : k = k'
  · rw [he]
    exact isSome_written ..
  · rw [Function.update_of_ne he]
    exact h

theorem removed (f : Store) (k : Bytes) : Function.update f k none k = none := Function.update_self ..

theorem removed_or_kept (f : Store) (k k' : Bytes) :
    Function.update f k' none k = f k ∨ Function.update f k' none k = none := by
  by_cases he : k = k'
  · right
    rw [he, removed]
  · left
    exact Function.update_of_ne he _ _

structure World where
  tmp : Store
  bucket : Store
  db : Table

/-- `upload_tmp_dir` is unset, so PHP puts `phpXXXXXX` in `/tmp`. -/
def isUploadName (path : Bytes) : Bool :=
  (str "/tmp/php").isPrefixOf path && path.length == 14 && (path.drop 8).all fun c => isLetter c || isDigit c

/-- At the end of a request PHP removes what it stored, unless
`move_uploaded_file` has taken it. -/
def World.sweep (w : World) (tmpName : Bytes) : World := { w with tmp := Function.update w.tmp tmpName none }

/-- The object of a request once its attributes are known. The code does not
keep the last three fields: what its two `putObject` calls stored, and the row
its INSERT made with its own values. -/
structure Upload where
  attrs : Attributes
  tmpName : Bytes
  putVideo : Option Bytes := none
  putThumb : Option Bytes := none
  row : Option Nat := none

inductive Stage
  | localUpload
  | makeThumbnail
  | putVideo
  | putThumb
  | unlinkVideo
  | unlinkThumb
  | preparedSQL
  | getVID
  deriving DecidableEq

inductive Exit
  -- the redirect to `error.php/code`
  | error (code : Nat)
  -- an exception of the SDK that nobody catches
  | exception
  -- `fetch_array` on the result `false`
  | fatal
  | player (vid : Nat)
  -- a time-out or a crash
  | stopped
  deriving DecidableEq

inductive Local
  | waiting
  -- the file part is stored, the script begins
  | received (tmpName : Bytes)
  | running (o : Upload) (stage : Stage)
  | ended (was : Option (Upload × Stage)) (e : Exit)

def Local.upload : Local → Option Upload
  | .waiting => none
  | .received _ => none
  | .running o _ => some o
  | .ended was _ => was.map Prod.fst

def Local.exit : Local → Option Exit
  | .ended _ e => some e
  | _ => none

/-- The next call, or the one at which the script ended. -/
def Local.stage : Local → Option Stage
  | .running _ stage => some stage
  | .ended was _ => was.map Prod.snd
  | _ => none

theorem Local.exit_some {l : Local} {e : Exit} (h : l.exit = some e) : ∃ was, l = .ended was e := by
  cases l with
  | ended was e' =>
    cases h
    exact ⟨was, rfl⟩
  | _ => cases h

theorem Local.exit_upload {l : Local} {o : Upload} {e : Exit} (he : l.exit = some e) (ho : l.upload = some o) :
    ∃ stage, l = .ended (some (o, stage)) e := by
  obtain ⟨was, rfl⟩ := Local.exit_some he
  obtain ⟨⟨o', stage⟩, rfl, rfl⟩ := Option.map_eq_some_iff.mp ho
  exact ⟨stage, rfl⟩

theorem Local.exit_stage {l : Local} {stage : Stage} {e : Exit} (he : l.exit = some e) (hs : l.stage = some stage) :
    ∃ o, l = .ended (some (o, stage)) e := by
  obtain ⟨was, rfl⟩ := Local.exit_some he
  obtain ⟨⟨o, stage'⟩, rfl, rfl⟩ := Option.map_eq_some_iff.mp hs
  exact ⟨o, rfl⟩

/-- How a call turns out. -/
inductive Outcome
  | received (tmpName : Bytes)
  | done
  | attributes (a : Attributes)
  | fail
  -- ffmpeg fails after it has opened its output
  | leaves (x : Bytes)
  -- the thumbnail line was another command: its success, and the stores after it
  | smuggled (zero : Bool) (after : World)
  -- `query()` returns `false` whatever its text
  | noAnswer
  -- PHP's shutdown runs at a time-out, and not at a crash
  | stop (shutdown : Bool)

/-! ## The calls -/

-- what ffmpeg makes of a video
variable (thumbOf : Bytes → Bytes)

def makeThumbnail (q : Request) (w : World) (o : Upload) : Outcome → Option (World × Local)
  | .done =>
    match thumbInput q.name.bytes o.attrs.uuid with
    | none => none
    | some path =>
      match w.tmp path with
      | none => none
      | some b =>
        some ({ w with tmp := Function.update w.tmp (thumbPath o.attrs.uuid) (some (thumbOf b)) },
          .running o .putVideo)
  | .fail => some (w, .ended (some (o, .makeThumbnail)) (.error 11))
  | .leaves x =>
    match thumbInput q.name.bytes o.attrs.uuid with
    | none => none
    | some _ =>
      some ({ w with tmp := Function.update w.tmp (thumbPath o.attrs.uuid) (some x) },
        .ended (some (o, .makeThumbnail)) (.error 11))
  | .smuggled zero after =>
    match thumbInput q.name.bytes o.attrs.uuid with
    | some _ => none
    -- the bucket is mounted, and the password of the table stands in the source
    | none => some (after, if zero then .running o .putVideo else .ended (some (o, .makeThumbnail)) (.error 11))
  | _ => none

/-- The row that the INSERT makes, where it has the request's own values. -/
def ownRow (q : Request) (a : Attributes) (t : Table) : Option Nat :=
  if readInsert (insertText (q.values a)) = some [q.values a] then some t.nextId else none

def preparedSQL (q : Request) (w : World) (o : Upload) : Outcome → Option (World × Local)
  | .done =>
    match w.db.execInsert (insertText (q.values o.attrs)) with
    | some t => some ({ w with db := t }, .running { o with row := ownRow q o.attrs w.db } .getVID)
    | none => some (w, .running o .getVID)
  | .noAnswer => some (w, .running o .getVID)
  | .fail => some (w, .ended (some (o, .preparedSQL)) (.error 41))
  | _ => none

/-- `getVID` and what `video_upload.php` does with the id it returns. -/
def getVID (w : World) (o : Upload) : Outcome → Option (World × Local)
  | .done =>
    match w.db.idOfUuid o.attrs.uuid.bytes with
    | some v => some (w, .ended (some (o, .getVID)) (.player v))
    | none => some (w, .ended (some (o, .getVID)) (.error 41))
  | .noAnswer => some (w, .ended (some (o, .getVID)) .fatal)
  | .fail => some (w, .ended (some (o, .getVID)) (.error 31))
  | _ => none

def call (q : Request) (w : World) (o : Upload) (stage : Stage) (out : Outcome) : Option (World × Local) :=
  match stage, out with
  | .localUpload, .done =>
    match w.tmp o.tmpName with
    | none => none
    | some b =>
      some ({ w with tmp := Function.update (Function.update w.tmp o.tmpName none) q.videoPath (some b) },
        .running o .makeThumbnail)
  | .localUpload, .fail => some (w.sweep o.tmpName, .ended (some (o, .localUpload)) (.error 21))
  | .makeThumbnail, out => makeThumbnail thumbOf q w o out
  | .putVideo, .done =>
    match w.tmp q.videoPath with
    | none => none
    | some b =>
      some ({ w with bucket := Function.update w.bucket (q.keyname o.attrs.uuid) (some b) },
        .running { o with putVideo := some b } .putThumb)
  | .putVideo, .fail => some (w, .ended (some (o, .putVideo)) .exception)
  | .putThumb, .done =>
    match w.tmp (thumbPath o.attrs.uuid) with
    | none => none
    | some b =>
      some ({ w with bucket := Function.update w.bucket (thumbName o.attrs.uuid) (some b) },
        .running { o with putThumb := some b } .unlinkVideo)
  | .putThumb, .fail => some (w, .ended (some (o, .putThumb)) .exception)
  -- unlink only warns about a file that is gone
  | .unlinkVideo, .done =>
    some ({ w with tmp := Function.update w.tmp (tmpPath q.name.bytes) none }, .running o .unlinkThumb)
  | .unlinkThumb, .done =>
    some ({ w with tmp := Function.update w.tmp (thumbPath o.attrs.uuid) none }, .running o .preparedSQL)
  | .preparedSQL, out => preparedSQL q w o out
  | .getVID, out => getVID w o out
  | _, _ => none

def act (q : Request) (w : World) (l : Local) (out : Outcome) : Option (World × Local) :=
  match l, out with
  | .waiting, .received path =>
    if isUploadName path && (w.tmp path).isNone then
      some ({ w with tmp := Function.update w.tmp path (some q.content) }, .received path)
    else none
  -- no file was stored, `tmp_name` is empty
  | .waiting, .fail => some (w, .ended none (.error 11))
  | .waiting, .stop _ => some (w, .ended none .stopped)
  | .received path, .attributes a => some (w, .running { attrs := a, tmpName := path } .localUpload)
  | .received path, .fail => some (w.sweep path, .ended none (.error 11))
  | .received path, .stop shutdown => some (if shutdown then w.sweep path else w, .ended none .stopped)
  | .running o stage, .stop shutdown =>
    some (if shutdown && stage = .localUpload then w.sweep o.tmpName else w, .ended (some (o, stage)) .stopped)
  | .running o stage, out => call thumbOf q w o stage out
  | _, _ => none

/-! ## What an action can do -/

/-- The exits that leave the stores alone. -/
def Stage.exits : Stage → List Exit
  | .makeThumbnail => [.error 11, .stopped]
  | .putVideo | .putThumb => [.exception, .stopped]
  | .localUpload | .unlinkVideo | .unlinkThumb => [.stopped]
  | .preparedSQL => [.error 41, .stopped]
  | .getVID => [.error 41, .error 31, .fatal, .stopped]

inductive Effect (q : Request) (w : World) : Local → Outcome → World → Local → Prop
  | received (path : Bytes) : isUploadName path = true → w.tmp path = none → Effect q w .waiting (.received path)
      { w with tmp := Function.update w.tmp path (some q.content) } (.received path)
  | refused (e : Exit) (out : Outcome) : e = .error 11 ∨ e = .stopped → Effect q w .waiting out w (.ended none e)
  | attributes (path : Bytes) (a : Attributes) :
      Effect q w (.received path) (.attributes a) w (.running { attrs := a, tmpName := path } .localUpload)
  | dropped (path : Bytes) (e : Exit) (out : Outcome) : e = .error 11 ∨ e = .stopped →
      Effect q w (.received path) out (w.sweep path) (.ended none e)
  | killed (path : Bytes) (out : Outcome) : Effect q w (.received path) out w (.ended none .stopped)
  | moved (o : Upload) (b : Bytes) : w.tmp o.tmpName = some b → Effect q w (.running o .localUpload) .done
      { w with tmp := Function.update (Function.update w.tmp o.tmpName none) q.videoPath (some b) }
      (.running o .makeThumbnail)
  | unmoved (o : Upload) (e : Exit) (out : Outcome) : e = .error 21 ∨ e = .stopped →
      Effect q w (.running o .localUpload) out (w.sweep o.tmpName) (.ended (some (o, .localUpload)) e)
  | thumb (o : Upload) (path b : Bytes) : thumbInput q.name.bytes o.attrs.uuid = some path → w.tmp path = some b →
      Effect q w (.running o .makeThumbnail) .done
        { w with tmp := Function.update w.tmp (thumbPath o.attrs.uuid) (some (thumbOf b)) } (.running o .putVideo)
  | leaves (o : Upload) (path x : Bytes) : thumbInput q.name.bytes o.attrs.uuid = some path →
      Effect q w (.running o .makeThumbnail) (.leaves x)
        { w with tmp := Function.update w.tmp (thumbPath o.attrs.uuid) (some x) }
        (.ended (some (o, .makeThumbnail)) (.error 11))
  | smuggled (o : Upload) (zero : Bool) (after : World) : thumbInput q.name.bytes o.attrs.uuid = none →
      Effect q w (.running o .makeThumbnail) (.smuggled zero after) after
        (if zero then .running o .putVideo else .ended (some (o, .makeThumbnail)) (.error 11))
  | putVideo (o : Upload) (b : Bytes) : w.tmp q.videoPath = some b →
      Effect q w (.running o .putVideo) .done
        { w with bucket := Function.update w.bucket (q.keyname o.attrs.uuid) (some b) }
        (.running { o with putVideo := some b } .putThumb)
  | putThumb (o : Upload) (b : Bytes) : w.tmp (thumbPath o.attrs.uuid) = some b →
      Effect q w (.running o .putThumb) .done
        { w with bucket := Function.update w.bucket (thumbName o.attrs.uuid) (some b) }
        (.running { o with putThumb := some b } .unlinkVideo)
  | unlinkVideo (o : Upload) : Effect q w (.running o .unlinkVideo) .done
      { w with tmp := Function.update w.tmp (tmpPath q.name.bytes) none } (.running o .unlinkThumb)
  | unlinkThumb (o : Upload) : Effect q w (.running o .unlinkThumb) .done
      { w with tmp := Function.update w.tmp (thumbPath o.attrs.uuid) none } (.running o .preparedSQL)
  | inserted (o : Upload) (t : Table) : w.db.execInsert (insertText (q.values o.attrs)) = some t →
      Effect q w (.running o .preparedSQL) .done { w with db := t }
        (.running { o with row := ownRow q o.attrs w.db } .getVID)
  | noRow (o : Upload) (out : Outcome) :
      out = .noAnswer ∨ w.db.execInsert (insertText (q.values o.attrs)) = none →
      Effect q w (.running o .preparedSQL) out w (.running o .getVID)
  | found (o : Upload) (v : Nat) : w.db.idOfUuid o.attrs.uuid.bytes = some v →
      Effect q w (.running o .getVID) .done w (.ended (some (o, .getVID)) (.player v))
  | quit (o : Upload) (stage : Stage) (e : Exit) (out : Outcome) : e ∈ stage.exits →
      Effect q w (.running o stage) out w (.ended (some (o, stage)) e)

theorem makeThumbnail_effect {q : Request} {w w' : World} {o : Upload} {out : Outcome} {l' : Local}
    (h : makeThumbnail thumbOf q w o out = some (w', l')) :
    Effect thumbOf q w (.running o .makeThumbnail) out w' l' := by
  unfold makeThumbnail at h
  split at h
  · split at h
    · cases h
    · rename_i path hp
      split at h
      · cases h
      · rename_i b hb
        cases h
        exact .thumb o path b hp hb
  · cases h
    exact .quit o .makeThumbnail _ _ (by decide)
  · split at h
    · cases h
    · rename_i path hp
      cases h
      exact .leaves o path _ hp
  · split at h
    · cases h
    · rename_i hp
      cases h
      exact .smuggled o _ _ hp
  · cases h

theorem preparedSQL_effect {q : Request} {w w' : World} {o : Upload} {out : Outcome} {l' : Local}
    (h : preparedSQL q w o out = some (w', l')) : Effect thumbOf q w (.running o .preparedSQL) out w' l' := by
  unfold preparedSQL at h
  split at h
  · split at h
    · rename_i t ht
      cases h
      exact .inserted o t ht
    · rename_i ht
      cases h
      exact .noRow o _ (.inr ht)
  · cases h
    exact .noRow o _ (.inl rfl)
  · cases h
    exact .quit o .preparedSQL _ _ (by decide)
  · cases h

theorem getVID_effect {q : Request} {w w' : World} {o : Upload} {out : Outcome} {l' : Local}
    (h : getVID w o out = some (w', l')) : Effect thumbOf q w (.running o .getVID) out w' l' := by
  unfold getVID at h
  split at h
  · split at h
    · rename_i v hv
      cases h
      exact .found o v hv
    · cases h
      exact .quit o .getVID _ _ (by decide)
  · cases h
    exact .quit o .getVID _ _ (by decide)
  · cases h
    exact .quit o .getVID _ _ (by decide)
  · cases h

theorem call_effect {q : Request} {w w' : World} {o : Upload} {stage : Stage} {out : Outcome} {l' : Local}
    (h : call thumbOf q w o stage out = some (w', l')) : Effect thumbOf q w (.running o stage) out w' l' := by
  unfold call at h
  split at h
  · split at h
    · cases h
    · rename_i b hb
      cases h
      exact .moved o b hb
  · cases h
    exact .unmoved o _ _ (.inl rfl)
  · exact makeThumbnail_effect thumbOf h
  · split at h
    · cases h
    · rename_i b hb
      cases h
      exact .putVideo o b hb
  · cases h
    exact .quit o .putVideo _ _ (by decide)
  · split at h
    · cases h
    · rename_i b hb
      cases h
      exact .putThumb o b hb
  · cases h
    exact .quit o .putThumb _ _ (by decide)
  · cases h
    exact .unlinkVideo o
  · cases h
    exact .unlinkThumb o
  · exact preparedSQL_effect thumbOf h
  · exact getVID_effect thumbOf h
  · cases h

theorem act_effect {q : Request} {w w' : World} {l l' : Local} {out : Outcome}
    (h : act thumbOf q w l out = some (w', l')) : Effect thumbOf q w l out w' l' := by
  unfold act at h
  split at h
  · rename_i path
    split at h
    · rename_i hname
      rw [Bool.and_eq_true, Option.isNone_iff_eq_none] at hname
      cases h
      exact .received path hname.1 hname.2
    · cases h
  · cases h
    exact .refused _ _ (.inl rfl)
  · cases h
    exact .refused _ _ (.inr rfl)
  · cases h
    exact .attributes _ _
  · cases h
    exact .dropped _ _ _ (.inl rfl)
  · rename_i path shutdown
    cases h
    cases shutdown
    · exact .killed path _
    · exact .dropped path _ _ (.inr rfl)
  · rename_i o stage shutdown
    cases h
    split
    · rename_i hstage
      obtain rfl : stage = .localUpload := by simpa using (Bool.and_eq_true_iff.mp hstage).2
      exact .unmoved o _ _ (.inr rfl)
    · exact .quit o stage _ _ (by cases stage <;> decide)
  · exact call_effect thumbOf h
  · cases h

/-- Only the thumbnail line can be another command. -/
theorem smuggled_call {q : Request} {w w' after : World} {o : Upload} {stage : Stage} {out : Outcome} {l' : Local}
    {zero : Bool} (h : call thumbOf q w o stage out = some (w', l')) (hout : out = .smuggled zero after) :
    stage = .makeThumbnail ∧ thumbInput q.name.bytes o.attrs.uuid = none ∧ w' = after ∧
      l' = if zero then .running o .putVideo else .ended (some (o, .makeThumbnail)) (.error 11) := by
  unfold call at h
  split at h
  case h_3 =>
    unfold makeThumbnail at h
    split at h
    case h_4 =>
      cases hout
      split at h
      · cases h
      · rename_i hnone
        obtain ⟨rfl, rfl⟩ := Prod.mk.inj (Option.some.inj h)
        exact ⟨rfl, hnone, rfl, rfl⟩
    case h_5 => cases h
    all_goals cases hout
  case h_10 =>
    unfold preparedSQL at h
    split at h
    case h_4 => cases h
    all_goals cases hout
  case h_11 =>
    unfold getVID at h
    split at h
    case h_4 => cases h
    all_goals cases hout
  case h_12 => cases h
  all_goals cases hout

theorem smuggled_act {q : Request} {w w' after : World} {l l' : Local} {zero : Bool}
    (h : act thumbOf q w l (.smuggled zero after) = some (w', l')) :
    ∃ o, l = .running o .makeThumbnail ∧ thumbInput q.name.bytes o.attrs.uuid = none ∧ w' = after ∧
      l' = if zero then .running o .putVideo else .ended (some (o, .makeThumbnail)) (.error 11) := by
  cases l with
  | running o stage =>
    obtain ⟨rfl, hnone, rfl, rfl⟩ := smuggled_call thumbOf (h : call thumbOf q w o stage _ = _) rfl
    exact ⟨o, rfl, hnone, rfl, rfl⟩
  | _ => cases h

/-! ## What every action keeps -/

/-- The puts and the INSERT come in the order of the stages. -/
def Upload.ordered (o : Upload) : Stage → Prop
  | .localUpload | .makeThumbnail | .putVideo => o.putVideo = none ∧ o.putThumb = none ∧ o.row = none
  | .putThumb => o.putVideo.isSome ∧ o.putThumb = none ∧ o.row = none
  | .unlinkVideo | .unlinkThumb | .preparedSQL => o.putVideo.isSome ∧ o.putThumb.isSome ∧ o.row = none
  | .getVID => o.putVideo.isSome ∧ o.putThumb.isSome

def Local.ordered : Local → Prop
  | .waiting => True
  | .received _ => True
  | .running o stage => o.ordered stage
  | .ended none _ => True
  | .ended (some (o, stage)) _ => o.ordered stage

/-- Where the thumbnail line was another command, it left the bucket and the
table alone. -/
def Outcome.tame (w : World) : Outcome → Prop
  | .smuggled _ after => after.bucket = w.bucket ∧ after.db = w.db
  | _ => True

section
variable {thumbOf}
variable {q : Request} {w w' : World} {l l' : Local} {out : Outcome}

theorem Effect.ordered (h : Effect thumbOf q w l out w' l') (hl : l.ordered) : l'.ordered := by
  cases h with
  | received | refused | dropped | killed => trivial
  | attributes path a => exact ⟨rfl, rfl, rfl⟩
  | moved | unmoved | thumb | leaves | quit | unlinkVideo | unlinkThumb | found => exact hl
  | smuggled o zero after => cases zero <;> exact hl
  | putVideo => exact ⟨rfl, hl.2⟩
  | putThumb => exact ⟨hl.1, rfl, hl.2.2⟩
  | inserted | noRow => exact ⟨hl.1, hl.2.1⟩

theorem Effect.bucket_grows (h : Effect thumbOf q w l out w' l') (ht : out.tame w) {k : Bytes}
    (hk : (w.bucket k).isSome) : (w'.bucket k).isSome := by
  cases h with
  | putVideo | putThumb => exact isSome_write _ _ hk
  | smuggled =>
    rw [ht.1]
    exact hk
  | _ => exact hk

theorem Table.execInsert_rows {t t' : Table} {text : Bytes} (h : t.execInsert text = some t') :
    ∃ vs new, readInsert text = some vs ∧ t'.rows = t.rows ++ new ∧ new.length = vs.length ∧
      ∀ r ∈ new, ∃ v ∈ vs, ∃ id, r = v.row id := by
  obtain ⟨vs, hv, ht⟩ := Option.bind_eq_some_iff.mp h
  obtain ⟨new, hr, hl, hm⟩ := Table.insertAll_rows ht
  exact ⟨vs, new, hv, hr, hl, hm⟩

theorem Effect.rows_prefix (h : Effect thumbOf q w l out w' l') (ht : out.tame w) : w.db.rows <+: w'.db.rows := by
  cases h with
  | smuggled =>
    have hrows : w.db.rows = _ := congrArg Table.rows ht.2.symm
    exact hrows ▸ List.prefix_refl _
  | inserted o t hins =>
    obtain ⟨-, new, -, hr, -⟩ := Table.execInsert_rows hins
    exact ⟨new, hr.symm⟩
  | _ => exact List.prefix_refl _

/-- Only the INSERT changes the table and the row of an upload; the rest keeps
both, and the attributes too. -/
theorem Effect.kept_or_inserted (h : Effect thumbOf q w l out w' l') (ht : out.tame w) :
    (w'.db = w.db ∧ ∀ o', l'.upload = some o' → out = .attributes o'.attrs ∨
      ∃ o, l.upload = some o ∧ o.attrs = o'.attrs ∧ o.row = o'.row) ∨
    ∃ o t, l = .running o .preparedSQL ∧ out = .done ∧
      w.db.execInsert (insertText (q.values o.attrs)) = some t ∧ w' = { w with db := t } ∧
      l' = .running { o with row := ownRow q o.attrs w.db } .getVID := by
  cases h with
  | inserted o t hins => exact .inr ⟨o, t, rfl, rfl, hins, rfl, rfl⟩
  | received | refused | dropped | killed => exact .inl ⟨rfl, nofun⟩
  | attributes path a =>
    refine .inl ⟨rfl, fun o' ho' => .inl ?_⟩
    obtain rfl := Option.some.inj ho'
    rfl
  | smuggled o zero after =>
    refine .inl ⟨ht.2, fun o' ho' => .inr ⟨o, rfl, ?_⟩⟩
    cases zero <;> obtain rfl := Option.some.inj ho' <;> exact ⟨rfl, rfl⟩
  | _ =>
    refine .inl ⟨rfl, fun o' ho' => .inr ⟨_, rfl, ?_⟩⟩
    obtain rfl := Option.some.inj ho'
    exact ⟨rfl, rfl⟩

/-- The redirect to the player carries the first id with the request's uuid. -/
theorem Effect.player (h : Effect thumbOf q w l out w' l') {was : Option (Upload × Stage)} {v : Nat}
    (hv : l' = .ended was (.player v)) :
    ∃ o, l = .running o .getVID ∧ was = some (o, .getVID) ∧ w.db.idOfUuid o.attrs.uuid.bytes = some v ∧ w' = w := by
  cases h with
  | found o v' hf =>
    cases hv
    exact ⟨o, rfl, rfl, hf, rfl⟩
  | quit o stage e out he =>
    cases hv
    cases stage <;> simp [Stage.exits] at he
  | refused e out he | dropped path e out he | unmoved o e out he =>
    cases hv
    simp at he
  | smuggled o zero after => cases zero <;> cases hv
  | _ => cases hv

theorem ownRow_some {a : Attributes} {t t' : Table} {id : Nat} (h : ownRow q a t = some id)
    (ht : t.execInsert (insertText (q.values a)) = some t') : t'.rows = t.rows ++ [(q.values a).row id] := by
  unfold ownRow at h
  split at h
  · rename_i hv
    cases h
    rw [Table.execInsert, hv] at ht
    change t.insertAll [q.values a] = some t' at ht
    unfold Table.insertAll at ht
    split at ht
    · cases ht
    · rename_i t₁ h₁
      cases ht
      exact (Table.insert_rows h₁).1
  · cases h

end

/-! ## One request, many requests -/

def alone (q : Request) : Machine (World × Local) Outcome where
  step s out := act thumbOf q s.1 s.2 out

structure Site (ι : Type*) where
  world : World
  locals : ι → Local

variable {ι : Type*} [DecidableEq ι] (requests : ι → Request)

/-- Requests served side by side; an event is one call of one of them. -/
def site : Machine (Site ι) (ι × Outcome) where
  step s e :=
    (act thumbOf (requests e.1) s.world (s.locals e.1) e.2).map fun p => ⟨p.1, Function.update s.locals e.1 p.2⟩

def Site.opening (w : World) : Site ι := ⟨w, fun _ => .waiting⟩

def Site.upload (s : Site ι) (i : ι) : Option Upload := (s.locals i).upload

variable {thumbOf requests}

theorem site_step {s s' : Site ι} {e : ι × Outcome} (h : (site thumbOf requests).step s e = some s') :
    Effect thumbOf (requests e.1) s.world (s.locals e.1) e.2 s'.world (s'.locals e.1) ∧
      ∀ j, j ≠ e.1 → s'.locals j = s.locals j := by
  obtain ⟨⟨w', l'⟩, ha, rfl⟩ := Option.map_eq_some_iff.mp h
  refine ⟨?_, fun j hj => Function.update_of_ne hj _ _⟩
  change Effect thumbOf _ _ _ _ w' (Function.update s.locals e.1 l' e.1)
  rw [Function.update_self]
  exact act_effect thumbOf ha

theorem upload_other {s s' : Site ι} {e : ι × Outcome} (h : (site thumbOf requests).step s e = some s') {i : ι}
    (hi : i ≠ e.1) : s'.upload i = s.upload i := by
  rw [Site.upload, Site.upload, (site_step h).2 i hi]

theorem site_ordered {s s' : Site ι} {e : ι × Outcome} (h : (site thumbOf requests).step s e = some s')
    (hs : ∀ i, (s.locals i).ordered) (i : ι) : (s'.locals i).ordered := by
  obtain ⟨he, hother⟩ := site_step h
  by_cases hi : i = e.1
  · rw [hi]
    exact he.ordered (hs e.1)
  · rw [hother i hi]
    exact hs i

/-! ## Commands hidden in names -/

def Local.thumbnailing : Local → Option Upload
  | .running o .makeThumbnail => some o
  | _ => none

/-- Before `makeThumbnail` the name is inert in the shell. -/
def InertNames (requests : ι → Request) (s : Site ι) (e : ι × Outcome) : Prop :=
  ∀ _o ∈ (s.locals e.1).thumbnailing, shellInert (requests e.1).name.bytes = true

def Outcome.smuggles : Outcome → Bool
  | .smuggled _ _ => true
  | _ => false

theorem tame_of_not_smuggles {out : Outcome} (h : out.smuggles = false) (w : World) : out.tame w := by
  cases out with
  | smuggled => cases h
  | _ => trivial

/-- Where names are inert no other command is run, so every call is tame. -/
theorem tame_of_inert {s s' : Site ι} {e : ι × Outcome} (hn : InertNames requests s e)
    (h : (site thumbOf requests).step s e = some s') : e.2.tame s.world := by
  obtain ⟨i, out⟩ := e
  cases out with
  | smuggled zero after =>
    obtain ⟨p, ha, -⟩ := Option.map_eq_some_iff.mp h
    obtain ⟨o, hl, hnone, -⟩ := smuggled_act thumbOf ha
    rw [thumbInput_inert (hn o (by rw [hl]; rfl))] at hnone
    cases hnone
  | _ => trivial

/-! ## A sample run -/

def sampleWorld : World := ⟨fun _ => none, fun _ => none, .created⟩

def sampleThumb (video : Bytes) : Bytes := video.take 1

def sampleTmpName : Bytes := str "/tmp/phpA1b2C3"

def laterTmpName : Bytes := str "/tmp/phpD4e5F6"

def sampleEvents (tmpName : Bytes) (a : Attributes) : List Outcome :=
  [.received tmpName, .attributes a, .done, .done, .done, .done, .done, .done, .done, .done]

end Vortex
