import Mathlib.Data.List.DropRight
import Mathlib.Data.List.Perm.Subperm
import Vortex.SqlLexer

/-!
# The VideoData table

The columns of `config/VideoData.sql` under MySQL's non-strict mode, the table
with its AUTO_INCREMENT counter, and the two statements with request text in
them: the INSERT of `preparedSQL` and the listing SELECT of `index.php`, both
run from their text. `Uploaded` is left out, nothing reads it.
-/

namespace Vortex

open Ascii

/-! ## Columns -/

def varcharColumn (n : Nat) (x : Bytes) : Bytes := x.take n

/-- CHAR columns lose their trailing blanks when read. -/
def charColumn (n : Nat) (x : Bytes) : Bytes := (x.take n).rdropWhile (· == space)

/-- A string stored in a SMALLINT: its leading digits, clamped. -/
def smallintColumn (x : Bytes) : Nat := min 32767 (digitsVal (x.takeWhile isDigit))

def seconds (h m s : Nat) : Nat :=
  if m < 60 ∧ s < 60 then min (h * 3600 + m * 60 + s) (838 * 3600 + 59 * 60 + 59) else 0

/-- A string `H:M` or `H:M:S` stored in a TIME, in seconds. -/
def timeColumn (x : Bytes) : Nat :=
  match (x.splitOn colon).map fun f => digitsVal (f.takeWhile isDigit) with
  | [h, m] => seconds h m 0
  | [h, m, s] => seconds h m s
  | _ => 0

def twoDigits (n : Nat) : Bytes := if n < 10 then zero :: decimal n else decimal n

def timeText (t : Nat) : Bytes :=
  twoDigits (t / 3600) ++ colon :: (twoDigits (t / 60 % 60) ++ colon :: twoDigits (t % 60))

/-! ## Rows and the table -/

structure Row where
  id : Nat
  duration : Nat
  bitrate : Nat
  name : Bytes
  description : Bytes
  uuid : Bytes
  title : Bytes
  ext : Bytes
  deriving DecidableEq

/-- The seven values of one row of an INSERT, in the order of its column list. -/
structure Values where
  uuid : Bytes
  duration : Bytes
  name : Bytes
  description : Bytes
  bitrate : Bytes
  title : Bytes
  ext : Bytes
  deriving DecidableEq

def Values.row (v : Values) (id : Nat) : Row where
  id := id
  duration := timeColumn v.duration
  bitrate := smallintColumn v.bitrate
  name := varcharColumn 127 v.name
  description := varcharColumn 255 v.description
  uuid := charColumn 13 v.uuid
  title := varcharColumn 127 v.title
  ext := charColumn 3 v.ext

def maxId : Nat := 2147483647

/-- Rows in insertion order, which is the order of their ids. -/
structure Table where
  rows : List Row
  nextId : Nat
  sorted : rows.Pairwise fun r r' => r.id < r'.id
  fresh : ∀ r ∈ rows, r.id < nextId
  bound : nextId ≤ maxId + 1

namespace Table

def created : Table where
  rows := []
  nextId := 58
  sorted := List.Pairwise.nil
  fresh := by simp
  bound := by decide

def insert (t : Table) (v : Values) : Option Table :=
  if h : t.nextId ≤ maxId then
    some {
      rows := t.rows ++ [v.row t.nextId]
      nextId := t.nextId + 1
      sorted := by
        rw [List.pairwise_append]
        refine ⟨t.sorted, List.pairwise_singleton .., fun r hr r' hr' => ?_⟩
        rw [List.mem_singleton.mp hr']
        exact t.fresh r hr
      fresh := by
        intro r hr
        rcases List.mem_append.mp hr with hr | hr
        · exact Nat.lt_succ_of_lt (t.fresh r hr)
        · rw [List.mem_singleton.mp hr]; exact Nat.lt_succ_self _
      bound := Nat.succ_le_succ h }
  else none

/-- An INSERT of several rows stores all of them or none. -/
def insertAll : Table → List Values → Option Table
  | t, [] => some t
  | t, v :: vs =>
    match t.insert v with
    | none => none
    | some t' => t'.insertAll vs

def byId (t : Table) (id : Nat) : Option Row := t.rows.find? fun r => r.id == id

/-- `SELECT ID from VideoData where UUID='..'`, first row. -/
def idOfUuid (t : Table) (uuid : Bytes) : Option Nat :=
  (t.rows.find? fun r => r.uuid == uuid).map fun r => r.id

end Table

/-! ## Statements -/

def insertHead : List Token :=
  [.word (str "INSERT"), .word (str "INTO"), .word (str "VideoData"), .punct lparen, .word (str "UUID"),
    .punct comma, .word (str "Duration"), .punct comma, .word (str "Name"), .punct comma,
    .word (str "Description"), .punct comma, .word (str "Bitrate"), .punct comma, .word (str "Title"),
    .punct comma, .word (str "Ext"), .punct rparen, .word (str "VALUES")]

def selectHead : List Token :=
  [.word (str "SELECT"), .word (str "ID"), .punct comma, .word (str "UUID"), .punct comma, .word (str "Ext"),
    .punct comma, .word (str "Title"), .word (str "FROM"), .word (str "VideoData"), .word (str "LIMIT")]

/-- One or more rows of seven string literals, and an optional semicolon. -/
def parseRows : List Token → Option (List Values)
  | .punct o :: .str u :: .punct c₁ :: .str d :: .punct c₂ :: .str n :: .punct c₃ :: .str e :: .punct c₄ ::
      .str b :: .punct c₅ :: .str t :: .punct c₆ :: .str x :: .punct c₇ :: ts =>
    if [o, c₁, c₂, c₃, c₄, c₅, c₆, c₇] = str "(,,,,,,)" then
      match ts with
      | [] => some [⟨u, d, n, e, b, t, x⟩]
      | [.punct s] => if s = 59 then some [⟨u, d, n, e, b, t, x⟩] else none
      | .punct c :: ts => if c = comma then (parseRows ts).map (⟨u, d, n, e, b, t, x⟩ :: ·) else none
      | _ => none
    else none
  | _ => none

def stripHead (head ts : List Token) : Option (List Token) :=
  if head.isPrefixOf ts then some (ts.drop head.length) else none

def readInsert (text : Bytes) : Option (List Values) :=
  match lexSql text with
  | none => none
  | some ts => (stripHead insertHead ts).bind parseRows

/-- The offset and the row count of the listing query. -/
def readSelect (text : Bytes) : Option (Nat × Nat) :=
  match lexSql text with
  | none => none
  | some ts =>
    match stripHead selectHead ts with
    | some [.int off, .punct c, .int n] => if c = comma then some (off, n) else none
    | _ => none

namespace Table

/-- `query()` on the INSERT: `none` is its result `false`. -/
def execInsert (t : Table) (text : Bytes) : Option Table := (readInsert text).bind t.insertAll

/-- `query()` on the listing SELECT; without ORDER BY the rows come in
insertion order. -/
def execSelect (t : Table) (text : Bytes) : Option (List Row) :=
  (readSelect text).map fun p => (t.rows.drop p.1).take p.2

end Table

/-! ## What inserting keeps -/

theorem Table.insert_rows {t t' : Table} {v : Values} (h : t.insert v = some t') :
    t'.rows = t.rows ++ [v.row t.nextId] ∧ t'.nextId = t.nextId + 1 := by
  unfold Table.insert at h
  split at h
  · cases h; exact ⟨rfl, rfl⟩
  · cases h

theorem Table.insertAll_rows : ∀ {vs : List Values} {t t' : Table}, t.insertAll vs = some t' →
    ∃ new, t'.rows = t.rows ++ new ∧ new.length = vs.length ∧ ∀ r ∈ new, ∃ v ∈ vs, ∃ id, r = v.row id
  | [], t, t', h => by
    cases h
    exact ⟨[], by simp, rfl, by simp⟩
  | v :: vs, t, t', h => by
    unfold Table.insertAll at h
    split at h
    · cases h
    · rename_i t₁ h₁
      obtain ⟨new, hr, hl, hm⟩ := insertAll_rows h
      refine ⟨v.row t.nextId :: new, ?_, by simp [hl], ?_⟩
      · rw [hr, (Table.insert_rows h₁).1]; simp
      · intro r hr
        rcases List.mem_cons.mp hr with rfl | hr
        · exact ⟨v, List.mem_cons_self .., _, rfl⟩
        · obtain ⟨w, hw, id, rfl⟩ := hm r hr
          exact ⟨w, List.mem_cons_of_mem _ hw, id, rfl⟩

theorem Table.byId_of_mem (t : Table) {r : Row} (hr : r ∈ t.rows) : t.byId r.id = some r := by
  have key : ∀ l : List Row, l.Pairwise (fun r r' => r.id < r'.id) → r ∈ l → l.find? (fun r' => r'.id == r.id) = some r := by
    intro l hl hm
    induction l with
    | nil => cases hm
    | cons a l ih =>
      rw [List.pairwise_cons] at hl
      rcases List.mem_cons.mp hm with rfl | hm
      · simp
      · have : a.id ≠ r.id := Nat.ne_of_lt (hl.1 r hm)
        rw [List.find?_cons_of_neg (by simpa using this)]
        exact ih hl.2 hm
  exact key t.rows t.sorted hr

theorem Table.idOfUuid_some {t : Table} {u : Bytes} {v : Nat} (h : t.idOfUuid u = some v) :
    ∃ r ∈ t.rows, r.uuid = u ∧ r.id = v := by
  obtain ⟨r, hr, rfl⟩ := Option.map_eq_some_iff.mp h
  exact ⟨r, List.mem_of_find?_eq_some hr, by simpa using List.find?_some hr, rfl⟩

theorem Table.length_le (t : Table) : t.rows.length ≤ maxId + 1 := by
  have key : ∀ (l : List Row) (n : Nat), l.Pairwise (fun r r' => r.id < r'.id) → (∀ r ∈ l, r.id < n) → l.length ≤ n := by
    intro l n hl hn
    have hnd : (l.map fun r => r.id).Nodup := by
      rw [List.Nodup, List.pairwise_map]
      exact hl.imp fun h => Nat.ne_of_lt h
    have hsub : (l.map fun r => r.id) ⊆ List.range n := by
      intro i hi
      obtain ⟨r, hr, rfl⟩ := List.mem_map.mp hi
      exact List.mem_range.mpr (hn r hr)
    simpa using (List.subperm_of_subset hnd hsub).length_le
  exact Nat.le_trans (key t.rows t.nextId t.sorted t.fresh) t.bound

end Vortex
