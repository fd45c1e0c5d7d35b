import Vortex.Numerals
import Vortex.VideoPlayer

/-!
# player.php: from the path to the row

The id in the URL is any text. `is_numeric` alone stands between it and a
query without quotes, so what counts is whether MySQL finds the same number
in it.
-/

namespace Vortex

open Ascii

/-- `trim($video_id, '/')`. -/
def trimSlashes (path : Bytes) : Bytes := (path.dropWhile (· == slash)).rdropWhile (· == slash)

def playerQuery (id : Bytes) : Bytes := str "SELECT * from VideoData where ID=" ++ id

/-- What follows `where ID=`. -/
def idCondition (text : Bytes) : Option Bytes :=
  if (playerQuery []).isPrefixOf text then some (text.drop (playerQuery []).length) else none

/-- `query()`, which returns `false` for `none`. What MySQL makes of a condition
that is not a single operand is left to `other`. -/
def Table.query (other : Bytes → Option (List Row)) (t : Table) (text : Bytes) : Option (List Row) :=
  match (idCondition text).bind readOperand with
  | some (negative, .literal n) =>
    if n.overflows then none else some (t.rows.filter fun r => (r.id : ℚ) = signed negative n.sqlNumber)
  -- an unknown column: no column begins with a digit
  | some (_, .word _) => none
  | none => other text

inductive PlayerExit
  | play (p : Play)
  -- `fetch_array` on `false`
  | fatal

structure PlayerVisit where
  queries : List Bytes
  exit : PlayerExit

/-- The rest of `startPlayer`, from the fetched row on. -/
def playRow : Option Row → Play
  | none => .error 41
  | some r =>
    match buildPlayer r with
    | none => .error 61
    | some p => .page p

namespace VideoPlayer

variable (other : Bytes → Option (List Row))

/-- A database that cannot be reached is `none`. -/
def startPlayer (db : Option Table) (videoId : Bytes) : PlayerVisit :=
  if !isNumeric videoId then ⟨[], .play (.error 41)⟩
  else
    match db with
    | none => ⟨[], .play (.error 31)⟩
    | some t =>
      match t.query other (playerQuery videoId) with
      | none => ⟨[playerQuery videoId], .fatal⟩
      | some rows => ⟨[playerQuery videoId], .play (playRow rows.head?)⟩

def player (db : Option Table) (path : Bytes) : PlayerVisit := startPlayer other db (trimSlashes path)

end VideoPlayer

/-! ## The query of a numeral -/

theorem idCondition_playerQuery (id : Bytes) : idCondition (playerQuery id) = some id := by
  have hp : playerQuery id = playerQuery [] ++ id := rfl
  rw [idCondition, hp, if_pos (List.isPrefixOf_iff_prefix.mpr ⟨id, rfl⟩), List.drop_left]

section
variable {other : Bytes → Option (List Row)} {t : Table} {id : Bytes} {negative : Bool} {n : Numeral}

theorem query_word {w : Bytes} (h : readOperand id = some (negative, .word w)) :
    t.query other (playerQuery id) = none := by
  rw [Table.query, idCondition_playerQuery, Option.bind_some, h]

theorem query_literal (h : readOperand id = some (negative, .literal n)) :
    t.query other (playerQuery id) = if n.overflows then none
      else some (t.rows.filter fun r => (r.id : ℚ) = signed negative n.sqlNumber) := by
  rw [Table.query, idCondition_playerQuery, Option.bind_some, h]

theorem startPlayer_of_isNumeric (h : isNumeric id = true) :
    VideoPlayer.startPlayer other (some t) id = ⟨[playerQuery id],
      match t.query other (playerQuery id) with
      | none => .fatal
      | some rows => .play (playRow rows.head?)⟩ := by
  rw [VideoPlayer.startPlayer, h]
  simp only [Bool.not_true, Bool.false_eq_true, if_false]
  split <;> rfl

theorem startPlayer_of_not_numeric (h : isNumeric id = false) (db : Option Table) :
    VideoPlayer.startPlayer other db id = ⟨[], .play (.error 41)⟩ := by
  unfold VideoPlayer.startPlayer
  rw [h]
  rfl

theorem isNumeric_of (h : phpNumber id = some (negative, n)) : isNumeric id = true := by
  rw [isNumeric, h]
  rfl

end

/-- A numeric id that MySQL does not take for a number, or that is out of range. -/
def IdRefused (id : Bytes) : Prop :=
  ∃ negative n, phpNumber id = some (negative, n) ∧ (hasUpperPrefix id = true ∨ n.overflows = true)

/-- Exactly then `fetch_array` is called on `false`. -/
theorem player_fatal_iff (other : Bytes → Option (List Row)) (t : Table) (path : Bytes) :
    (VideoPlayer.player other (some t) path).exit = .fatal ↔ IdRefused (trimSlashes path) := by
  rw [VideoPlayer.player, IdRefused]
  cases hn : phpNumber (trimSlashes path) with
  | none =>
    have hnum : isNumeric (trimSlashes path) = false := by rw [isNumeric, hn]; rfl
    rw [startPlayer_of_not_numeric hnum]
    simp
  | some number =>
    obtain ⟨negative, n⟩ := number
    have hop := readOperand_of_phpNumber hn
    rw [startPlayer_of_isNumeric (isNumeric_of hn)]
    by_cases hu : hasUpperPrefix (trimSlashes path) = true
    · rw [if_pos hu] at hop
      rw [query_word hop]
      exact iff_of_true rfl ⟨negative, n, rfl, .inl hu⟩
    · rw [if_neg hu] at hop
      rw [query_literal hop]
      by_cases ho : n.overflows = true
      · rw [if_pos ho]
        exact iff_of_true rfl ⟨negative, n, rfl, .inr ho⟩
      · simp [ho, hu]

/-! ## The check and the query -/

theorem signed_inj {negative : Bool} {u v : ℚ} : signed negative u = signed negative v ↔ u = v := by
  cases negative
  · rfl
  · exact neg_inj

/-- Either error 41 before any query, or one query that compares the ID with a
literal of the number PHP reads, and succeeds: the exit is that of the row with
this ID, error 41 without one. -/
def IdMatches (other : Bytes → Option (List Row)) (t : Table) (path : Bytes) : Prop :=
  let id := trimSlashes path
  let visit := VideoPlayer.player other (some t) path
  (visit.queries = [] ∧ visit.exit = .play (.error 41)) ∨
    ∃ negative n v sign literal, phpNumber id = some (negative, n) ∧ n.number = some v ∧
      visit.queries = [playerQuery id] ∧ readOperand id = some (sign, .literal literal) ∧
      signed sign literal.sqlNumber = signed negative v ∧ (t.query other (playerQuery id)).isSome ∧
      visit.exit = .play (playRow (t.rows.find? fun r => (r.id : ℚ) = signed negative v))

/-- A numeric id has no prefix `0X`, and its numeral fits. -/
def IdFits (id : Bytes) : Prop :=
  ∀ negative n, phpNumber id = some (negative, n) → hasUpperPrefix id = false ∧ n.Fits

theorem xdigits_of_phpNumber {id : Bytes} {negative : Bool} {n : Numeral} (h : phpNumber id = some (negative, n)) :
    ∀ digits, n = .hex digits → digits.all isXDigit = true := by
  rintro digits rfl
  rcases phpNumber_cases h with ⟨t, -, hx, -, ht, -⟩ | ⟨hm, -⟩
  · cases ht
    exact hx
  · exact absurd rfl (phpDecimal_not_hex hm digits)

theorem idMatches_of_fits {other : Bytes → Option (List Row)} {t : Table} {path : Bytes} {negative : Bool}
    {n : Numeral} (hn : phpNumber (trimSlashes path) = some (negative, n)) (h : IdFits (trimSlashes path)) :
    IdMatches other t path := by
  obtain ⟨hu, hfits⟩ := h negative n hn
  obtain ⟨ho, hnumber⟩ := (number_iff_fits (xdigits_of_phpNumber hn)).mpr hfits
  have hop := readOperand_of_phpNumber hn
  rw [hu] at hop
  have hq := @query_literal other t _ _ _ hop
  rw [ho, if_neg Bool.false_ne_true] at hq
  have hv := @startPlayer_of_isNumeric other t _ (isNumeric_of hn)
  simp only [hq, List.head?_filter] at hv
  refine .inr ⟨negative, n, _, negative, n, hn, hnumber, ?_, hop, rfl, ?_, ?_⟩
  · rw [VideoPlayer.player, hv]
  · rw [hq]
    rfl
  · rw [VideoPlayer.player, hv]

theorem fits_of_idMatches {other : Bytes → Option (List Row)} {t : Table} {path : Bytes} {negative : Bool}
    {n : Numeral} (hn : phpNumber (trimSlashes path) = some (negative, n)) (h : IdMatches other t path) :
    hasUpperPrefix (trimSlashes path) = false ∧ n.Fits := by
  have hop := readOperand_of_phpNumber hn
  have hv := @startPlayer_of_isNumeric other t _ (isNumeric_of hn)
  rcases h with ⟨hq, -⟩ | ⟨negative', n', v, sign, literal, hn', hnumber, -, hop', heq, hsome, -⟩
  · rw [VideoPlayer.player, hv] at hq
    cases hq
  · rw [hop] at hop'
    by_cases hu : hasUpperPrefix (trimSlashes path) = true
    · rw [if_pos hu] at hop'
      cases hop'
    · rw [if_neg hu] at hop hop'
      cases hop'
      rw [hn] at hn'
      cases hn'
      obtain rfl := signed_inj.mp heq
      refine ⟨by simpa using hu, (number_iff_fits (xdigits_of_phpNumber hn)).mp ⟨?_, hnumber⟩⟩
      rw [query_literal hop] at hsome
      by_contra ho
      rw [if_pos (by simpa using ho)] at hsome
      cases hsome

theorem idMatches_iff (other : Bytes → Option (List Row)) (t : Table) (path : Bytes) :
    IdMatches other t path ↔ IdFits (trimSlashes path) := by
  constructor
  · intro h negative n hn
    exact fits_of_idMatches hn h
  · intro h
    cases hn : phpNumber (trimSlashes path) with
    | none =>
      have hnum : isNumeric (trimSlashes path) = false := by rw [isNumeric, hn]; rfl
      refine .inl ?_
      rw [VideoPlayer.player, startPlayer_of_not_numeric hnum]
      exact ⟨rfl, rfl⟩
    | some p => exact idMatches_of_fits hn h

/-- `is_numeric` takes `0X1A`; MySQL looks for a column of this name. -/
theorem upper_hex_fatal : ¬ IdMatches (fun _ => none) .created (str "/0X1A") := by
  have hop : readOperand (trimSlashes (str "/0X1A")) = some (false, .word (str "0X1A")) := by decide +kernel
  have hnum : isNumeric (trimSlashes (str "/0X1A")) = true := by decide +kernel
  rintro (⟨hq, -⟩ | ⟨_, _, _, _, _, -, -, -, h, -⟩)
  · rw [VideoPlayer.player, startPlayer_of_isNumeric hnum] at hq
    cases hq
  · rw [hop] at h
    cases h

/-! ## The ids that the site links to -/

theorem trimSlashes_decimal (n : Nat) : trimSlashes (slash :: decimal n) = decimal n := by
  have hd := decimal_ne (c := slash) (by decide) n
  have hl : (slash :: decimal n).dropWhile (· == slash) = decimal n := by
    rw [List.dropWhile_cons_of_pos (by simp), List.dropWhile_eq_self_iff]
    intro hlen
    simpa using hd _ (List.getElem_mem hlen)
  rw [trimSlashes, hl, List.rdropWhile_eq_self_iff]
  intro hne
  simpa using hd _ (List.getLast_mem hne)

theorem takeWhile_decimal (n : Nat) : (decimal n).takeWhile isDigit = decimal n :=
  List.takeWhile_eq_self_iff.mpr (decimal_digits n)

theorem dropWhile_decimal (n : Nat) : (decimal n).dropWhile isDigit = [] :=
  List.dropWhile_eq_nil_iff.mpr (decimal_digits n)

theorem phpNumber_decimal (n : Nat) : phpNumber (decimal n) = some (false, .integer (decimal n)) := by
  obtain ⟨c, y, hc⟩ := List.exists_cons_of_ne_nil (decimal_ne_nil n)
  have hd := fun e he => decimal_ne (c := e) he n c (hc ▸ List.mem_cons_self ..)
  have hspace : isPhpSpace c = false := by
    simp [isPhpSpace, hd 32 (by decide), hd 9 (by decide), hd 10 (by decide), hd 13 (by decide), hd 11 (by decide),
      hd 12 (by decide)]
  have hdrop : (decimal n).dropWhile isPhpSpace = decimal n := by
    rw [hc, List.dropWhile_cons_of_neg (by simp [hspace])]
  have hhex : hasHexPrefix (decimal n) = false := by
    rw [Bool.eq_false_iff]
    intro hp
    rcases (hasHexPrefix_iff.mp hp).2 with h | h
    · exact decimal_ne (c := 120) (by decide) n 120 (by rw [h]; simp) rfl
    · exact decimal_ne (c := 88) (by decide) n 88 (by rw [h]; simp) rfl
  have hsign : readSign (decimal n) = (false, decimal n) := by
    rw [hc, readSign, if_neg (hd dash (by decide)), if_neg (hd 43 (by decide))]
  simp only [phpNumber, hdrop, hhex, hsign, phpDecimal, takeWhile_decimal, dropWhile_decimal, decimal_ne_nil,
    Bool.false_eq_true, if_false, Option.map_some]

theorem sqlNumber_decimal (n : Nat) : signed false (Numeral.integer (decimal n)).sqlNumber = n := by
  simp [signed, Numeral.sqlNumber, Numeral.value]

/-- With a natural number in its path the player is `startPlayer` of this id. -/
theorem player_decimal (other : Bytes → Option (List Row)) (t : Table) (n : Nat) :
    VideoPlayer.player other (some t) (slash :: decimal n) =
      ⟨[playerQuery (decimal n)], .play (startPlayer t n)⟩ := by
  have hn := phpNumber_decimal n
  have hu : hasUpperPrefix (decimal n) = false := by
    rw [hasUpperPrefix, Bool.eq_false_iff]
    intro hp
    obtain ⟨r, hr⟩ := List.isPrefixOf_iff_prefix.mp hp
    have hx : (88 : Byte) ∈ decimal n :=
      (List.dropWhile_suffix _).subset (hr ▸ List.mem_append_left _ (by decide +kernel))
    exact decimal_ne (by decide) n 88 hx rfl
  have hop := readOperand_of_phpNumber hn
  rw [hu, if_neg Bool.false_ne_true] at hop
  have hq := @query_literal other t _ _ _ hop
  have hfind : (t.rows.find? fun r => decide ((r.id : ℚ) = n)) = t.byId n :=
    congrArg (t.rows.find? ·) (funext fun r => by simp [beq_eq_decide])
  rw [VideoPlayer.player, trimSlashes_decimal, startPlayer_of_isNumeric (isNumeric_of hn), hq]
  simp only [Numeral.overflows, Bool.false_eq_true, if_false, List.head?_filter, sqlNumber_decimal, hfind]
  rfl

end Vortex
