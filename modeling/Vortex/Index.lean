import Vortex.VideoData

/-!
# index.php

The listing page: the query with the visitor's `More` value in its LIMIT
clause, one entry for each row fetched, and the value the More button carries.
-/

namespace Vortex

open Ascii

def bucketUrl (key : Bytes) : Bytes := str "https://s3-us-west-2.amazonaws.com/vortex-bucket/" ++ key

def imageUrl (r : Row) : Bytes := bucketUrl (r.uuid ++ str ".jpg")

def playerUrl (r : Row) : Bytes := str "http://www.videovortex.stream/php/player.php/" ++ decimal r.id

def entry (r : Row) : Bytes :=
  str "\n" ++ str "<div class=\"col-lg-4 col-sm-5 col-xs-6\"> <a href=\"" ++ playerUrl r ++
    str "\" class=\"thumbnail-attr\"> <img src=\"" ++ imageUrl r ++ str "\" class=\"img-responsive\"> </a> <h3>" ++
    r.title ++ str "</h3> </div>" ++ str "\n"

def selectText (starting_row : Bytes) : Bytes :=
  str "SELECT ID, UUID, Ext, Title FROM VideoData LIMIT " ++ starting_row ++ str ",15"

/-- A string as PHP's `+` reads it when it holds no sign, fraction or exponent. -/
def phpInt (x : Bytes) : Nat :=
  digitsVal ((x.dropWhile fun c => c == 32 || (9 ≤ c && c ≤ 13)).takeWhile isDigit)

structure Listing where
  rows : List Row
  -- the value of the More button
  next : Bytes

def startingRow (more : Option Bytes) : Bytes :=
  match more with
  | some x => x
  | none => str "0"

/-- The query is the listing's own: it does not fail, and fetches nothing else. -/
def listingMore (more : Option Bytes) : Bool := (readSelect (selectText (startingRow more))).isSome

/-- Without such a query no rows are fetched here; what MySQL and PHP then print
is left out. Fifteen rows are only fetched below an offset that fits an
integer, so the sum is exact. -/
def index (t : Table) (more : Option Bytes) : Listing :=
  let starting_row := startingRow more
  let vid_array := (t.execSelect (selectText starting_row)).getD []
  { rows := vid_array
    next := if vid_array.length < 15 then str "0" else decimal (phpInt starting_row + 15) }

def Listing.html (l : Listing) : Bytes :=
  str "<div class=\"container\"> <div class=\"row\">" ++ l.rows.flatMap entry ++ str "</div>" ++ str "\n"

end Vortex
