import QuerySql.Json.Writer
import QuerySql.Request.Basic

/-!
# Pages

Which rows of the result a statement returns: how many to skip and how many to take. A page number
from one on skips that many pages, as far as the numbers reach; otherwise the skip is taken as it is
asked for, and none where a negative one is asked for. A page that takes no rows is no page.
-/

namespace QuerySql

structure Page where
  skip : Int64
  take : Int64
  deriving DecidableEq, Repr

namespace Page

/-- The product of two numbers, or the end of their range that it lies beyond. -/
def boundedProduct (a b : Int64) : Int64 :=
  if a.toBitVec.smulOverflow b.toBitVec then
    if decide (a < 0) = decide (b < 0) then Int64.maxValue else Int64.minValue
  else a * b

def asked (defaultLimit : UInt32) (r : Request) : Int64 :=
  (r.take.or r.limit).getD (Int64.ofNat defaultLimit.toNat)

/-- How many rows a request skips without a page number. -/
def offset (r : Request) : Int64 :=
  ((r.skip.or r.offset).filter fun n => 0 ≤ n).getD 0

/-- How many rows the pages up to the number of the request hold, if it has one from one on. -/
def pagesBefore (take : Int64) (r : Request) : Int64 :=
  match r.page with
  | some number => if 1 ≤ number then boundedProduct number take else 0
  | none => 0

/-- How many rows a request skips that takes so many. -/
def skipped (take : Int64) (r : Request) : Int64 :=
  if 0 < pagesBefore take r then pagesBefore take r else offset r

/-- The page that a request asks for, if it takes any rows. -/
def ofRequest? (defaultLimit : UInt32) (r : Request) : Option Page :=
  let take := asked defaultLimit r
  let skip := skipped take r
  if 0 ≤ skip ∧ 1 ≤ take then some ⟨skip, take⟩ else none

def sql (p : Page) : String :=
  "LIMIT " ++ (Number.int p.skip.toInt).text ++ ", " ++ (Number.int p.take.toInt).text

end Page

end QuerySql
