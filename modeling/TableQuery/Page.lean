/- Pages: what one answer of the service brings. -/

import TableQuery.Attribute.Decoding
import TableQuery.Cursor

set_option autoImplicit false
set_option relaxedAutoImplicit false

namespace TableQuery

structure Page where
  items : List Value
  count : Int
  scannedCount : Int
  lastKey : Value
  consumedCapacity : Value
  truncated : Bool
  deriving Inhabited, Repr

namespace Page

/-- A count that an answer gives; without one the number of items counts. -/
def countOr (given : Value) (default : Nat) : Except Fault Int :=
  if given.isNull then .ok default else given.toInteger

/-- The items that an answer holds; an answer without items holds none. -/
def itemsOf (given : Value) : Except Fault (List Value) :=
  if given.isTruthy then given.elements else .ok []

/-- The page of an answer. A last key without content is none. -/
def ofResponse (response : Record) : Except Fault Page := do
  let items ← itemsOf (response.get "Items")
  let count ← countOr (response.get "Count") items.length
  let scannedCount ← countOr (response.get "ScannedCount") items.length
  let lastKey := response.get "LastEvaluatedKey"
  return { items, count, scannedCount
           lastKey := if lastKey.isTruthy then lastKey else .null
           consumedCapacity := response.get "ConsumedCapacity"
           truncated := false }

/-- The cursor to go on from, if the page has a last key. -/
def nextCursor (page : Page) : Except Fault (Option Text) :=
  if page.lastKey.isTruthy then (Cursor.encode page.lastKey).map some else .ok none

def plainItem (item : Value) : Except Fault Record := do
  Attribute.decodeEntries (← item.entries)

def plainItems (page : Page) : Except Fault (List Record) := page.items.mapM plainItem

/-- The page cut to its first items, with their number as its count. -/
def truncate (page : Page) (allowance : Int) : Page :=
  { page with items := page.items.take allowance.toNat, count := allowance, truncated := true }

end Page

end TableQuery
