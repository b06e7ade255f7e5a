/- Sorting where the order may be partial or fail.

   The run that the list starts with is taken first, turned round when it descends. Each further value is
   then put into its place, which is found by halving. Where every two values are ordered the result is
   the one stable order; elsewhere it depends on the comparisons, so these are fixed here. -/

import TableQuery.Fault

set_option autoImplicit false
set_option relaxedAutoImplicit false

namespace TableQuery.Sorting

/-- Splits off the values that continue a run after the given one. Each value of a descending run is
less than the one before it, and no value of another run is. -/
def runAfter {α : Type} (less : α → α → Except Fault Bool) (descending : Bool) :
    α → List α → Except Fault (List α × List α)
  | _, [] => .ok ([], [])
  | before, a :: rest => do
    if (← less a before) = descending then
      let (run, rest) ← runAfter less descending a rest
      return (a :: run, rest)
    else return ([], a :: rest)

/-- Splits off the run that a list starts with; a descending one is turned round. -/
def firstRun {α : Type} (less : α → α → Except Fault Bool) :
    List α → Except Fault (List α × List α)
  | [] => .ok ([], [])
  | [a] => .ok ([a], [])
  | a :: b :: rest => do
    let descending ← less b a
    let (run, rest) ← runAfter less descending b rest
    let whole := a :: b :: run
    return (if descending then whole.reverse else whole, rest)

/-- Puts a value before or after the one in the middle of a list, and so on in that half. A list of at
most `fuel` values is halved until nothing is left of it. -/
def insert {α : Type} (less : α → α → Except Fault Bool) (a : α) :
    Nat → List α → Except Fault (List α)
  | 0, values => .ok (a :: values)
  | fuel + 1, values =>
    let front := values.take (values.length / 2)
    match values.drop (values.length / 2) with
    | [] => .ok [a]
    | middle :: back => do
      if ← less a middle then return (← insert less a fuel front) ++ middle :: back
      else return front ++ middle :: (← insert less a fuel back)

def sorted {α : Type} (less : α → α → Except Fault Bool) (values : List α) :
    Except Fault (List α) := do
  let (run, rest) ← firstRun less values
  rest.foldlM (fun placed a => insert less a placed.length placed) run

end TableQuery.Sorting
