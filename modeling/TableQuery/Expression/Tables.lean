/- Placeholder tables.

   An expression refers to attribute names and to literals by tokens. A token is the stem of its table
   followed by the index of its entry. A name has one token however often it occurs; every occurrence of
   a literal has its own. -/

import TableQuery.Value.Conversion

set_option autoImplicit false
set_option relaxedAutoImplicit false

namespace TableQuery

/-- The attribute names of an expression, in the order of their first occurrence. -/
structure NameTable where
  stem : Text
  names : List Text
  deriving Repr

/-- The literals of an expression, in the order of their occurrence. -/
structure ValueTable where
  stem : Text
  values : List Value
  deriving Repr

def token (stem : Text) (index : Nat) : Text := stem ++ Text.ofNat index

def tokens (stem : Text) (count : Nat) : List Text := (List.range count).map (token stem)

/-- A stem for tokens; it must not be empty. -/
def checkStem (stem : Text) : Except Fault Text :=
  if stem.isEmpty then .error (.unusable .stemMissing) else .ok stem

namespace NameTable

def requestStem : Text := "#_a"

def empty (stem : Text) : NameTable := ⟨stem, []⟩

def entries (table : NameTable) : List (Text × Text) :=
  table.names.zipIdx.map fun (name, index) => (token table.stem index, name)

def resolve? (table : NameTable) (t : Text) : Option Text :=
  (table.entries.find? fun entry => entry.1 = t).map (·.2)

/-- The token of a name, and the table that holds it. -/
def intern (table : NameTable) (name : Text) : Text × NameTable :=
  match table.names.idxOf? name with
  | some index => (token table.stem index, table)
  | none =>
    (token table.stem table.names.length, { table with names := table.names ++ [name] })

end NameTable

namespace ValueTable

def requestStem : Text := ":_a"

def empty (stem : Text) : ValueTable := ⟨stem, []⟩

def entries (table : ValueTable) : List (Text × Value) :=
  table.values.zipIdx.map fun (value, index) => (token table.stem index, value)

def resolve? (table : ValueTable) (t : Text) : Option Value :=
  (table.entries.find? fun entry => entry.1 = t).map (·.2)

/-- A fresh token for a literal, and the table that holds it. -/
def add (table : ValueTable) (value : Value) : Text × ValueTable :=
  (token table.stem table.values.length, { table with values := table.values ++ [value] })

end ValueTable

structure Tables where
  names : NameTable
  values : ValueTable
  deriving Repr

namespace Tables

def fresh : Tables := ⟨.empty NameTable.requestStem, .empty ValueTable.requestStem⟩

end Tables

/-- Compiling fills the tables; what was entered before a fault stays. -/
abbrev Compiling := ExceptT Fault (StateM Tables)

namespace Compiling

/-- A token for an attribute name, which must be a text that is not empty. -/
def name (v : Value) : Compiling Text :=
  match v with
  | .text (c :: rest) => fun tables =>
    let (t, names) := tables.names.intern (c :: rest)
    (.ok t, { tables with names })
  | _ => do throw (.refused (.nameUnusable (← v.quote)))

def value (v : Value) : Compiling Text := fun tables =>
  let (t, values) := tables.values.add v
  (.ok t, { tables with values })

/-- Runs with the given tables; gives the outcome and the tables afterwards. -/
def runOn {α : Type} (action : Compiling α) (tables : Tables) : Except Fault α × Tables :=
  action.run tables

end Compiling

end TableQuery
