/- Placeholder tables as they are kept.

   A source counts the tokens that it has given. Names are kept twice, under their tokens and with their tokens
   under themselves, so that either is found by the other; literals are kept under their tokens. -/

import TableQuery.Expression.Tables

set_option autoImplicit false
set_option relaxedAutoImplicit false

namespace TableQuery

/-- What stands under texts, in the order in which the texts were first set. -/
abbrev Dictionary (α : Type) := List (Text × α)

namespace Dictionary

variable {α : Type}

def get? (entries : Dictionary α) (key : Text) : Option α :=
  (entries.find? fun entry => entry.1 = key).map (·.2)

def set (entries : Dictionary α) (key : Text) (a : α) : Dictionary α :=
  match entries with
  | [] => [(key, a)]
  | entry :: rest => if entry.1 = key then (key, a) :: rest else entry :: set rest key a

end Dictionary

/-- A source of tokens, and the number of those that it has given. -/
structure TokenSource where
  stem : Text
  given : Nat
  deriving DecidableEq, Repr

namespace TokenSource

def next (source : TokenSource) : Text × TokenSource :=
  (token source.stem source.given, { source with given := source.given + 1 })

end TokenSource

/-- The attribute names of an expression by their tokens, and the tokens by the names. -/
structure NameDictionaries where
  source : TokenSource
  byToken : Dictionary Text
  byName : Dictionary Text
  deriving DecidableEq, Repr

namespace NameDictionaries

def empty (stem : Text) : NameDictionaries := ⟨⟨stem, 0⟩, [], []⟩

def tokenFor (names : NameDictionaries) (name : Text) : Text × NameDictionaries :=
  match names.byName.get? name with
  | some t => (t, names)
  | none =>
    let (t, source) := names.source.next
    (t, { source, byToken := names.byToken.set t name, byName := names.byName.set name t })

end NameDictionaries

/-- The literals of an expression by their tokens. -/
structure ValueDictionary where
  source : TokenSource
  byToken : Dictionary Value
  deriving Repr

namespace ValueDictionary

def empty (stem : Text) : ValueDictionary := ⟨⟨stem, 0⟩, []⟩

def tokenFor (values : ValueDictionary) (value : Value) : Text × ValueDictionary :=
  let (t, source) := values.source.next
  (t, { source, byToken := values.byToken.set t value })

end ValueDictionary

structure Dictionaries where
  names : NameDictionaries
  values : ValueDictionary
  deriving Repr

namespace Dictionaries

def empty (nameStem valueStem : Text) : Dictionaries := ⟨.empty nameStem, .empty valueStem⟩

end Dictionaries

end TableQuery
