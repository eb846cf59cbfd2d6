import WorkflowLint.Keyed

/-! TOML documents as trees of tables, and how lines add to them. Whether a table may be added to
depends on how it came about. -/

set_option autoImplicit false

namespace WorkflowLint.Toml

inductive Origin where
  /-- It has a header of its own. -/
  | header
  /-- A longer header leads through it. -/
  | implied
  /-- A dotted key leads through it. -/
  | dotted
  | inline
  deriving DecidableEq, Repr

inductive Value where
  | string (text : String)
  | integer (value : Int)
  | real
  | bool (value : Bool)
  /-- A date, a time, or both. -/
  | moment
  | array (items : List Value)
  /-- An array whose elements are tables with headers. -/
  | tables (elements : List Value)
  | table (origin : Origin) (entries : List (String × Value))

abbrev Entries := List (String × Value)

/-- Changes the table that a path of keys leads to, through the last elements of arrays of tables.
Tables that are missing on the way are made. A dotted key does not lead through a table with a header,
and nothing leads into an inline one. -/
def updateAt (viaDots : Bool) : List String → (Origin → Entries → Option Entries) → Origin → Entries →
    Option Entries
  | [], change, origin, entries => change origin entries
  | key :: path, change, _, entries =>
    match entries.lookup key with
    | none => do
      let origin := if viaDots then .dotted else .implied
      let inner ← updateAt viaDots path change origin []
      return entries ++ [(key, .table origin inner)]
    | some (.table origin inner) =>
      if origin = .inline || (viaDots && origin = .header) then none
      else do
        let inner ← updateAt viaDots path change origin inner
        return Keyed.put key (.table origin inner) entries
    | some (.tables elements) =>
      match elements.getLast? with
      | some (.table origin inner) => do
        let inner ← updateAt viaDots path change origin inner
        return Keyed.put key (.tables (elements.dropLast ++ [.table origin inner])) entries
      | _ => none
    | some _ => none

/-- Adds a value under a key behind a path of dotted keys, in a table that came about as `origin`. The
key must be new, and the table that the dots lead to must be theirs. -/
def insertDotted (path : List String) (key : String) (value : Value) (origin : Origin)
    (entries : Entries) : Option Entries :=
  updateAt true path (fun origin entries =>
    if decide (origin = .dotted) == path.isEmpty then none
    else if (entries.lookup key).isSome then none
    else some (entries ++ [(key, value)])) origin entries

/-- Opens the table of a header: a new one, or one that was implied. -/
def openTable (path : List String) (key : String) (root : Entries) : Option Entries :=
  updateAt false path (fun _ entries =>
    match entries.lookup key with
    | none => some (entries ++ [(key, .table .header [])])
    | some (.table .implied inner) => some (Keyed.put key (.table .header inner) entries)
    | some _ => none) .header root

def openElement (path : List String) (key : String) (root : Entries) : Option Entries :=
  updateAt false path (fun _ entries =>
    match entries.lookup key with
    | none => some (entries ++ [(key, .tables [.table .header []])])
    | some (.tables elements) => some (Keyed.put key (.tables (elements ++ [.table .header []])) entries)
    | some _ => none) .header root

end WorkflowLint.Toml
