import Depfile.Number.Binary64
import Depfile.Text.Blank

/-!
# Trees of TOML data

A TOML document is a table: a list of keys with their values, in the order in which they were
written. A table remembers how it came into being, because that decides what may still be added
to it. Tables are reached and changed through paths of keys.
-/

namespace Depfile.Toml

/-- How a table came into being: between braces, under a header of its own, as a parent in the
header of another table, or as a parent in a dotted key. -/
inductive Origin where
  | inline
  | header
  | implied
  | dotted
deriving DecidableEq, Repr

/-- A value. Of a date or a time it is only kept that it is one. -/
inductive Node where
  | text (value : Text)
  | integer (value : Int)
  | float (value : Binary64)
  | boolean (value : Bool)
  | moment
  | array (items : List Node)
  | table (origin : Origin) (entries : List (Text × Node))
  | tables (items : List (List (Text × Node)))
deriving Repr

/-- The entries of a table, in order. -/
abbrev Entries := List (Text × Node)

namespace Entries

/-- The entries with the value of a key replaced. -/
def set (key : Text) (node : Node) (entries : Entries) : Entries :=
  entries.map (fun entry => if entry.1 = key then (key, node) else entry)

/-- The entries without a key. -/
def erase (key : Text) (entries : Entries) : Entries :=
  entries.filter (fun entry => !decide (entry.1 = key))

/-- Go down a path of keys, creating the tables that are missing, and change the table at its end
with `change`, which is given the table's origin and entries. A path that comes from a dotted
key may not enter a table with a header, and nothing may enter an inline table. In a list of
tables the path goes on in the last one. -/
def modify {α : Type} (dotted : Bool) (change : Origin → Entries → Option (Entries × α)) :
    List Text → Origin → Entries → Option (Entries × α)
  | [], origin, entries => change origin entries
  | key :: path, _, entries =>
    match entries.lookup key with
    | none => do
      let origin := if dotted then Origin.dotted else Origin.implied
      let (inner, result) ← modify dotted change path origin []
      return (entries ++ [(key, .table origin inner)], result)
    | some (.table origin inner) =>
      -- Inline tables are complete, and dotted keys do not add to a table from outside its header.
      if origin = .inline ∨ (dotted = true ∧ origin = .header) then
        none
      else do
        let (inner, result) ← modify dotted change path origin inner
        return (set key (.table origin inner) entries, result)
    | some (.tables items) =>
      match items.getLast? with
      | none => none
      | some last => do
        let (last, result) ← modify dotted change path .header last
        return (set key (.tables (items.dropLast ++ [last])) entries, result)
    | some _ => none

/-- Add the value of a dotted key to a table that is being written. The tables on the way must
have been made by dotted keys, and the key must be new. -/
def insert (path : List Text) (key : Text) (node : Node) (entries : Entries) : Option Entries :=
  let change (origin : Origin) (entries : Entries) : Option (Entries × Unit) :=
    -- The table itself is not dotted, and a table that a dotted key leads to is.
    if (origin == .dotted) == path.isEmpty then
      none
    else if (entries.lookup key).isSome then
      none
    else
      some (entries ++ [(key, node)], ())
  (modify true change path .header entries).map Prod.fst

end Entries

/-! ## Documents in the making -/

/-- A document up to some line: the tables that are finished, and the table that lines are being
added to, with the path in its header. -/
structure Draft where
  finished : Entries
  path : List Text
  isElement : Bool
  entries : Entries

namespace Draft

/-- The start of a document, where lines go to the root table. -/
def empty : Draft :=
  ⟨[], [], false, []⟩

/-- The tables of a document when the table that is being written is finished. It comes last in
the table that holds it. -/
def close (draft : Draft) : Option Entries :=
  match draft.path.getLast? with
  | none => some draft.entries
  | some key =>
    let change (_ : Origin) (entries : Entries) : Option (Entries × Unit) :=
      match entries.lookup key, draft.isElement with
      | none, true => some (entries ++ [(key, .tables [draft.entries])], ())
      | some (.tables items), true =>
        some (Entries.set key (.tables (items ++ [draft.entries])) entries, ())
      | none, false => some (entries ++ [(key, .table .header draft.entries)], ())
      | _, _ => none
    (Entries.modify false change draft.path.dropLast .header draft.finished).map Prod.fst

/-- Start the table with the given header. A table that exists only as a parent in other headers
is taken up again; any other one may not be written twice. -/
def openTable (path : List Text) (draft : Draft) : Option Draft := do
  let key ← path.getLast?
  let finished ← draft.close
  let change (_ : Origin) (entries : Entries) : Option (Entries × Entries) :=
    match entries.lookup key with
    | none => some (entries, [])
    -- What other headers put into the table stays in it, and the table moves to the end.
    | some (.table .implied inner) => some (Entries.erase key entries, inner)
    | some _ => none
  let (finished, entries) ← Entries.modify false change path.dropLast .header finished
  return ⟨finished, path, false, entries⟩

/-- Start one more table in the list of tables with the given header. -/
def openElement (path : List Text) (draft : Draft) : Option Draft := do
  let key ← path.getLast?
  let finished ← draft.close
  let change (_ : Origin) (entries : Entries) : Option (Entries × Unit) :=
    match entries.lookup key with
    -- The list is there from its first header on, so that its place in the order is fixed.
    | none => some (entries ++ [(key, .tables [])], ())
    | some (.tables _) => some (entries, ())
    | some _ => none
  let (finished, _) ← Entries.modify false change path.dropLast .header finished
  return ⟨finished, path, true, []⟩

/-- Add a line with a key and its value to the table that is being written. -/
def insert (path : List Text) (key : Text) (node : Node) (draft : Draft) : Option Draft := do
  let entries ← draft.entries.insert path key node
  return { draft with entries := entries }

end Draft

end Depfile.Toml
