import StyleFamily.Toml.Value

/-!
# Tables under construction

While a document is read its tables are open to a varying degree. A table made on the way to a
longer header may still get a header of its own; one made by a dotted key may get further keys the
same way; a value is closed. Every name is defined once.
-/
namespace StyleFamily.Toml

/-- How a table came to be. -/
inductive Origin
  /-- On the way to the table of a longer header. -/
  | implied
  | header
  | dotted
deriving DecidableEq

/-- What a name stands for so far. -/
inductive Draft
  | value (value : Toml)
  | table (origin : Origin) (entries : List (String × Draft))
  /-- Tables under one repeated header, the last of them still open. -/
  | tables (closed : List Toml) (last : List (String × Draft))

abbrev Entries := List (String × Draft)

mutual
/-- The finished value. -/
def Draft.finish : Draft → Toml
  | .value value => value
  | .table _ entries => .table (finishEntries entries)
  | .tables closed last => .array (closed ++ [.table (finishEntries last)])

def finishEntries : List (String × Draft) → List (String × Toml)
  | [] => []
  | (name, draft) :: rest => (name, draft.finish) :: finishEntries rest
end

namespace Entries

/-- The entries with the one of a name changed, or added at the end; fails where the change
does. -/
def update (change : Option Draft → Option Draft) (name : String) : Entries → Option Entries
  | [] => (change none).map fun draft => [(name, draft)]
  | entry :: rest =>
    if entry.1 = name then (change (some entry.2)).map fun draft => (name, draft) :: rest
    else (update change name rest).map (entry :: ·)

/-- Puts a value under a dotted key. -/
def define (value : Toml) : List String → Entries → Option Entries
  | [], _ => none
  | [name], entries =>
    entries.update (fun | none => some (.value value) | some _ => none) name
  | name :: more, entries =>
    entries.update (fun
      | none => (define value more []).map (.table .dotted)
      | some (.table .dotted inner) => (define value more inner).map (.table .dotted)
      | some _ => none) name

/-- Opens the table of a header. -/
def openTable : List String → Entries → Option Entries
  | [], _ => none
  | [name], entries =>
    entries.update (fun
      | none => some (.table .header [])
      | some (.table .implied inner) => some (.table .header inner)
      | some _ => none) name
  | name :: more, entries =>
    entries.update (fun
      | none => (openTable more []).map (.table .implied)
      | some (.table origin inner) => (openTable more inner).map (.table origin)
      | some (.tables closed last) => (openTable more last).map (.tables closed)
      | some (.value _) => none) name

/-- Opens one more table of a repeated header. -/
def openItem : List String → Entries → Option Entries
  | [], _ => none
  | [name], entries =>
    entries.update (fun
      | none => some (.tables [] [])
      | some (.tables closed last) => some (.tables (closed ++ [.table (finishEntries last)]) [])
      | some _ => none) name
  | name :: more, entries =>
    entries.update (fun
      | none => (openItem more []).map (.table .implied)
      | some (.table origin inner) => (openItem more inner).map (.table origin)
      | some (.tables closed last) => (openItem more last).map (.tables closed)
      | some (.value _) => none) name

/-- Puts a value under a dotted key of the table that a header opened. -/
def defineUnder (value : Toml) (key : List String) : List String → Entries → Option Entries
  | [], entries => entries.define value key
  | name :: more, entries =>
    entries.update (fun
      | some (.table origin inner) => (defineUnder value key more inner).map (.table origin)
      | some (.tables closed last) => (defineUnder value key more last).map (.tables closed)
      | _ => none) name

end Entries
end StyleFamily.Toml
