/-!
# Imported symbols

The symbols a Kotlin unit needs from other packages, and the import lines they lead to: one for
each qualified name outside the unit's own package, in the order of the names' characters.
-/
namespace StyleFamily.Kotlin

/-- A symbol of a package. -/
structure Symbol where
  package : String
  name : String
deriving DecidableEq

def Symbol.qualified (symbol : Symbol) : String := symbol.package ++ "." ++ symbol.name

def composeRuntime : String := "androidx.compose.runtime"
def composeGraphics : String := "androidx.compose.ui.graphics"
def composeShapes : String := "androidx.compose.foundation.shape"
def composeText : String := "androidx.compose.ui.text"
def composeUnit : String := "androidx.compose.ui.unit"
def kitInteractions : String := "com.sdds.compose.uikit.interactions"
def kitShadow : String := "com.sdds.compose.uikit.shadow"
def kitStyle : String := "com.sdds.compose.uikit.style"

/-- The function that turns a plain color into an interactive one. -/
def asInteractive : Symbol := ⟨kitInteractions, "asInteractive"⟩

/-- Puts a text into a strictly sorted list, unless it is there already. -/
def insertSorted (text : String) : List String → List String
  | [] => [text]
  | other :: rest =>
    if text < other then text :: other :: rest
    else if other < text then other :: insertSorted text rest
    else other :: rest

/-- The texts in order, each of them once. -/
def sortedOnce (texts : List String) : List String := texts.foldr insertSorted []

/-- The names asked for in a package, in order and each of them once. -/
structure PackageImports where
  package : String
  names : List String

/-- Symbols by package. The packages stand in the order they were first asked for. -/
structure ImportTable where
  entries : List PackageImports := []

namespace ImportTable

/-- The entries with a symbol in that of its package, which comes last if it is new. -/
def insert (symbol : Symbol) : List PackageImports → List PackageImports
  | [] => [⟨symbol.package, insertSorted symbol.name []⟩]
  | entry :: rest =>
    if entry.package = symbol.package then
      { entry with names := insertSorted symbol.name entry.names } :: rest
    else entry :: insert symbol rest

def add (table : ImportTable) (symbol : Symbol) : ImportTable := ⟨insert symbol table.entries⟩

def extend (table : ImportTable) (symbols : List Symbol) : ImportTable := symbols.foldl add table

def has (table : ImportTable) (symbol : Symbol) : Bool :=
  (table.entries.find? (·.package = symbol.package)).any (·.names.contains symbol.name)

def isEmpty (table : ImportTable) : Bool := table.entries.isEmpty

/-- The import lines of a unit in a package. Two symbols may have one qualified name, and then
there is one line for both. -/
def lines (table : ImportTable) (package : String) : List String :=
  let foreign := table.entries.filter (·.package ≠ package)
  let qualified := foreign.flatMap fun entry =>
    entry.names.map fun name => Symbol.qualified ⟨entry.package, name⟩
  (sortedOnce qualified).map ("import " ++ ·)

end ImportTable

/-- The symbols asked for so far, in any order and with repetitions. -/
structure Imports where
  symbols : List Symbol := []

namespace Imports

def add (imports : Imports) (symbol : Symbol) : Imports := ⟨imports.symbols ++ [symbol]⟩

def extend (imports : Imports) (symbols : List Symbol) : Imports := ⟨imports.symbols ++ symbols⟩

/-- The table that the symbols are kept in. It is irreducible so that comparing two units does not
work it out. -/
@[irreducible]
def table (imports : Imports) : ImportTable := ImportTable.extend {} imports.symbols

def has (imports : Imports) (symbol : Symbol) : Bool := imports.table.has symbol

def isEmpty (imports : Imports) : Bool := imports.table.isEmpty

/-- The import lines of a unit in a package. -/
def lines (imports : Imports) (package : String) : List String := imports.table.lines package

end Imports
end StyleFamily.Kotlin
