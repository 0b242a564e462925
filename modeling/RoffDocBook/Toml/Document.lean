import RoffDocBook.Toml.Scalar

/-! A TOML document: its statements are read one by one, and each builds on the tables of those before it. -/
namespace RoffDocBook.Toml
open Text

/-- The greatest number of arrays and tables around a value. -/
def maxLevels : Nat := 80

mutual

/-- A value that may have a number of levels of arrays and tables inside. -/
def value : Nat → Nat → Reader Value
  | 0, _ => failure
  | fuel + 1, levels => do
    if ← Reader.sees "\"" then return .string (← markedString '"')
    else if ← Reader.sees "'" then return .string (← markedString '\'')
    else if ← Reader.skip "[" then
      if levels == 0 then failure else return .array (← items fuel (levels - 1))
    else if ← Reader.skip "\x7b" then
      if levels == 0 then failure else return .table .inline (← inlineEntries fuel (levels - 1) [])
    else scalar

/-- The rest of an array; a comma may follow its last item. -/
def items : Nat → Nat → Reader (List Value)
  | 0, _ => failure
  | fuel + 1, levels => do
    space (← get).length
    if ← Reader.skip "]" then pure []
    else
      let item ← value fuel levels
      space (← get).length
      if ← Reader.skip "," then return item :: (← items fuel levels)
      else
        Reader.expect "]"
        pure [item]

/-- The rest of a table in braces, after the entries read so far. -/
def inlineEntries : Nat → Nat → Entries → Reader Entries
  | 0, _, _ => failure
  | fuel + 1, levels, entries => do
    space (← get).length
    if ← Reader.skip "\x7d" then pure entries
    else
      let path ← key
      space (← get).length
      Reader.expect "="
      space (← get).length
      let entries ← Entries.insert? (← value fuel levels) path entries
      space (← get).length
      if ← Reader.skip "," then inlineEntries fuel levels entries
      else
        Reader.expect "\x7d"
        pure entries

end

/-- What a line of a document says. -/
inductive Statement where
  | header (path : List Text)
  | tableHeader (path : List Text)
  | pair (path : List Text) (value : Value)
  | nothing

/-- One statement with the end of its line. -/
def statement : Reader Statement := do
  blanks
  let said ← do
    if (← Reader.atEnd) || (← Reader.sees "#") || (← Reader.sees "\n") || (← Reader.sees "\r\n") then
      pure Statement.nothing
    else if ← Reader.skip "[[" then
      let path ← key
      Reader.expect "]]"
      pure (Statement.tableHeader path)
    else if ← Reader.skip "[" then
      let path ← key
      Reader.expect "]"
      pure (Statement.header path)
    else
      let path ← key
      Reader.expect "="
      blanks
      pure (Statement.pair path (← value ((← get).length + 1) maxLevels))
  blanks
  comment
  if !(← skipLineEnd) && !(← Reader.atEnd) then failure
  pure said

/-- The entries of a document, and the path of the header at hand. -/
structure Building where
  entries : Entries := []
  path : List Text := []

/-- What a statement adds to a document. -/
def Building.say? (building : Building) : Statement → Option Building
  | .header path => do
    let last ← path.getLast?
    let entries ← building.entries.openTable? path.dropLast last
    pure { entries, path }
  | .tableHeader path => do
    let last ← path.getLast?
    let entries ← building.entries.appendTable? path.dropLast last
    pure { entries, path }
  | .pair path value => do
    let entries ← building.entries.alterAt? (Entries.insert? value path) building.path
    pure { building with entries }
  | .nothing => some building

/-- The document that the rest of a text completes. -/
def statements : Nat → Building → Reader Entries
  | 0, _ => failure
  | fuel + 1, building => do
    if ← Reader.atEnd then pure building.entries
    else statements fuel (← building.say? (← statement))

/-- The entries of a document; a byte order mark may stand before it. -/
def parse? (t : Text) : Option Entries :=
  let t := (dropStart? [Char.ofNat 0xFEFF] t).getD t
  Reader.all? (statements (t.length + 1) {}) t

end RoffDocBook.Toml
