import RoffDocBook.Synopsis.Function

/-! The lines of a synopsis, sorted into functions, commands, file names and text. -/
namespace RoffDocBook.Synopsis
open Text

structure Display where
  markup : List Text := []
  /-- Whether there is a function or a command among the lines. -/
  found : Bool := false
  /-- Why lines that look like commands could not be read. -/
  warnings : List Text := []
  /-- Names that the synopses are about. -/
  learned : List (Text × HintTag) := []

/-- Lines of text that are kept for one paragraph, the most recent first. -/
abbrev Stash := List Text

namespace Display

/-- Writes the lines kept for a paragraph. -/
def flush (display : Display) (stash : Stash) : Display :=
  if stash.isEmpty then display
  else { display with markup := display.markup ++ ["<para>" ++ unlines stash.reverse ++ "</para>"] }

/-- A line that is nothing but an absolute path or one in the home directory. -/
def isFileName (line : Text) : Bool :=
  let line := trim line
  1 < line.length && !line.any isBlank && (startsWith line "/" || startsWith line "~/")

/-- A line that no synopsis has claimed. -/
def addLine (display : Display) (stash : Stash) (line : Text) : Display × Stash :=
  if isFileName line then
    let display := display.flush stash
    ({ display with markup := display.markup ++ ["<para><filename>" ++ trim line ++ "</filename></para>"] }, [])
  else (display, line :: stash)

/-- The lines that are left, read as functions first and as commands second. -/
def read : Nat → CommandContext → TokenReader → Display → Stash → Display
  | 0, _, _, display, stash => display.flush stash
  | fuel + 1, context, reader, display, stash =>
    match reader.peekLine? with
    | none => display.flush stash
    | some line =>
      if isAllBlank line then read fuel context reader.popLine.2 (display.flush stash) []
      else
        match Function.parse reader with
        | (.parsed (markup, names), reader) =>
          let display := display.flush stash
          read fuel context reader
            { display with
              markup := display.markup ++ [markup]
              found := true
              learned := display.learned ++ names.map (·, HintTag.function) } []
        | (_, reader) =>
          if Command.isProse line then read fuel context reader.popLine.2 display (line :: stash)
          else
            match Command.parse reader context with
            | (.parsed (markup, name), reader) =>
              let display := display.flush stash
              read fuel context reader
                { display with
                  markup := display.markup ++ [markup]
                  found := true
                  learned := display.learned ++ [(name, HintTag.command)] } []
            | (.failed reason, reader) =>
              let (display, stash) := addLine { display with warnings := display.warnings ++ [reason] } stash line
              read fuel context reader.popLine.2 display stash
            | (.declined, reader) =>
              let (display, stash) := addLine display stash line
              read fuel context reader.popLine.2 display stash

end Display

/-- The markup of the lines of a synopsis. Each step reads a line at least. -/
def Display.ofLines (lines names : List Text) (hints : Hints) : Display :=
  Display.read (lines.length + 1) { names, hints } (TokenReader.ofLines lines) {} []

end RoffDocBook.Synopsis
