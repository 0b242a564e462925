import RoffDocBook.FileTree

/-! Sets of characters in brackets, and the patterns of a shell for texts and the names of files. -/
namespace RoffDocBook.Shell
open Text

/-- Whether a text comes before another one in the order of their characters, or is the same. -/
def precedes : Text → Text → Bool
  | [], _ => true
  | _ :: _, [] => false
  | a :: as, b :: bs => if a == b then precedes as bs else a.toNat < b.toNat

/-- The characters in some ranges, or those outside of them. -/
structure CharSet where
  negated : Bool := false
  ranges : List (Char × Char) := []
  deriving DecidableEq, Repr

namespace CharSet

def contains (set : CharSet) (c : Char) : Bool :=
  (set.ranges.any fun range => range.1 ≤ c && c ≤ range.2) != set.negated

/-- The ranges of the classes that have names. -/
def named? (name : Text) : Option (List (Char × Char)) :=
  match String.ofList name with
  | "alpha" => some [('a', 'z'), ('A', 'Z')]
  | "digit" => some [('0', '9')]
  | "alnum" => some [('a', 'z'), ('A', 'Z'), ('0', '9')]
  | "upper" => some [('A', 'Z')]
  | "lower" => some [('a', 'z')]
  | "space" => some [('\t', '\r'), (' ', ' ')]
  | "blank" => some [('\t', '\t'), (' ', ' ')]
  | "punct" => some [('!', '/'), (':', '@'), ('[', '\x60'), ('\x7b', '~')]
  | "print" => some [(' ', '~')]
  | "graph" => some [('!', '~')]
  | "cntrl" => some [('\x00', '\x1f'), ('\x7f', '\x7f')]
  | "xdigit" => some [('0', '9'), ('a', 'f'), ('A', 'F')]
  | _ => none

/-- The ranges up to the bracket that closes a set, and what follows it. A bracket in front stands for itself. -/
def rangesFrom : Nat → Bool → Text → Option (List (Char × Char) × Text)
  | 0, _, _ => none
  | _, _, [] => none
  | fuel + 1, first, t =>
    let more (ranges : List (Char × Char)) (rest : Text) : Option (List (Char × Char) × Text) :=
      (rangesFrom fuel false rest).map fun (others, rest) => (ranges ++ others, rest)
    match t with
    | '[' :: ':' :: rest =>
      match breakOn? ":]" rest with
      | some (name, rest) => (named? name).bind (more · rest)
      | none => more [('[', '[')] (':' :: rest)
    | ']' :: rest => if first then more [(']', ']')] rest else some ([], rest)
    | a :: '-' :: b :: rest => if b == ']' then more [(a, a)] ('-' :: b :: rest) else more [(a, b)] rest
    | a :: rest => more [(a, a)] rest
    | [] => none

/-- The set whose opening bracket stands before a text, and what follows the closing one. -/
def ofBrackets? (t : Text) : Option (CharSet × Text) :=
  let (negated, inside) :=
    match t with
    | '!' :: rest => (true, rest)
    | '^' :: rest => (true, rest)
    | rest => (false, rest)
  (rangesFrom (inside.length + 1) true inside).map fun (ranges, rest) => ({ negated, ranges }, rest)

end CharSet

inductive GlobItem where
  | char (c : Char)
  | any
  | oneOf (set : CharSet)
  /-- Any number of characters. -/
  | many
  deriving DecidableEq, Repr

abbrev Glob := List GlobItem

namespace Glob

/-- The pattern of characters, each with a flag that tells whether it stands for itself. -/
def ofChars : Nat → List (Char × Bool) → Glob
  | 0, _ => []
  | _, [] => []
  | fuel + 1, (c, literal) :: rest =>
    if literal then .char c :: ofChars fuel rest
    else if c == '*' then .many :: ofChars fuel rest
    else if c == '?' then .any :: ofChars fuel rest
    else if c == '[' then
      match CharSet.ofBrackets? (rest.map Prod.fst) with
      | some (set, after) => .oneOf set :: ofChars fuel (rest.drop (rest.length - after.length))
      | none => .char c :: ofChars fuel rest
    else .char c :: ofChars fuel rest

/-- A text and what follows each of its characters. -/
def suffixes : Text → List Text
  | [] => [[]]
  | c :: rest => (c :: rest) :: suffixes rest

def accepts : Glob → Text → Bool
  | [], t => t.isEmpty
  | .many :: items, t => (suffixes t).any (accepts items)
  | .char c :: items, t => t.head? == some c && accepts items t.tail
  | .any :: items, t => !t.isEmpty && accepts items t.tail
  | .oneOf set :: items, t => t.head?.any set.contains && accepts items t.tail

/-- Whether a pattern can accept more than one text. -/
def isOpen (glob : Glob) : Bool :=
  glob.any fun item =>
    match item with
    | .char _ => false
    | _ => true

/-- What is left of a text without the shortest or the longest beginning that a pattern accepts. -/
def dropStart (glob : Glob) (longest : Bool) (t : Text) : Text :=
  let lengths := List.range (t.length + 1)
  match (if longest then lengths.reverse else lengths).find? fun n => glob.accepts (t.take n) with
  | some n => t.drop n
  | none => t

/-- What is left of a text without the shortest or the longest ending that a pattern accepts. -/
def dropEnd (glob : Glob) (longest : Bool) (t : Text) : Text :=
  let lengths := List.range (t.length + 1)
  match (if longest then lengths else lengths.reverse).find? fun n => glob.accepts (t.drop n) with
  | some n => t.take n
  | none => t

/-- The pattern with each part between slashes. -/
def parts (glob : Glob) : List Glob :=
  match glob with
  | [] => [[]]
  | item :: rest =>
    match parts rest with
    | [] => [[item]]
    | part :: others => if item = .char '/' then [] :: part :: others else (item :: part) :: others

/-- The text that a pattern without open places accepts. -/
def literal (glob : Glob) : Text :=
  glob.filterMap fun item =>
    match item with
    | .char c => some c
    | _ => none

/-- The paths that a pattern accepts, in order. -/
def paths (files : FileTree) (glob : Glob) : List Text :=
  go glob.parts []
where
  go : List Glob → Text → List Text
    | [], path => [path]
    | part :: rest, path =>
      let further (name : Text) : List Text :=
        let path := path ++ name
        if rest.isEmpty then (if files.contains path then [path] else []) else go rest (path ++ "/")
      if !part.isOpen then further part.literal
      else
        let directory : Text := if path.isEmpty then ['.'] else path
        match files.find directory with
        | .error _ => []
        | .ok place =>
          let isHidden (name : Text) : Bool := name.head? == some '.' && part.head? != some (.char '.')
          let names := (files.names place).filter fun name => !isHidden name && part.accepts name
          (names.mergeSort precedes).flatMap further

end Glob

end RoffDocBook.Shell
