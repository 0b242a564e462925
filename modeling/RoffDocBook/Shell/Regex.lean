import RoffDocBook.Shell.Glob

/-! Regular expressions, in the two notations of the tools for text. -/
namespace RoffDocBook.Shell
open Text

inductive Regex where
  | empty
  | oneOf (set : CharSet)
  | start
  | finish
  /-- The edge of a word. -/
  | edge
  | group (index : Nat) (inner : Regex)
  /-- What a group has matched before. -/
  | again (index : Nat)
  | both (first second : Regex)
  | either (first second : Regex)
  | repeated (inner : Regex) (least : Nat) (most : Option Nat)
  deriving DecidableEq, Repr

namespace Regex

inductive Token where
  | opening
  | closing
  | bar
  | times (least : Nat) (most : Option Nat)
  | atom (regex : Regex)
  deriving DecidableEq, Repr

/-- The characters of a set as a regular expression. -/
def ofRanges (ranges : List (Char × Char)) (negated : Bool) : Regex :=
  .oneOf { negated, ranges }

def char (c : Char) : Regex :=
  ofRanges [(c, c)] false

def wordRanges : List (Char × Char) :=
  [('a', 'z'), ('A', 'Z'), ('0', '9'), ('_', '_')]

/-- How often something may be there, as braces tell, and what follows them. -/
def times? (extended : Bool) (t : Text) : Option (Token × Text) := do
  let (inside, rest) ← breakOn? (if extended then "\x7d" else "\\\x7d") t
  match splitOn ',' inside with
  | [n] =>
    let n ← toNat? n
    some (.times n (some n), rest)
  | [least, []] => some (.times ((toNat? least).getD 0) none, rest)
  | [least, most] =>
    let most ← toNat? most
    some (.times ((toNat? least).getD 0) (some most), rest)
  | _ => none

/-- The tokens of an expression; `first` tells whether a part of it begins here. -/
def tokens? (extended : Bool) : Nat → Bool → Text → Option (List Token)
  | 0, _, _ => none
  | _, _, [] => some []
  | fuel + 1, first, c :: rest =>
    let put (token : Token) (begins : Bool) (rest : Text) : Option (List Token) :=
      (tokens? extended fuel begins rest).map (token :: ·)
    let atom (regex : Regex) (rest : Text) : Option (List Token) := put (.atom regex) false rest
    let operator (c : Char) (rest : Text) : Option (List Token) :=
      if c == '(' then put .opening true rest
      else if c == ')' then put .closing false rest
      else if c == '|' then put .bar true rest
      else if c == '+' then put (.times 1 none) false rest
      else if c == '?' then put (.times 0 (some 1)) false rest
      else (times? extended rest).bind fun (token, rest) => put token false rest
    let isOperator (c : Char) : Bool := "()|+?\x7b".toList.elem c
    if c == '\\' then
      match rest with
      | [] => none
      | d :: rest =>
        if isOperator d then (if extended then atom (char d) rest else operator d rest)
        else if d.isDigit && d != '0' then atom (.again (d.toNat - '0'.toNat)) rest
        else if d == 'n' then atom (char '\n') rest
        else if d == 't' then atom (char '\t') rest
        else if d == 'w' then atom (ofRanges wordRanges false) rest
        else if d == 'W' then atom (ofRanges wordRanges true) rest
        else if d == 's' then atom (ofRanges [('\t', '\r'), (' ', ' ')] false) rest
        else if d == 'S' then atom (ofRanges [('\t', '\r'), (' ', ' ')] true) rest
        else if d == 'b' || d == '<' || d == '>' then atom .edge rest
        else atom (char d) rest
    else if c == '[' then (CharSet.ofBrackets? rest).bind fun (set, rest) => atom (.oneOf set) rest
    else if c == '.' then atom (ofRanges [] true) rest
    else if c == '*' then (if first then atom (char c) rest else put (.times 0 none) false rest)
    else if c == '^' && (extended || first) then put (.atom .start) true rest
    else if c == '$' then
      let isLast := extended || rest.isEmpty || startsWith rest "\\)" || startsWith rest "\\|"
      atom (if isLast then .finish else char c) rest
    else if extended && isOperator c then operator c rest
    else atom (char c) rest

/-- Readers of expressions, which take tokens off the front and count the groups. -/
abbrev Reader := StateT (List Token × Nat) Option

def next? : Reader (Option Token) :=
  fun (tokens, groups) => some (tokens.head?, tokens, groups)

def advance : Reader Unit :=
  fun (tokens, groups) => some ((), tokens.tail, groups)

/-- A new number for a group. -/
def newGroup : Reader Nat :=
  fun (tokens, groups) => some (groups + 1, tokens, groups + 1)

mutual

def alternatives : Nat → Reader Regex
  | 0 => failure
  | fuel + 1 => do
    let first ← parts fuel
    match ← next? with
    | some .bar =>
      advance
      return .either first (← alternatives fuel)
    | _ => pure first

def parts : Nat → Reader Regex
  | 0 => failure
  | fuel + 1 => do
    match ← next? with
    | some (.atom regex) =>
      advance
      let first ← repetitions fuel regex
      return .both first (← parts fuel)
    | some .opening =>
      advance
      let index ← newGroup
      let inner ← alternatives fuel
      match ← next? with
      | some .closing =>
        advance
        let first ← repetitions fuel (.group index inner)
        return .both first (← parts fuel)
      | _ => failure
    | some (.times ..) => failure
    | _ => pure .empty

def repetitions : Nat → Regex → Reader Regex
  | 0, _ => failure
  | fuel + 1, inner => do
    match ← next? with
    | some (.times least most) =>
      advance
      repetitions fuel (.repeated inner least most)
    | _ => pure inner

end

/-- The expression that a text is, in the extended notation or in the basic one. -/
def ofText? (extended : Bool) (t : Text) : Option Regex := do
  let tokens ← tokens? extended (t.length + 1) true t
  match ← alternatives (4 * tokens.length + 4) (tokens, 0) with
  | (regex, [], _) => some regex
  | _ => none

/-- A place in a text: what stands before it, the nearest first, what follows, and what the groups have matched. -/
structure Place where
  before : Text := []
  rest : Text
  groups : List (Nat × Text) := []

def isWordChar (c : Char) : Bool :=
  c.isAlphanum || c == '_'

/-- What has been matched between two places. -/
def Place.matched (first last : Place) : Text :=
  (last.before.take (last.before.length - first.before.length)).reverse

/-- Matches an expression at a place and goes on from the places that it leads to, the farthest first, until that
succeeds. Letters of both cases may count as one. -/
def matchFrom (folded : Bool) : Nat → Regex → Place → (Place → Option Place) → Option Place
  | 0, _, _, _ => none
  | fuel + 1, regex, place, proceed =>
    match regex with
    | .empty => proceed place
    | .oneOf set =>
      match place.rest with
      | c :: rest =>
        if set.contains c || (folded && (set.contains c.toLower || set.contains c.toUpper)) then
          proceed { place with before := c :: place.before, rest }
        else none
      | [] => none
    | .start => if place.before.isEmpty then proceed place else none
    | .finish => if place.rest.isEmpty then proceed place else none
    | .edge =>
      if place.before.head?.any isWordChar != place.rest.head?.any isWordChar then proceed place else none
    | .group index inner =>
      matchFrom folded fuel inner place fun last =>
        proceed { last with groups := (index, place.matched last) :: last.groups }
    | .again index =>
      match place.groups.lookup index with
      | some t =>
        match Text.dropStart? t place.rest with
        | some rest => proceed { place with before := t.reverse ++ place.before, rest }
        | none => none
      | none => none
    | .both first second =>
      matchFrom folded fuel first place fun place => matchFrom folded fuel second place proceed
    | .either first second =>
      (matchFrom folded fuel first place proceed).orElse fun _ => matchFrom folded fuel second place proceed
    | .repeated inner least most =>
      let once : Option Place :=
        if most == some 0 then none
        else
          matchFrom folded fuel inner place fun last =>
            if last.rest.length == place.rest.length && least == 0 then none
            else matchFrom folded fuel (.repeated inner (least - 1) (most.map (· - 1))) last proceed
      once.orElse fun _ => if least == 0 then proceed place else none

/-- A match: what stands before it, the nearest first, and its two ends. -/
structure Match where
  first : Place
  last : Place

def Match.text (found : Match) : Text :=
  found.first.matched found.last

/-- The first match in what follows some text, which is given with the nearest character first. -/
def find? (regex : Regex) (folded : Bool) : Text → Text → Option Match
  | before, [] => attempt before []
  | before, c :: rest =>
    (attempt before (c :: rest)).orElse fun _ => find? regex folded (c :: before) rest
where
  attempt (before rest : Text) : Option Match :=
    let place : Place := { before, rest }
    (matchFrom folded (100 * rest.length + 1000) regex place some).map fun last => { first := place, last }

/-- The matches one after another that are not empty. -/
def findAll (regex : Regex) (folded : Bool) : Nat → Text → Text → List Text
  | 0, _, _ => []
  | fuel + 1, before, t =>
    match regex.find? folded before t with
    | none => []
    | some found =>
      match found.text, found.last.rest with
      | [], [] => []
      | [], c :: rest => findAll regex folded fuel (c :: found.last.before) rest
      | text, rest => text :: findAll regex folded fuel found.last.before rest

def occursIn (regex : Regex) (folded : Bool) (t : Text) : Bool :=
  (regex.find? folded [] t).isSome

end Regex

end RoffDocBook.Shell
