import RoffDocBook.Shell.Editing
import RoffDocBook.Shell.Format

/-! The tools that scripts call: programs that read text and write text, and those that look after files. -/
namespace RoffDocBook.Shell
open Text

/-- What a tool has done. -/
structure ToolRun where
  output : Text := []
  status : Nat := 0
  /-- What the tool leaves of its input. -/
  input : Text := []
  files : FileTree

/-- A tool, from its arguments, its input and the files. -/
abbrev Tool := List Text → Text → FileTree → ToolRun

namespace Tool

/-- The texts of files under their names, where a dash stands for the input. -/
def texts (files : FileTree) (input : Text) (names : List Text) : List (Text × Option Text) :=
  let names := if names.isEmpty then [['-']] else names
  names.map fun name =>
    if name == ['-'] || name == "/dev/stdin".toList then (name, some input)
    else if name == "/dev/null".toList then (name, some [])
    else (name, (files.read? name).map decodeBytes)

/-- A tool that changes the text of its input and of files, one after another, into another text. -/
def filter (change : Text → Text) (names : List Text) : Tool := fun _ input files =>
  let found := texts files input names
  let isRead := found.any fun (name, _) => name == ['-']
  { output := change (found.flatMap fun (_, text) => text.getD [])
    status := if found.all fun (_, text) => text.isSome then 0 else 1
    input := if isRead then [] else input
    files }

/-- The lines of a text without their ends. -/
def lines (t : Text) : List Text :=
  let fields := splitOn '\n' t
  if fields.getLast? == some [] then fields.dropLast else fields

/-- Lines with their ends. -/
def ended (lines : List Text) : Text :=
  lines.flatMap fun line => line ++ ['\n']

/-- Lines with the ends that they have. -/
def linesWithEnds (t : Text) : List Text :=
  if endsWith t "\n" then (lines t).map (· ++ ['\n'])
  else (lines t).dropLast.map (· ++ ['\n']) ++ [(lines t).getLastD []]

/-- The options of one argument, and one whose value is the next argument. -/
def letters (withValue : Text) : Text → List (Char × Text) × Option Char
  | [] => ([], none)
  | c :: rest =>
    if withValue.elem c then (if rest.isEmpty then ([], some c) else ([(c, rest)], none))
    else
      let (others, pending) := letters withValue rest
      ((c, []) :: others, pending)

/-- The options among arguments, and the other arguments. The options of a list take a value. -/
def options (withValue : Text) : List Text → List (Char × Text) × List Text
  | [] => ([], [])
  | ['-', '-'] :: rest => ([], rest)
  | ('-' :: c :: more) :: rest =>
    let (found, pending) := letters withValue (c :: more)
    match pending, rest with
    | some letter, value :: rest =>
      let (others, rest) := options withValue rest
      (found ++ (letter, value) :: others, rest)
    | _, rest =>
      let (others, rest) := options withValue rest
      (found ++ others, rest)
  | argument :: rest =>
    let (found, others) := options withValue rest
    (found, argument :: others)

def hasOption (found : List (Char × Text)) (c : Char) : Bool :=
  found.any fun entry => entry.1 == c

def padStart (width : Nat) (t : Text) : Text :=
  List.replicate (width - t.length) ' ' ++ t

/-- Lines with their numbers, which empty lines may go without. -/
def numbered (skipsEmpty : Bool) : Nat → List Text → List Text
  | _, [] => []
  | n, line :: rest =>
    if skipsEmpty && line == "\n" then line :: numbered skipsEmpty n rest
    else (padStart 6 (Text.ofNat n) ++ '\t' :: line) :: numbered skipsEmpty (n + 1) rest

/-- Writes files one after another. -/
def catenate : Tool := fun arguments =>
  let (found, names) := options [] arguments
  let asks (letters : String) : Bool := letters.toList.any (hasOption found)
  let isKnown := found.all fun (letter, _) => "AbeEnstTuv".toList.elem letter
  let change (t : Text) : Text :=
    if found.isEmpty then t
    else
      let shown (c : Char) : Text :=
        if c == '\n' then (if asks "EAe" then "$\n" else ['\n'])
        else if c == '\t' then (if asks "TAt" then "^I" else ['\t'])
        else [c]
      let lines := (linesWithEnds t).map fun line => line.flatMap shown
      (if asks "bn" then numbered (asks "b") 1 lines else lines).flatten
  fun input files => if isKnown then filter change names arguments input files else { status := 1, input, files }

/-- The first or the last part of a text, in lines or in characters. -/
def part (atEnd : Bool) : Tool := fun arguments input files =>
  let arguments :=
    match arguments with
    | ('-' :: c :: more) :: rest => if c.isDigit then "-n".toList :: (c :: more) :: rest else arguments
    | _ => arguments
  let (found, names) := options ['n', 'c'] arguments
  let value := ((found.find? fun entry => entry.1 == 'n' || entry.1 == 'c').map Prod.snd).getD "10".toList
  let isFrom := startsWith value "+"
  let isBut := startsWith value "-"
  let n := (toNat? (if isBut then value.drop 1 else value)).getD 0
  let take {α : Type} (items : List α) : List α :=
    if atEnd then (if isFrom then items.drop (n - 1) else items.drop (items.length - n))
    else if isBut then items.take (items.length - n) else items.take n
  let change (t : Text) : Text :=
    if hasOption found 'c' then take t
    else
      let written := (take (lines t)).flatMap fun line => line ++ ['\n']
      if endsWith t "\n" || t.isEmpty then written
      else if atEnd || t.length < written.length then (dropEnd? ['\n'] written).getD written
      else written
  filter change names arguments input files

/-- Characters of a set, where ranges, classes and escapes are written out. -/
def setChars : Nat → Text → Text
  | 0, _ => []
  | _, [] => []
  | fuel + 1, '[' :: ':' :: rest =>
    match breakOn? ":]" rest with
    | some (name, rest) =>
      (((CharSet.named? name).getD []).flatMap fun (a, b) => span a b) ++ setChars fuel rest
    | none => '[' :: ':' :: setChars fuel rest
  | fuel + 1, '\\' :: rest =>
    let (c, rest) := escapeChar rest
    c :: setChars fuel rest
  | fuel + 1, a :: '-' :: b :: rest => span a b ++ setChars fuel rest
  | fuel + 1, c :: rest => c :: setChars fuel rest
where
  span (a b : Char) : Text :=
    (List.range (b.toNat + 1 - a.toNat)).map fun i => Char.ofNat (a.toNat + i)

/-- A text with runs of one of some characters made single. -/
def squeeze (isIn : Char → Bool) : Text → Text
  | [] => []
  | c :: rest =>
    let after := squeeze isIn rest
    if isIn c && after.head? == some c then after else c :: after

/-- Exchanges, deletes or squeezes characters. -/
def exchange : Tool := fun arguments input files =>
  let (found, sets) := options [] arguments
  let sets := sets.map fun set => setChars set.length set
  let old := sets.headD []
  let isOld (c : Char) : Bool := old.elem c != (hasOption found 'c' || hasOption found 'C')
  let output :=
    match hasOption found 'd', sets.tail with
    | true, rest =>
      let kept := input.filter fun c => !isOld c
      if hasOption found 's' then squeeze (rest.headD []).elem kept else kept
    | false, [] => if hasOption found 's' then squeeze isOld input else input
    | false, new :: _ =>
      let last := new.getLast?.getD ' '
      let changed (c : Char) : Char :=
        if !isOld c then c
        else if hasOption found 'c' || hasOption found 'C' then last
        else new.getD (old.idxOf c) last
      let output := input.map changed
      if hasOption found 's' then squeeze new.elem output else output
  let fits := sets.length ≤ (if hasOption found 'd' && !hasOption found 's' then 1 else 2) && !sets.isEmpty
  if fits then { output, files } else { status := 1, input, files }

/-- The ranges of positions that a list names, each with its two ends. -/
def positions (list : Text) : List (Nat × Nat) :=
  (splitOn ',' list).map fun field =>
    match splitOn '-' field with
    | [n] => ((toNat? n).getD 0, (toNat? n).getD 0)
    | [a, b] => ((toNat? a).getD 1, (toNat? b).getD 1000000)
    | _ => (0, 0)

/-- Cuts fields or characters out of lines. -/
def cut : Tool := fun arguments input files =>
  let (found, names) := options "dfcb".toList arguments
  let delimiter := ((found.lookup 'd').bind List.head?).getD '\t'
  let isIn (ranges : List (Nat × Nat)) (n : Nat) : Bool := ranges.any fun range => range.1 ≤ n && n ≤ range.2
  let choose {α : Type} (ranges : List (Nat × Nat)) (items : List α) : List α :=
    (items.zipIdx.filter fun (_, i) => isIn ranges (i + 1)).map Prod.fst
  let cutLine (line : Text) : Option Text :=
    match found.lookup 'f' with
    | some list =>
      let fields := splitOn delimiter line
      if fields.length == 1 then (if hasOption found 's' then none else some line)
      else some (join [delimiter] (choose (positions list) fields))
    | none => some (choose (positions ((found.lookup 'c' <|> found.lookup 'b').getD [])) line)
  filter (fun t => ended ((lines t).filterMap cutLine)) names arguments input files

/-- A number at the start of a line, for comparison. -/
def leadingNumber (line : Text) : Int :=
  match trimStart line with
  | '-' :: rest => -((toNat? (rest.takeWhile Char.isDigit)).getD 0 : Int)
  | rest => ((toNat? (rest.takeWhile Char.isDigit)).getD 0 : Int)

/-- The lines without those that are equal to the one before them, each with their number. -/
def runs : List Text → List (Nat × Text)
  | [] => []
  | line :: rest =>
    match runs rest with
    | (n, next) :: others => if line == next then (n + 1, next) :: others else (1, line) :: (n, next) :: others
    | [] => [(1, line)]

def sort : Tool := fun arguments input files =>
  let (found, names) := options "kto".toList arguments
  let key (line : Text) : Text :=
    match found.lookup 'k' with
    | none => line
    | some list =>
      let n := (toNat? (list.takeWhile Char.isDigit)).getD 1
      let fields := match found.lookup 't' with
        | some delimiter => splitOn (delimiter.headD ' ') line
        | none => words line
      fields.getD (n - 1) []
  let isNumeric := hasOption found 'n' || ((found.lookup 'k').getD []).elem 'n'
  let comes (a b : Text) : Bool :=
    if isNumeric && leadingNumber (key a) != leadingNumber (key b) then leadingNumber (key a) < leadingNumber (key b)
    else if !isNumeric && key a != key b then precedes (key a) (key b)
    else precedes a b
  let change (t : Text) : Text :=
    let sorted := (lines t).mergeSort comes
    let sorted := if hasOption found 'r' then sorted.reverse else sorted
    ended (if hasOption found 'u' then (runs sorted).map Prod.snd else sorted)
  filter change names arguments input files

def unique : Tool := fun arguments input files =>
  let (found, names) := options [] arguments
  let counted := hasOption found 'c'
  let kept (entry : Nat × Text) : Bool :=
    (!hasOption found 'd' || 1 < entry.1) && (!hasOption found 'u' || entry.1 == 1)
  let change (t : Text) : Text :=
    ended (((runs (lines t)).filter kept).map fun (n, line) =>
      if counted then padStart 7 (Text.ofNat n) ++ ' ' :: line else line)
  filter change names arguments input files

/-- The numbers of lines, words and characters. -/
def count : Tool := fun arguments input files =>
  let (found, names) := options [] arguments
  let asked := found.map Prod.fst
  let shown (c : Char) : Bool := if asked.isEmpty then c != 'm' else asked.elem c
  let counts (t : Text) : List Nat :=
    (if shown 'l' then [t.count '\n'] else []) ++ (if shown 'w' then [(words t).length] else []) ++
      (if shown 'c' || shown 'm' then [t.length] else [])
  let found := texts files input names
  let numbers := found.map fun (_, text) => counts (text.getD [])
  let widest := (numbers.flatten.map fun n => (Text.ofNat n).length).foldl max 1
  let width := if (numbers.headD []).length ≤ 1 && names.length ≤ 1 then 1 else if names.isEmpty then 7 else widest
  let line (numbers : List Nat) (name : Text) : Text :=
    join [' '] (numbers.map fun n => padStart width (Text.ofNat n)) ++ (if names.isEmpty then [] else ' ' :: name) ++
      ['\n']
  let total := numbers.foldl (List.zipWith (· + ·)) ((numbers.headD []).map fun _ => 0)
  let output := ((found.zip numbers).flatMap fun ((name, _), numbers) => line numbers name) ++
    if names.length ≤ 1 then [] else line total "total"
  { output, status := if found.all fun (_, text) => text.isSome then 0 else 1, files }

/-- Looks for lines with a match of an expression. -/
def search (extended fixed : Bool) : Tool := fun arguments input files =>
  let (found, rest) := options ['e', 'm'] arguments
  let given := (found.filter fun entry => entry.1 == 'e').map Prod.snd
  let (expressions, names) := if given.isEmpty then (rest.take 1, rest.tail) else (given, rest)
  let folded := hasOption found 'i'
  let fixed := fixed || hasOption found 'F'
  let read? (expression : Text) : Option Regex :=
    if fixed then some (expression.foldr (fun c regex => .both (Regex.char c) regex) .empty)
    else Regex.ofText? (extended || hasOption found 'E') expression
  match (expressions.flatMap (splitOn '\n')).mapM read? with
  | none => { status := 2, input, files }
  | some [] => { status := 2, input, files }
  | some (first :: others) =>
    let regex := others.foldl Regex.either first
    let regex :=
      if hasOption found 'x' then .both .start (.both regex .finish)
      else if hasOption found 'w' then .both .edge (.both regex .edge)
      else regex
    let isFound (line : Text) : Bool := regex.occursIn folded line != hasOption found 'v'
    let sources := texts files input names
    let named := 1 < names.length && !hasOption found 'h'
    let hits (t : Text) : List (Text × Nat) :=
      let hits := (lines t).zipIdx.filter fun (line, _) => isFound line
      match found.lookup 'm' with
      | some most => hits.take ((toNat? most).getD 0)
      | none => hits
    let title (name : Text) : Text := if named then name ++ [':'] else []
    let written : Text := sources.flatMap fun (name, text) =>
      let hits := hits (text.getD [])
      if hasOption found 'q' then []
      else if hasOption found 'l' then (if hits.isEmpty then [] else name ++ ['\n'])
      else if hasOption found 'L' then (if hits.isEmpty then name ++ ['\n'] else [])
      else if hasOption found 'c' then title name ++ Text.ofNat hits.length ++ ['\n']
      else
        hits.flatMap fun (line, i) =>
          let number := if hasOption found 'n' then Text.ofNat (i + 1) ++ [':'] else []
          let isPart := hasOption found 'o'
          let shown : List Text := if isPart then regex.findAll folded (line.length + 1) [] line else [line]
          shown.flatMap fun text => title name ++ number ++ text ++ ['\n']
    let any := sources.any fun (_, text) => !(hits (text.getD [])).isEmpty
    let isMissing := sources.any fun (_, text) => text.isNone
    { output := written
      status := if isMissing && !(any && hasOption found 'q') then 2 else if any then 0 else 1
      input := if names.isEmpty then [] else input
      files }

/-- Arguments with the short forms of options that are written as words. -/
def shortOptions (names : List (String × String)) (arguments : List Text) : List Text :=
  arguments.flatMap fun (argument : Text) =>
    let matching := names.findSome? fun (long, short) =>
      if argument == long.toList then some [short.toList]
      else (dropStart? (long ++ "=").toList argument).map fun value => [short.toList, value]
    matching.getD [argument]

/-- The stream editor. -/
def edit : Tool := fun arguments input files =>
  let arguments := shortOptions
    [("--quiet", "-n"), ("--silent", "-n"), ("--expression", "-e"), ("--file", "-f"), ("--regexp-extended", "-E"),
      ("--in-place", "-i"), ("--separate", "-s")] arguments
  let (found, rest) := options ['e', 'f'] arguments
  let scripts := found.filterMap fun (letter, value) =>
    if letter == 'e' then some value
    else if letter == 'f' then (files.read? value).map decodeBytes
    else none
  let (script, names) := if scripts.isEmpty then (rest.headD [], rest.tail) else (unlines scripts, rest)
  match EditCommand.script? (hasOption found 'E' || hasOption found 'r') script with
  | none => { status := 1, input, files }
  | some commands =>
    let edited (t : Text) : Text × Nat := editText commands (hasOption found 'n') t
    let sources := texts files input names
    let isMissing := sources.any fun (_, text) => text.isNone
    if hasOption found 'i' then
      let files := sources.foldl (fun (files : FileTree) (name, text) =>
        match text.map edited with
        | some (t, _) => (files.write name (encodeBytes t)).toOption.getD files
        | none => files) files
      { status := if isMissing then 4 else 0, input, files }
    else
      let (output, status) := edited (sources.flatMap fun (_, text) => text.getD [])
      { output
        status := if isMissing then 2 else status
        input := if sources.any fun (name, _) => name == ['-'] then [] else input
        files }

/-- Copies its input to its output and to files. -/
def tee : Tool := fun arguments input files =>
  let (found, names) := options [] arguments
  let files := names.foldl (fun files name =>
    let before := if hasOption found 'a' then (files.read? name).getD [] else []
    (files.write name (before ++ encodeBytes input)).toOption.getD files) files
  { output := input, files }

/-- Numbers from the first to the last one, in steps. -/
def sequence : Tool := fun arguments input files =>
  let (separator, arguments) : Text × List Text :=
    match arguments with
    | ('-' :: 's' :: more) :: rest => if more.isEmpty then (rest.headD [], rest.tail) else (more, rest)
    | arguments => (['\n'], arguments)
  let numbers := arguments.filterMap Arithmetic.ofValue?
  let count (first step last : Int) : List Int :=
    if step == 0 then []
    else (List.range ((last - first) / step + 1).toNat).map fun (i : Nat) => first + step * Int.ofNat i
  let items :=
    match numbers with
    | [last] => count 1 1 last
    | [first, last] => count first 1 last
    | [first, step, last] => count first step last
    | _ => []
  { output := if items.isEmpty then [] else join separator (items.map Text.ofInt) ++ ['\n']
    status := if arguments.isEmpty then 1 else 0
    input
    files }

/-- A tool that changes files one by one under the names that it is given. -/
def eachFile (change : FileTree → Text → Option FileTree) (names : List Text) : Tool := fun _ input files =>
  let (files, status) := names.foldl (fun (files, status) name =>
    match change files name with
    | some files => (files, status)
    | none => (files, 1)) (files, 0)
  { status, input, files }

def touch : Tool := fun arguments =>
  eachFile (fun files name => if files.contains name then some files else (files.write name []).toOption)
    (options [] arguments).2 arguments

def remove : Tool := fun arguments =>
  let (found, names) := options [] arguments
  let change (files : FileTree) (name : Text) : Option FileTree :=
    match files.find name with
    | .error _ => if hasOption found 'f' then some files else none
    | .ok place =>
      if files.isDirectory place && !hasOption found 'r' && !hasOption found 'R' then none
      else some (files.remove place)
  eachFile change names arguments

def makeDirectories : Tool := fun arguments =>
  let (found, names) := options ['m'] arguments
  let make (files : FileTree) (name : Text) : Option FileTree :=
    if hasOption found 'p' && files.hasDirectory name then some files
    else (files.makeDirectory name).toOption
  let change (files : FileTree) (name : Text) : Option FileTree :=
    if hasOption found 'p' then
      let parts := splitOn '/' name
      (List.range parts.length).foldlM (fun files i =>
        let above := join ['/'] (parts.take (i + 1))
        if above.isEmpty then some files else make files above) files
    else make files name
  eachFile change names arguments

def removeDirectory : Tool := fun arguments =>
  let change (files : FileTree) (name : Text) : Option FileTree :=
    match files.find name with
    | .error _ => none
    | .ok place => if files.isDirectory place && (files.names place).isEmpty then some (files.remove place) else none
  eachFile change (options [] arguments).2 arguments

/-- Copies a file, and takes the old one away if it is moved. -/
def copy (moved : Bool) : Tool := fun arguments input files =>
  let result : Option FileTree :=
    match (options [] arguments).2 with
    | [old, new] => do
      let bytes ← files.read? old
      let target := if files.hasDirectory new then Path.within new ((Path.fileName? old).getD old) else new
      let after ← (files.write target bytes).toOption
      if moved then (files.find old).toOption.map after.remove else some after
    | _ => none
  { status := if result.isSome then 0 else 1, input, files := result.getD files }

/-- Writes the names in a directory. -/
def list : Tool := fun arguments input files =>
  let names := (options [] arguments).2
  let names : List Text := if names.isEmpty then [['.']] else names
  let shown (name : Text) : Option (List Text) := do
    let place ← (files.find name).toOption
    if files.isDirectory place then
      some (((files.names place).filter fun name => name.head? != some '.').mergeSort precedes)
    else some [name]
  let found := names.map shown
  { output := ended (found.flatMap fun names => names.getD [])
    status := if found.all Option.isSome then 0 else 2
    input
    files }

/-- A tool that writes a line and reads nothing. -/
def say (line : List Text → Text) : Tool := fun arguments input files =>
  { output := line arguments ++ ['\n'], input, files }

/-- The name of a path without its directories and without an ending. -/
def baseName (arguments : List Text) : Text :=
  let path := (((arguments.headD []).reverse.dropWhile (· == '/')).reverse)
  let name := ((splitOn '/' path).getLast?).getD []
  match arguments with
  | [_, ending] => if name == ending then name else (dropEnd? ending name).getD name
  | _ => name

def directoryName (arguments : List Text) : Text :=
  match breakOnLast? "/" (arguments.headD []) with
  | some (before, _) => if before.isEmpty then ['/'] else before
  | none => ['.']

/-- The result of a test of words, unless they make no sense. -/
def test? (files : FileTree) : Nat → List Text → Option Bool
  | 0, _ => none
  | _, [] => some false
  | _, [word] => some (!word.isEmpty)
  | fuel + 1, words =>
    let operator := String.ofList (words.getD 1 [])
    match words with
    | [left, _, right] =>
      let compare (holds : Int → Int → Bool) : Option Bool := do
        some (holds (← Arithmetic.ofValue? left) (← Arithmetic.ofValue? right))
      match operator with
      | "=" => some (left == right)
      | "!=" => some (left != right)
      | "-eq" => compare (· == ·)
      | "-ne" => compare (· != ·)
      | "-lt" => compare (decide <| · < ·)
      | "-le" => compare (decide <| · ≤ ·)
      | "-gt" => compare (decide <| · > ·)
      | "-ge" => compare (decide <| · ≥ ·)
      | "-a" => some (!left.isEmpty && !right.isEmpty)
      | "-o" => some (!left.isEmpty || !right.isEmpty)
      | _ => further fuel words
    | _ => further fuel words
where
  further (fuel : Nat) (words : List Text) : Option Bool :=
    match words with
    | ['!'] :: rest => (test? files fuel rest).map (!·)
    | [['('], word, [')']] => some (!word.isEmpty)
    | [['-', c], word] =>
      let place := (files.find word).toOption
      match c with
      | 'n' => some (!word.isEmpty)
      | 'z' => some word.isEmpty
      | 'e' => some place.isSome
      | 'f' => some (place.any files.isFile)
      | 'd' => some (place.any files.isDirectory)
      | 's' => some (((files.read? word).getD []).length != 0)
      | 'r' => some place.isSome
      | 'w' => some place.isSome
      | 'x' => some (place.any files.isDirectory)
      | 't' => some false
      | 'L' => some false
      | 'h' => some false
      | _ => none
    | words =>
      let split (mark : Text) : Option (List Text × List Text) :=
        match words.idxOf? mark with
        | some i => some (words.take i, words.drop (i + 1))
        | none => none
      match split "-o", split "-a" with
      | some (left, right), _ => return (← test? files fuel left) || (← test? files fuel right)
      | none, some (left, right) => return (← test? files fuel left) && (← test? files fuel right)
      | none, none => none

def test : Tool := fun arguments input files =>
  match test? files (arguments.length + 2) arguments with
  | some holds => { status := if holds then 0 else 1, input, files }
  | none => { status := 2, input, files }

/-- The name of the program at a path, or the path if programs are not kept there. -/
def nameOf (path : Text) : Text :=
  if startsWith path "/bin/" || startsWith path "/usr/bin/" then (Path.fileName? path).getD path else path

/-- The tool under a name. -/
def ofName? (name : String) : Option Tool :=
  let plain (change : Text → Text) : Tool := fun arguments => filter change (options [] arguments).2 arguments
  match name with
  | "true" => some fun _ input files => { input, files }
  | "false" => some fun _ input files => { status := 1, input, files }
  | "echo" => some fun arguments input files =>
    match arguments with
    | ['-', 'n'] :: rest => { output := join [' '] rest, input, files }
    | _ => { output := join [' '] arguments ++ ['\n'], input, files }
  | "printf" => some fun arguments input files =>
    { output := (printf arguments).1, status := (printf arguments).2, input, files }
  | "cat" => some catenate
  | "tac" => some (plain fun t => (linesWithEnds t).reverse.flatten)
  | "rev" => some (plain fun t =>
    (linesWithEnds t).flatMap fun line => (line.takeWhile (· != '\n')).reverse ++ line.dropWhile (· != '\n'))
  | "head" => some (part false)
  | "tail" => some (part true)
  | "tr" => some exchange
  | "cut" => some cut
  | "sort" => some sort
  | "uniq" => some unique
  | "wc" => some count
  | "grep" => some (search false false)
  | "egrep" => some (search true false)
  | "fgrep" => some (search false true)
  | "sed" => some edit
  | "tee" => some tee
  | "seq" => some sequence
  | "touch" => some touch
  | "rm" => some remove
  | "mkdir" => some makeDirectories
  | "rmdir" => some removeDirectory
  | "cp" => some (copy false)
  | "mv" => some (copy true)
  | "ls" => some list
  | "basename" => some (say baseName)
  | "dirname" => some (say directoryName)
  | "sleep" => some fun _ input files => { input, files }
  | "test" => some test
  | _ => none

end Tool

end RoffDocBook.Shell
