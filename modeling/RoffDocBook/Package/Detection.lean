import RoffDocBook.ControlLine
import RoffDocBook.Failure
import RoffDocBook.Package.Include

/-! Which packages a source is written for, told by the requests in it. -/
namespace RoffDocBook
open Text

/-- The packages of a source: the one that determines the kind of document, and others in order of discovery. -/
structure Detection where
  major : Package
  minors : List Package
  deriving DecidableEq, Repr

namespace Detection

/-- Requests that only one kind of document has. -/
def triggers : List (Package × List String) :=
  [(.man, ["TH"]), (.mdoc, ["Dd", "Dt"]), (.ms, ["AI", "NH", "LP", "RP", "QP", "XP"]),
    (.me, ["sh", "lp", "pp", "ip", "np", "(l", "(b", "+c"]), (.mm, ["MT", "HU", "AL", "BL", "DL", "VL", "LI", "AS"])]

/-- Requests of a cover sheet, which two kinds of document share. -/
def coverRequests : List String :=
  ["TL", "AU", "ND", "AB"]

/-- The kind of document that a request tells. -/
def majorOf? (name : String) (arguments : List Text) : Option Package :=
  if name == "H" && (arguments.head?.any fun level => (toNatBelow? Word.count32 level).isSome) then some .mm
  else if name == "mso" then (arguments.head?.bind Package.ofFile?).filter Package.exclusive
  else (triggers.find? fun entry => entry.2.contains name).map Prod.fst

/-- The further package that a line tells. -/
def minorOf? (line : Text) (name : Option String) (arguments : List Text) : Option Package :=
  if contains line "Pod::Man" then some .pod2man
  else
    match name, arguments.head? with
    | some "de", some argument =>
      if argument == "Vb" then some .pod2man else if argument == "AP" then some .tkman else none
    | some "so", some argument => if argument == "man.macros" then some .tkman else none
    | some "URL", _ | some "MTO", _ | some "FTP", _ => some .www
    | some "mso", some argument => (Package.ofFile? argument).filter fun package => !package.exclusive
    | _, _ => none

/-- The kind of document that the end of a file name tells. -/
def ofExtension? (file : Text) : Option Package :=
  match breakOnLast? "." file with
  | some (_, extension) => ([.man, .mdoc, .ms, .me, .mm] : List Package).find? (·.name.toList == extension)
  | none => none

/-- What the lines read so far tell. -/
structure Evidence where
  /-- Kinds of document in the order of their first requests. -/
  majors : List Package := []
  minors : List Package := []
  includes : List Text := []
  onlyIncludes : Bool := true
  cover : Bool := false

/-- The list with one more member, unless it has it. -/
def addNew (packages : List Package) (package : Option Package) : List Package :=
  match package with
  | some package => if packages.contains package then packages else packages ++ [package]
  | none => packages

/-- What one more line tells. -/
def Evidence.add (evidence : Evidence) (line : Text) : Evidence :=
  if isAllBlank line || ControlLine.isComment line then
    { evidence with minors := addNew evidence.minors (minorOf? line none []) }
  else
    match ControlLine.split? line '.' '\'' with
    | none =>
      { evidence with onlyIncludes := false, minors := addNew evidence.minors (minorOf? line none []) }
    | some (name, rest) =>
      let arguments := ControlLine.arguments rest
      let cover := coverRequests.contains name
      { majors := if cover then evidence.majors else addNew evidence.majors (majorOf? name arguments)
        minors := addNew evidence.minors (minorOf? line (some name) arguments)
        includes := if name == "so" then evidence.includes ++ arguments.take 1 else evidence.includes
        onlyIncludes := evidence.onlyIncludes && name == "so"
        cover := evidence.cover || cover }

/-- The kind of document, by the name of the file if its requests allow that, and otherwise by the first request. -/
def Evidence.major? (evidence : Evidence) (file : Text) : Option Package :=
  let first := evidence.majors.head? <|> (if evidence.cover then some Package.ms else none)
  match ofExtension? file with
  | some hinted =>
    if evidence.majors.contains hinted || (evidence.cover && (hinted = .ms || hinted = .mm)) then some hinted
    else first
  | none => first

/-- The packages that a source is written for. -/
def detect (file : String) (text : Text) : Except Failure Detection :=
  if isAllBlank text then .error .emptyInput
  else
    let evidence := (lines text).foldl Evidence.add {}
    match evidence.onlyIncludes, evidence.includes with
    | true, target :: _ => .error (.inclusionOnly target)
    | _, _ =>
      match evidence.major? file.toList with
      | some major => .ok { major, minors := evidence.minors }
      | none => .error .noPackage

end Detection

end RoffDocBook
