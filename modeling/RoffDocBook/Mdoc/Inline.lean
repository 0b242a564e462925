import RoffDocBook.Document.Paragraph
import RoffDocBook.Mdoc.State
import RoffDocBook.Vocabulary

/-! Lines of text in the semantic manual package, where requests call each other. -/
namespace RoffDocBook.Mdoc
open Text Markup

/-- A request whose arguments each become one element. -/
structure ElementRule where
  opening : Text
  closing : Text
  /-- What stands in the text if no argument is more than punctuation. -/
  fallback : Option Text := none

/-- Requests whose arguments become elements. -/
def elementRule? (token : Text) : Option ElementRule :=
  match String.ofList token with
  | "Fl" => some ⟨"<option>-", "</option>", some "<option>-</option>"⟩
  | "Ar" => some ⟨"<replaceable>", "</replaceable>", some "<replaceable>file ...</replaceable>"⟩
  | "Cm" => some { opening := "<option>", closing := "</option>" }
  | "Pa" => some { opening := "<filename>", closing := "</filename>" }
  | "Ev" => some { opening := "<envar>", closing := "</envar>" }
  | "Er" => some { opening := "<errorcode>", closing := "</errorcode>" }
  | "Dv" => some { opening := "<constant>", closing := "</constant>" }
  | "Va" => some { opening := "<varname>", closing := "</varname>" }
  | "Vt" | "Ft" | "Ot" => some { opening := "<type>", closing := "</type>" }
  | "Fa" => some { opening := "<parameter>", closing := "</parameter>" }
  | "Ic" => some { opening := "<command>", closing := "</command>" }
  | "Li" | "Ad" | "Cd" => some { opening := "<literal>", closing := "</literal>" }
  | "Em" => some { opening := "<emphasis>", closing := "</emphasis>" }
  | "Sy" => some { opening := "<emphasis role='strong'>", closing := "</emphasis>" }
  | "Mt" => some { opening := "<email>", closing := "</email>" }
  | "In" => some { opening := "<filename>&lt;", closing := "&gt;</filename>" }
  | _ => none

/-- Requests that enclose the rest of the line, with what they put around it. -/
def enclosure? (token : Text) : Option (Text × Text) :=
  match String.ofList token with
  | "Dq" => some ("&#8220;", "&#8221;")
  | "Qq" => some ("\"", "\"")
  | "Sq" => some ("&#8216;", "&#8217;")
  | "Pq" => some ("(", ")")
  | "Bq" | "Op" => some ("[", "]")
  | "Brq" => some ("\x7b", "\x7d")
  | "Aq" => some ("&lt;", "&gt;")
  | "Ql" => some ("<literal>", "</literal>")
  | _ => none

/-- Requests that open an enclosure which another request closes. -/
def opener? (token : Text) : Option Text :=
  match String.ofList token with
  | "Do" => some "&#8220;"
  | "So" => some "&#8216;"
  | "Qo" => some "\""
  | "Po" => some "("
  | "Bo" | "Oo" => some "["
  | "Bro" => some "\x7b"
  | "Ao" => some "&lt;"
  | _ => none

/-- Requests that close an enclosure. -/
def closer? (token : Text) : Option Text :=
  match String.ofList token with
  | "Dc" => some "&#8221;"
  | "Sc" => some "&#8217;"
  | "Qc" => some "\""
  | "Pc" => some ")"
  | "Bc" | "Oc" => some "]"
  | "Brc" => some "\x7d"
  | "Ac" => some "&gt;"
  | _ => none

/-- The markup of each of some texts. -/
def renderAll (doc : Document) : List Text → List Text × Document
  | [] => ([], doc)
  | text :: rest =>
    let (markup, doc) := doc.renderIsolated text
    let (others, doc) := renderAll doc rest
    (markup :: others, doc)

/-- A line with one more argument: punctuation, or a word in an element. -/
def addElement (rule : ElementRule) (out : Line × Document) (argument : Text) : Line × Document :=
  if isPunctuation argument then (out.1.punctuation argument, out.2)
  else
    let (markup, doc) := out.2.renderIsolated argument
    (out.1.word (rule.opening ++ markup ++ rule.closing), doc)

/-- A line with one more argument: punctuation, or a word. -/
def addWord (out : Line × Document) (argument : Text) : Line × Document :=
  addElement ⟨[], [], none⟩ out argument

/-- A reference to another page, and what follows it. -/
def addCitation (out : Line) (doc : Document) (body : List Text) : Line × Document :=
  match body with
  | [] => (out, doc)
  | page :: rest =>
    let (page, doc) := doc.renderIsolated page
    let volume : Text :=
      match rest with
      | [] => ""
      | volume :: _ => "<manvolnum>" ++ escape volume ++ "</manvolnum>"
    let out :=
      out.word ("<citerefentry><refentrytitle>" ++ page ++ "</refentrytitle>" ++ volume ++ "</citerefentry>")
    (rest.drop 1).foldl addWord (out, doc)

/-- A call of a function. -/
def addFunction (out : Line) (doc : Document) (body : List Text) : Line × Document :=
  match body with
  | [] => (out, doc)
  | name :: parameters =>
    let (parameters, doc) := renderAll doc parameters
    let (name, doc) := doc.renderIsolated name
    let inner := parameters.map fun parameter => ("<parameter>" ++ parameter ++ "</parameter>" : Text)
    (out.word ("<function>" ++ name ++ "</function>(" ++ join ", " inner ++ ")"), doc)

def addLink (out : Line) (doc : Document) (body : List Text) : Line × Document :=
  match body with
  | [] => (out, doc)
  | target :: texts =>
    let (target, doc) := doc.renderIsolated target
    let (texts, doc) := renderAll doc texts
    (out.word (doc.linkMarkup (stripTags target) (join " " texts)), doc)

/-- A reference to a section by its title. -/
def addSectionLink (out : Line) (doc : Document) (body : List Text) : Line × Document :=
  let (texts, doc) := renderAll doc body
  let title := join " " texts
  (out.word ("<link linkend='" ++ escapeAttribute (Slug.ofTitle title) ++ "'>" ++ title ++ "</link>"), doc)

/-- The title of a standard. -/
def addStandard (out : Line) (doc : Document) (body : List Text) : Line × Document :=
  match body with
  | [] => (out, doc)
  | abbreviation :: _ =>
    match Vocabulary.standard? abbreviation with
    | some title => (out.word (escape title), doc)
    | none => (out.word (escape abbreviation), doc.warn (.unknownStandard abbreviation))

/-- The name of an operating system with its version. -/
def systemName (token : Text) (name : String) (body : List Text) : Text :=
  match body with
  | [] => escape name
  | version :: _ =>
    if token == "At".toList then "Version " ++ escape version ++ " " ++ escape name
    else escape name ++ " " ++ escape version

/-- Adds what a request makes of its arguments up to their closing punctuation, which follows it. -/
def addBody (add : Line → Document → List Text → Line × Document) (out : Line) (doc : Document)
    (arguments : List Text) : Line × Document :=
  let (body, trail) := splitTrailing arguments
  let (out, doc) := add out doc body
  (trail.foldl Line.punctuation out, doc)

/-- Adds a call other than an enclosure to a line, and tells how many of the tokens after it belong to the call. -/
def addCall (out : Line) (doc : Document) (token : Text) (rest : List Text) : Line × Document × Nat :=
  let arguments := ownArguments rest
  let whole (result : Line × Document) : Line × Document × Nat := (result.1, result.2, arguments.length)
  match elementRule? token, opener? token, closer? token, Vocabulary.system? (String.ofList token) with
  | some rule, _, _, _ =>
    let out :=
      match rule.fallback with
      | some markup => if arguments.all isPunctuation then out.word markup else out
      | none => out
    whole (arguments.foldl (addElement rule) (out, doc))
  | none, some markup, _, _ => (out.opening markup, doc, 0)
  | none, none, some markup, _ => (out.closing markup, doc, 0)
  | none, none, none, some name =>
    whole (addBody (fun out doc body => (out.word (systemName token name body), doc)) out doc arguments)
  | none, none, none, none =>
    match String.ofList token with
    | "Nm" =>
      let named := arguments.head?.any fun argument => !isPunctuation argument
      let out := if named then out else out.word ("<command>" ++ doc.mdoc.mainName ++ "</command>")
      whole (arguments.foldl (addElement ⟨"<command>", "</command>", none⟩) (out, doc))
    | "No" | "Tn" | "Ms" | "Fr" | "An" =>
      let words := arguments.filter fun argument => argument != "-split".toList && argument != "-nosplit".toList
      whole (words.foldl addWord (out, doc))
    | "Xr" => whole (addBody addCitation out doc arguments)
    | "Fn" => whole (addBody addFunction out doc arguments)
    | "Lk" => whole (addBody addLink out doc arguments)
    | "Sx" => whole (addBody addSectionLink out doc arguments)
    | "St" => whole (addBody addStandard out doc arguments)
    | "Eo" =>
      match arguments with
      | [] => (out, doc, 0)
      | delimiter :: _ =>
        let (markup, doc) := doc.renderIsolated delimiter
        (out.opening markup, doc, 1)
    | "Ec" =>
      match arguments with
      | [] => (out, doc, 0)
      | delimiter :: _ =>
        let (markup, doc) := doc.renderIsolated delimiter
        (out.closing markup, doc, 1)
    | "Ns" => ({ out with tight := true }, doc, 0)
    | "Ap" => ({ out.closing "'" with tight := true }, doc, 0)
    | "Pf" =>
      match arguments with
      | [] => (out, doc, 0)
      | start :: _ =>
        let (markup, doc) := doc.renderIsolated start
        ({ out.word markup with tight := true }, doc, 1)
    | "Ta" => ({ out.word "\t" with tight := true }, doc, 0)
    | _ => whole (arguments.foldl addWord (out, doc))

/-- A line with the tokens of a request added to it. -/
def addTokens (out : Line) (doc : Document) (tokens : List Text) : Line × Document :=
  match tokens with
  | [] => (out, doc)
  | token :: rest =>
    if !isCallable token then
      let (out, doc) := addWord (out, doc) token
      addTokens out doc rest
    else
      match enclosure? token with
      | some (before, after) =>
        let (inner, doc) := addTokens {} doc (splitTrailing rest).1
        ((splitTrailing rest).2.foldl Line.punctuation (out.word (before ++ inner.text ++ after)), doc)
      | none =>
        let (out, doc, n) := addCall out doc token rest
        addTokens out doc (rest.drop n)
termination_by tokens.length
decreasing_by
  · simp
  · have := length_splitTrailing_le rest
    simp <;> omega
  · simp <;> omega

end RoffDocBook.Mdoc

namespace RoffDocBook.Document

/-- The markup of a request's tokens. -/
def renderTokens (doc : Document) (tokens : List Text) : Text × Document :=
  let (line, doc) := Mdoc.addTokens {} doc tokens
  (line.text, doc)

end RoffDocBook.Document
