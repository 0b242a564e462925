import RoffDocBook.Document.Inline

/-! Lists and displays. A block is closed only after the blocks inside it, so the output stays nested. -/
namespace RoffDocBook

namespace OpenBlock

def isDisplay : OpenBlock → Bool
  | display _ => true
  | list _ => false

def list? : OpenBlock → Option ListFrame
  | list frame => some frame
  | display _ => none

def display? : OpenBlock → Option DisplayFrame
  | display frame => some frame
  | list _ => none

end OpenBlock

namespace Document
open Text Markup

/-- The open lists, the innermost first. -/
def openLists (doc : Document) : List ListFrame :=
  doc.blocks.filterMap OpenBlock.list?

/-- The open displays, the innermost first. -/
def openDisplays (doc : Document) : List DisplayFrame :=
  doc.blocks.filterMap OpenBlock.display?

def topList? (doc : Document) : Option ListFrame :=
  doc.openLists.head?

/-- Whether a request opened one of the open lists. -/
def hasList (doc : Document) (opener : String) : Bool :=
  doc.openLists.any fun frame => frame.opener == opener

/-- The innermost list with a change made to it. -/
def mapTopList (change : ListFrame → ListFrame) : List OpenBlock → List OpenBlock
  | [] => []
  | .list frame :: rest => .list (change frame) :: rest
  | block :: rest => block :: mapTopList change rest

/-- Writes the end of a display. -/
def writeDisplayEnd (doc : Document) (frame : DisplayFrame) : Document :=
  let doc := doc.closeFont.append ("</" ++ frame.kind.element ++ ">")
  { doc with formatter := { doc.formatter with fill := frame.fillAfter } }

/-- Closes the displays inside the innermost list. -/
def closeInnerDisplays (doc : Document) : Document :=
  go doc.blocks doc
where
  go : List OpenBlock → Document → Document
  | .display frame :: rest, doc => go rest ({ doc with blocks := rest }.writeDisplayEnd frame)
  | _, doc => doc

/-- Closes the open item of the innermost list, and otherwise the paragraph. -/
def closeItem (doc : Document) : Document :=
  match doc.topList? with
  | none => doc.closeParagraph
  | some frame =>
    if !frame.itemOpen then doc.closeParagraph
    else
      let doc := doc.closeInnerDisplays.flushTrap.closeParagraph
      let doc := { doc with blocks := mapTopList ({ · with itemOpen := false }) doc.blocks }
      if frame.kind = .blockquote then doc
      else
        let doc := if doc.lines.head?.any (endsWith · "<listitem>") then doc.append "<para/>" else doc
        let doc := doc.emit "</listitem>"
        if frame.kind = .terms then doc.append "</varlistentry>" else doc

/-- Closes the innermost list. A list without items that nothing was written into is taken back. -/
def endList (doc : Document) : Document :=
  if doc.openLists.isEmpty then doc
  else
    let doc := doc.closeItem.closeInnerDisplays.closeParagraph
    match doc.blocks with
    | .list frame :: rest =>
      let doc := { doc with blocks := rest }
      let untouched := doc.lines.length == frame.start + 1
      if untouched && frame.items == 0 then doc.truncate frame.start
      else
        let doc := if frame.kind = .blockquote && untouched then doc.append "<para/>" else doc
        doc.emit ("</" ++ frame.kind.element ++ ">")
    | _ => doc

/-- Closes as many lists as there are frames. -/
def endLists (frames : List ListFrame) (doc : Document) : Document :=
  frames.foldl (fun doc _ => doc.endList) doc

def endAllLists (doc : Document) : Document :=
  endLists doc.openLists doc

/-- The frames up to and including the first one that a request opened. -/
def framesThrough (opener : String) : List ListFrame → List ListFrame
  | [] => []
  | frame :: rest => if frame.opener == opener then [frame] else frame :: framesThrough opener rest

/-- Closes the lists up to and including the innermost one that a request opened, if there is one. -/
def endListBy (doc : Document) (opener : String) : Bool × Document :=
  if doc.hasList opener then (true, endLists (framesThrough opener doc.openLists) doc) else (false, doc)

/-- Closes the lists that a request breaks: none that is scoped or outside a scoped one, and none outside a list that
the same request opened. -/
def breakLists (doc : Document) (request : String) : Document :=
  endLists (framesThrough request (doc.openLists.takeWhile fun frame => !doc.isScoped frame.opener)) doc

/-- Opens a list with further attributes. -/
def beginListWith (doc : Document) (opener : String) (kind : ListKind) (attributes : Text) : Document :=
  let doc := doc.flushTrap.closeParagraph
  let start := doc.lines.length
  let doc := doc.emit ("<" ++ kind.element ++ attributes ++ " remap='" ++ escapeAttribute opener.toList ++ "'>")
  { doc with blocks := .list { opener, kind, start } :: doc.blocks }

def beginList (doc : Document) (opener : String) (kind : ListKind) : Document :=
  doc.beginListWith opener kind ""

/-- A trap that makes the next line of text a term. -/
def termTrap : Trap :=
  { before := "<term>", after := "</term><listitem>" }

/-- Starts an item of the innermost list. Without a term, an item of a list of terms takes the next line of text as
its term. -/
def beginItem (doc : Document) (term : Option Text) : Document :=
  let doc := doc.closeItem.closeInnerDisplays
  match doc.topList? with
  | none => doc
  | some frame =>
    let opened (frame : ListFrame) : ListFrame := { frame with items := frame.items + 1, itemOpen := true }
    let doc := { doc with blocks := mapTopList opened doc.blocks }
    match frame.kind, term with
    | .terms, some term => (doc.emit ("<varlistentry><term>" ++ term ++ "</term>")).emit "<listitem>"
    | .terms, none => { doc.emit "<varlistentry>" with trap := some termTrap }
    | .itemized, _ => doc.emit "<listitem>"
    | .ordered, _ => doc.emit "<listitem>"
    | .blockquote, _ => doc

/-- Lets the next line of text be one more term of the entry that has just begun; false if none has. -/
def addTerm (doc : Document) : Bool × Document :=
  match doc.lines with
  | [] => (false, doc)
  | last :: before =>
    match dropEnd? "<listitem>" last with
    | some stripped =>
      if endsWith stripped "</term>" then
        (true, { doc with lines := stripped :: before, trap := some termTrap })
      else (false, doc)
    | none => (false, doc)

/-- Opens a display, in which text is not filled. -/
def beginDisplay (doc : Document) (kind : DisplayKind) (opener : String) : Document :=
  let doc := doc.flushTrap.closeParagraph
  let doc := doc.emit ("<" ++ kind.element ++ " remap='" ++ escapeAttribute opener.toList ++ "'>")
  { doc with
    joinNext := true
    blocks := .display { kind, opener, fillAfter := doc.formatter.fill } :: doc.blocks
    formatter := { doc.formatter with fill := false } }

def inDisplay (doc : Document) : Bool :=
  !doc.openDisplays.isEmpty

/-- Closes the innermost display with the lists inside it; false if none is open. -/
def endDisplay (doc : Document) : Bool × Document :=
  if doc.openDisplays.isEmpty then (false, doc)
  else
    let doc := endLists ((doc.blocks.takeWhile fun block => !block.isDisplay).filterMap OpenBlock.list?) doc
    match doc.blocks with
    | .display frame :: rest => (true, { doc with blocks := rest }.writeDisplayEnd frame)
    | _ => (true, doc)

def endAllDisplays (doc : Document) : Document :=
  doc.openDisplays.foldl (fun doc _ => doc.endDisplay.2) doc

end Document

end RoffDocBook
