import RoffDocBook.Document.Section
import RoffDocBook.Proofs.Document.Output
import RoffDocBook.Proofs.Markup.Nesting

/-! The text of the output lines, what a written piece does to the elements that it leaves open, and the oldest lines,
which writing does not touch. -/
namespace RoffDocBook.Document
open Text Markup

/-- The text of output lines, of which the most recent one comes first. -/
def body (lines : List Text) : Text :=
  unlines lines.reverse

/-- What stands between these lines and the next one. -/
def gap (lines : List Text) : Text :=
  if lines.isEmpty then [] else ['\n']

theorem tagless_gap (lines : List Text) : Tagless (gap lines) := by
  unfold gap
  split <;> decide

theorem unlines_concat (lines : List Text) (text : Text) :
    unlines (lines ++ [text]) = unlines lines ++ (gap lines ++ text) := by
  induction lines with
  | nil => simp [unlines, join, gap, List.intercalate]
  | cons first lines ih =>
    cases lines with
    | nil => simp [unlines, join, gap, List.intercalate]
    | cons second lines =>
      have hcons (rest : List Text) :
          unlines (first :: second :: rest) = first ++ '\n' :: unlines (second :: rest) := by
        simp [unlines, join, List.intercalate]
      rw [List.cons_append, List.cons_append, hcons, hcons, ← List.cons_append, ih]
      simp [gap]

theorem body_cons (text : Text) (lines : List Text) : body (text :: lines) = body lines ++ (gap lines ++ text) := by
  rw [body, List.reverse_cons, unlines_concat]
  simp [body, gap]

theorem body_lengthen (text : Text) (lines : List Text) : body (lengthen text lines) = body lines ++ text := by
  cases lines with
  | nil => simp [lengthen, body, unlines, join]
  | cons last before => simp [lengthen, body_cons]

/-- A piece of output that leads from one set of open elements to another. -/
def Adds (s : List Text) (piece : Text) (next : List Text) : Prop :=
  ∀ t, Leaves s t → Leaves next (t ++ piece)

section
variable {s next last : List Text} {piece more : Text}

theorem adds_text (h : Tagless piece) : Adds s piece s :=
  fun _ ht => .text ht h

theorem adds_tag {inner : Text} (h : TagStep s inner next) : Adds s (tag inner) next :=
  fun _ ht => .tag ht h

theorem Adds.append (h : Adds s piece next) (k : Adds next more last) : Adds s (piece ++ more) last := by
  intro t ht
  rw [← List.append_assoc]
  exact k _ (h t ht)

theorem leaves_lengthen {lines : List Text} (h : Leaves s (body lines)) (hp : Adds s piece next) :
    Leaves next (body (lengthen piece lines)) := by
  rw [body_lengthen]
  exact hp _ h

theorem leaves_cons {lines : List Text} (h : Leaves s (body lines)) (hp : Adds s piece next) :
    Leaves next (body (piece :: lines)) := by
  rw [body_cons, ← List.append_assoc]
  exact hp _ (.text h (tagless_gap lines))

theorem leaves_addLine {lines : List Text} (h : Leaves s (body lines)) (joins : Bool) (hp : Adds s piece next) :
    Leaves next (body (addLine joins piece lines)) := by
  unfold addLine
  split
  · exact leaves_lengthen h hp
  · exact leaves_cons h hp

end

/-- The first `n` lines of the output. -/
def oldest (n : Nat) (lines : List Text) : List Text :=
  lines.drop (lines.length - n)

theorem length_oldest {n : Nat} {lines : List Text} (h : n ≤ lines.length) : (oldest n lines).length = n := by
  rw [oldest, List.length_drop]
  omega

theorem oldest_oldest {n m : Nat} {lines : List Text} (h : n ≤ m) (hm : m ≤ lines.length) :
    oldest n (oldest m lines) = oldest n lines := by
  unfold oldest
  rw [List.drop_drop, List.length_drop]
  congr 1
  omega

theorem oldest_cons {n : Nat} {lines : List Text} (h : n ≤ lines.length) (text : Text) :
    oldest n (text :: lines) = oldest n lines := by
  unfold oldest
  rw [List.length_cons, Nat.succ_sub h, List.drop_succ_cons]

/-- Only the last line has changed, and lines have come after it. -/
def Keeps (before after : List Text) : Prop :=
  before.length ≤ after.length ∧ ∀ n < before.length, oldest n after = oldest n before

namespace Keeps
variable {a b c : List Text}

theorem refl (a : List Text) : Keeps a a :=
  ⟨Nat.le_refl _, fun _ _ => rfl⟩

theorem trans (h : Keeps a b) (k : Keeps b c) : Keeps a c :=
  ⟨Nat.le_trans h.1 k.1, fun n hn => (k.2 n (Nat.lt_of_lt_of_le hn h.1)).trans (h.2 n hn)⟩

theorem cons (text : Text) (lines : List Text) : Keeps lines (text :: lines) :=
  ⟨Nat.le_succ _, fun _ hn => oldest_cons (Nat.le_of_lt hn) text⟩

/-- The last line may be any other one. -/
theorem last (text other : Text) (lines : List Text) : Keeps (text :: lines) (other :: lines) :=
  ⟨Nat.le_refl _, fun n hn => by
    have hle : n ≤ lines.length := Nat.le_of_lt_succ hn
    rw [oldest_cons hle, oldest_cons hle]⟩

theorem lengthen (text : Text) (lines : List Text) : Keeps lines (Document.lengthen text lines) := by
  cases lines with
  | nil => exact .cons text []
  | cons last before => exact .last last (last ++ text) before

theorem addLine (joins : Bool) (text : Text) (lines : List Text) : Keeps lines (Document.addLine joins text lines) := by
  unfold Document.addLine
  split
  · exact .lengthen text lines
  · exact .cons text lines

end Keeps

end RoffDocBook.Document

/-! The elements that the output of a document leaves open are those that its state remembers: the paragraph, the open
item and the pending term, the lists, the displays and the sections. The output before each list and section leaves
open what is outside it, so that it can be taken back. -/
namespace RoffDocBook

namespace ListFrame

/-- The elements of an open item, where `waiting` tells whether its term is still to come. -/
def item (frame : ListFrame) (waiting : Bool) : List Text :=
  match frame.kind with
  | .terms => if waiting then ["varlistentry"] else ["listitem", "varlistentry"]
  | .itemized => ["listitem"]
  | .ordered => ["listitem"]
  | .blockquote => []

def elements (frame : ListFrame) (waiting : Bool) : List Text :=
  (if frame.itemOpen then frame.item waiting else []) ++ [frame.kind.element]

end ListFrame

def OpenBlock.elements (waiting : Bool) : OpenBlock → List Text
  | .list frame => frame.elements waiting
  | .display frame => [frame.kind.element]

namespace Document
open Text Markup

/-- The elements of open blocks, the innermost first; only the innermost block can wait for a term. -/
def blockElements (waiting : Bool) : List OpenBlock → List Text
  | [] => []
  | block :: rest => block.elements waiting ++ blockElements false rest

def sectionElements (sections : List OpenSection) : List Text :=
  sections.map (·.element)

/-- The open elements, the innermost first. -/
def stack (doc : Document) : List Text :=
  (if doc.inParagraph then [("para" : Text)] else []) ++
    (blockElements doc.trap.isSome doc.blocks ++ sectionElements doc.sections)

/-- A number of lines, and the elements that these lines leave open. -/
structure Mark where
  start : Nat
  outside : List Text

def sectionMarks : List OpenSection → List Mark
  | [] => []
  | mark :: rest => { start := mark.start, outside := sectionElements rest } :: sectionMarks rest

/-- The marks of the open lists and sections, the innermost first. -/
def marks (sections : List OpenSection) : List OpenBlock → List Mark
  | [] => sectionMarks sections
  | .list frame :: rest =>
    { start := frame.start, outside := blockElements false rest ++ sectionElements sections } :: marks sections rest
  | .display _ :: rest => marks sections rest

/-- The lines up to each mark leave open what is outside it. -/
structure Founded (lines : List Text) (marks : List Mark) : Prop where
  leaves : ∀ mark ∈ marks, mark.start < lines.length ∧ Leaves mark.outside (body (oldest mark.start lines))
  inner : marks.Pairwise fun inner outer => outer.start < inner.start

namespace Founded
variable {lines after : List Text} {marks : List Mark} {mark : Mark}

theorem keeps (h : Founded lines marks) (hk : Keeps lines after) : Founded after marks := by
  refine ⟨fun mark hm => ?_, h.inner⟩
  obtain ⟨hlt, hl⟩ := h.leaves mark hm
  refine ⟨Nat.lt_of_lt_of_le hlt hk.1, ?_⟩
  rw [hk.2 mark.start hlt]
  exact hl

/-- A mark at the end of the lines, after which a line is written. -/
theorem push (h : Founded lines marks) {s : List Text} (hs : Leaves s (body lines)) (text : Text) :
    Founded (text :: lines) ({ start := lines.length, outside := s } :: marks) := by
  have hk := h.keeps (.cons text lines)
  refine ⟨fun mark hm => ?_, List.pairwise_cons.mpr ⟨fun mark hm => (h.leaves mark hm).1, h.inner⟩⟩
  rcases List.mem_cons.mp hm with rfl | hm
  · refine ⟨Nat.lt_succ_self _, ?_⟩
    rw [oldest_cons (Nat.le_refl _), oldest, Nat.sub_self, List.drop_zero]
    exact hs
  · exact hk.leaves mark hm

theorem pop (h : Founded lines (mark :: marks)) : Founded lines marks :=
  ⟨fun other hm => h.leaves other (List.mem_cons_of_mem mark hm), (List.pairwise_cons.mp h.inner).2⟩

/-- What was written since the innermost mark can be taken back. -/
theorem truncate (h : Founded lines (mark :: marks)) :
    Founded (oldest mark.start lines) marks ∧ Leaves mark.outside (body (oldest mark.start lines)) := by
  obtain ⟨hlt, hl⟩ := h.leaves mark List.mem_cons_self
  obtain ⟨hinner, hpair⟩ := List.pairwise_cons.mp h.inner
  refine ⟨⟨fun other hm => ?_, hpair⟩, hl⟩
  have hother := hinner other hm
  obtain ⟨_, ho⟩ := h.leaves other (List.mem_cons_of_mem mark hm)
  rw [length_oldest (Nat.le_of_lt hlt), oldest_oldest (Nat.le_of_lt hother) (Nat.le_of_lt hlt)]
  exact ⟨hother, ho⟩

end Founded

/-- Text is filled outside all displays, and every display knows whether it is after it. -/
def Filling : Bool → List OpenBlock → Prop
  | fill, [] => fill = true
  | fill, .display frame :: rest => fill = false ∧ Filling frame.fillAfter rest
  | fill, .list _ :: rest => Filling fill rest

/-- The elements that sections are written as. -/
def sectionNames : List Text :=
  ["refsect1", "refsect2", "refsect3", "refsynopsisdiv", "sect1", "sect2", "sect3", "sect4", "sect5"]

/-- Displays alone change how text is written: whether it is filled, and whether it joins the last line. -/
structure Aligned (doc : Document) : Prop where
  filling : Filling doc.formatter.fill doc.blocks
  /-- Output joins the last line only after the start of a display. -/
  joins : doc.joinNext = true → ∃ frame rest, doc.blocks = .display frame :: rest

/-- The output and the state of a document agree on what is open. -/
structure Balanced (doc : Document) : Prop extends Aligned doc where
  leaves : Leaves doc.stack (body doc.lines)
  founded : Founded doc.lines (marks doc.sections doc.blocks)
  /-- A paragraph is open only where text is filled, and no term is awaited in it. -/
  paragraph : doc.inParagraph = true → doc.formatter.fill = true ∧ doc.trap = none
  /-- A trap waits for the term of the item that is open in the innermost list. -/
  trap : ∀ trap, doc.trap = some trap → trap = termTrap ∧
    ∃ frame rest, doc.blocks = .list frame :: rest ∧ frame.kind = .terms ∧ frame.itemOpen = true
  sections : ∀ mark ∈ doc.sections, mark.element ∈ sectionNames
  fonts : doc.fonts = {}
  substitutes : doc.substitutes = []
  suspended : doc.suspended = []

/-- A fresh document has written nothing and remembers nothing as open. -/
theorem balanced_start (name : String) (settings : Settings) (hints : Hints) (active : List Package) :
    Balanced { start name settings hints with active } where
  leaves := .nil
  founded := ⟨fun _ h => (by cases h), List.Pairwise.nil⟩
  filling := rfl
  paragraph h := by cases h
  trap _ h := by cases h
  joins h := by cases h
  sections _ h := by cases h
  fonts := rfl
  substitutes := rfl
  suspended := rfl

end Document

end RoffDocBook
