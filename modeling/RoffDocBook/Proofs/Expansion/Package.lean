import RoffDocBook.Proofs.Place.Ahead
import RoffDocBook.Proofs.Place.Package

/-! What carrying out a request does to the input and to the macros that are being expanded: it takes items from the
front of the input, puts lines back, or moves the arguments of the innermost macro up. A macro is begun by nothing else
than its invocation. -/
namespace RoffDocBook.Document
open Text

/-- A macro is left together with its end and what stands before that. -/
theorem reads_leaveMacro (doc : Document) : Reads doc doc.leaveMacro := by
  cases hu : doc.input.unwind? with
  | none =>
    rw [leaveMacro, hu]
    exact .refl doc
  | some found =>
    obtain ⟨number, rest⟩ := found
    obtain ⟨above, hinput, habove⟩ := Input.unwind?_eq_some hu
    rw [leaveMacro, hu]
    refine ⟨above ++ [.finish number], ?_, ?_⟩
    · rw [hinput, List.append_assoc]
      rfl
    · rw [Input.ends_append, habove]
      exact List.drop_one.symm

/-- The documents that a request leads to. The arguments of the innermost macro move up only among macros where that is
admitted. -/
inductive Motion (movable : List Formatter.Invocation → Prop) (base : Document) : Document → Prop where
  | refl : Motion movable base base
  | reads {a b : Document} (h : Motion movable base a) (hr : Reads a b) : Motion movable base b
  | pushLines {a : Document} (h : Motion movable base a) (lines : List Text) :
    Motion movable base { a with input := a.input.pushLines lines }
  | shiftArguments {a : Document} (h : Motion movable base a) (n : Nat) (hm : movable a.formatter.invocations) :
    Motion movable base (a.shiftArguments n)

namespace Motion
variable {movable : List Formatter.Invocation → Prop} {base a b doc : Document}

theorem of_place (h : Motion movable base a) (hp : b.place = a.place) : Motion movable base b :=
  h.reads (.of_place hp)

theorem pushLine (h : Motion movable base doc) (line : Text) : Motion movable base (doc.pushLine line) :=
  h.pushLines [line]

/-- A change to the formatter that leaves the macros that are being expanded. -/
theorem setFormatter (h : Motion movable base doc) (formatter : Formatter.State)
    (hi : formatter.invocations = doc.formatter.invocations) : Motion movable base { doc with formatter } :=
  h.of_place (congrArg (doc.input, ·) hi)

theorem leaveMacro (h : Motion movable base doc) : Motion movable base doc.leaveMacro :=
  h.reads (reads_leaveMacro doc)

end Motion

/-- The documents that a statement leads to: it is carried out by a package, or it invokes a macro. -/
inductive Moves (movable : List Formatter.Invocation → Prop) (base doc : Document) : Prop where
  | motion (h : Motion movable base doc)
  | invoke {a : Document} (ha : a.place = base.place) (request : Request) (hp : doc.place = (a.invoke request).place)

theorem Moves.of_place {movable : List Formatter.Invocation → Prop} {base a b : Document} (h : Moves movable base a)
    (hp : b.place = a.place) : Moves movable base b := by
  cases h with
  | motion h => exact .motion (h.of_place hp)
  | invoke ha request hi => exact .invoke ha request (hp.trans hi)

end RoffDocBook.Document

/-! The ends of macros in the input keep step with the macros that are being expanded: each end belongs to one of them,
in the same order and with the line that invoked it, and there are never more than the nesting allows. -/
namespace RoffDocBook.Document
open Text

/-- Each macro that is being expanded has its end in the input. -/
structure Lockstep (doc : Document) : Prop where
  ends : doc.input.ends = doc.formatter.invocations.map (·.line)
  nesting : doc.formatter.invocations.length ≤ maximalNesting

namespace Lockstep
variable {a b doc : Document}

theorem reads (h : Lockstep a) (hr : Reads a b) : Lockstep b := by
  obtain ⟨passed, hinput, hinvocations⟩ := hr
  have hends := h.ends
  rw [hinput, Input.ends_append] at hends
  constructor
  · rw [hinvocations, List.map_drop, ← hends, List.drop_left]
  · rw [hinvocations, List.length_drop]
    exact Nat.le_trans (Nat.sub_le _ _) h.nesting

theorem of_place (h : Lockstep a) (hp : b.place = a.place) : Lockstep b :=
  h.reads (.of_place hp)

/-- A macro begins with its end put behind its body. -/
theorem invoke (h : Lockstep doc) (request : Request) : Lockstep (doc.invoke request) := by
  unfold Document.invoke
  split
  · exact h.of_place (error_place doc _)
  · rename_i hn
    split
    · exact h
    · constructor
      · dsimp only
        rw [Input.ends_pushLines]
        exact congrArg (doc.line :: ·) h.ends
      · exact Nat.lt_of_not_le hn

/-- A macro is left together with its end and what stands before that. -/
theorem leaveMacro_eq (h : Lockstep doc) :
    match doc.formatter.invocations with
    | [] => doc.leaveMacro = doc
    | innermost :: outer =>
      ∃ above rest, doc.input = above ++ .finish innermost.line :: rest ∧ Input.ends above = [] ∧
        doc.leaveMacro =
          { doc with
            input := rest
            line := innermost.line
            formatter := { doc.formatter with invocations := outer } } := by
  have hends := h.ends
  cases hi : doc.formatter.invocations with
  | nil =>
    rw [hi] at hends
    dsimp only
    rw [leaveMacro, Input.unwind?_eq_none_iff.mpr hends]
  | cons innermost outer =>
    cases hu : doc.input.unwind? with
    | none =>
      rw [Input.unwind?_eq_none_iff.mp hu, hi] at hends
      cases hends
    | some found =>
      obtain ⟨number, rest⟩ := found
      obtain ⟨above, hinput, habove⟩ := Input.unwind?_eq_some hu
      rw [hinput, Input.ends_append, habove, hi] at hends
      obtain ⟨rfl, _⟩ := List.cons.inj hends
      refine ⟨above, rest, hinput, habove, ?_⟩
      rw [leaveMacro, hu]
      dsimp only
      rw [hi]
      rfl

theorem shiftArguments (h : Lockstep doc) (n : Nat) : Lockstep (doc.shiftArguments n) := by
  have hends := h.ends
  have hnesting := h.nesting
  unfold Document.shiftArguments
  split
  · exact h
  · rename_i innermost outer hi
    rw [hi] at hends hnesting
    exact ⟨hends, hnesting⟩

theorem motion {movable : List Formatter.Invocation → Prop} (h : Lockstep a) (hm : Motion movable a b) :
    Lockstep b := by
  induction hm with
  | refl => exact h
  | reads _ hr ih => exact ih.reads hr
  | pushLines _ lines ih => exact ⟨(Input.ends_pushLines _ _).trans ih.ends, ih.nesting⟩
  | shiftArguments _ n _ ih => exact ih.shiftArguments n

/-- Whatever a statement does, the ends keep step. -/
theorem moves {movable : List Formatter.Invocation → Prop} (h : Lockstep a) (hm : Moves movable a b) : Lockstep b := by
  cases hm with
  | motion hm => exact h.motion hm
  | invoke ha request hp => exact ((h.of_place ha).invoke request).of_place hp

end Lockstep

end RoffDocBook.Document

/-! What the requests of the formatter do to the input and to the macros that are being expanded. The two that drop the
rest of the input are left out: they drop the ends of macros and leave the macros. -/
namespace RoffDocBook
open Text

/-- What holds of the document that a package leaves, if it has carried the request out. -/
def Outcome.After (p : Document → Prop) : Outcome → Prop
  | .declined => True
  | .done doc => p doc
  | .aborted _ doc => p doc

namespace Document.Motion
variable {movable : List Formatter.Invocation → Prop} {base doc : Document}

theorem splice (h : Motion movable base doc) (bytes : List UInt8) : Motion movable base (doc.splice bytes) :=
  h.pushLines _

theorem sourceFile (h : Motion movable base doc) (file : Text) : Motion movable base (doc.sourceFile file) := by
  unfold Document.sourceFile
  split
  · exact h.of_place (warn_place doc _)
  · split
    · exact h.of_place rfl
    · split
      · exact h.of_place (referToFile_place _ file)
      · split
        · exact h.splice _
        · exact h.of_place (referToFile_place doc file)

theorem sourcePackage (h : Motion movable base doc) (file : Text) : Motion movable base (doc.sourcePackage file) := by
  unfold Document.sourcePackage
  split
  · exact h.of_place rfl
  · dsimp only
    split
    · exact h.splice _
    · exact h.of_place (warn_place doc _)

theorem governed (h : Motion movable base doc) (taken : Bool) (statement : Text) :
    Motion movable base (doc.governed taken statement) := by
  unfold Document.governed
  dsimp only
  split
  · split
    · split
      · exact h
      · exact h.pushLine _
    · exact h.reads (reads_skipBlock doc _)
  · split
    · exact h.pushLine _
    · exact h

theorem condition (h : Motion movable base doc) (t : Text) :
    Motion movable base { doc with formatter := (doc.formatter.condition t).2 } :=
  h.setFormatter _ (doc.formatter.recounts_condition t).invocations

theorem guard (h : Motion movable base doc) (request : Request) : Motion movable base (doc.guard request).2.2 := by
  have hc := h.condition request.rest
  unfold Document.guard
  dsimp only
  split
  · exact hc.of_place (warn_place _ _)
  · exact hc

theorem ifRequest (h : Motion movable base doc) (request : Request) : Motion movable base (doc.ifRequest request) :=
  (h.guard request).governed _ _

theorem ifElseRequest (h : Motion movable base doc) (request : Request) :
    Motion movable base (doc.ifElseRequest request) := by
  refine Motion.governed ?_ _ _
  exact (h.guard request).setFormatter _ rfl

theorem elseRequest (h : Motion movable base doc) (request : Request) :
    Motion movable base (doc.elseRequest request) := by
  unfold Document.elseRequest
  split
  · refine Motion.governed ?_ _ _
    exact h.setFormatter _ rfl
  · exact (h.of_place (warn_place doc _)).governed _ _

theorem whileRequest (h : Motion movable base doc) (request : Request) :
    Motion movable base (doc.whileRequest request) :=
  ((h.of_place (warn_place doc .loopNotInterpreted)).condition request.rest).governed _ _

theorem formatterRequest (h : Motion movable base doc) {request : Request}
    (hq : request.name ≠ "ex" ∧ request.name ≠ "nx")
    (hm : request.name = "shift" → movable doc.formatter.invocations) :
    (doc.formatterRequest request).After (Motion movable base) := by
  unfold Document.formatterRequest
  extract_lets setFormatter
  split
  -- Strings, names and registers.
  · exact h.of_place (defineString_place doc request false)
  · exact h.of_place (defineString_place doc request false)
  · exact h.of_place (defineString_place doc request true)
  · exact h.of_place (defineString_place doc request true)
  · exact h.of_place (removeNames_place doc _)
  · exact h.of_place (rename_place doc _ _ true)
  · exact h.of_place (rename_place doc _ _ false)
  · exact h.of_place (setNumber_place doc request)
  · exact h.of_place rfl
  -- Definitions read their lines ahead.
  · exact h.reads (reads_defineMacro doc request false)
  · exact h.reads (reads_defineMacro doc request false)
  · exact h.reads (reads_defineMacro doc request true)
  · exact h.reads (reads_defineMacro doc request true)
  · exact h.setFormatter _ rfl
  · exact h.reads (reads_ignoreBlock doc _)
  -- Conditionals put the statement that they govern back.
  · exact h.ifRequest request
  · exact h.ifElseRequest request
  · exact h.elseRequest request
  · exact h.whileRequest request
  -- The innermost macro is left, or its arguments move up.
  · exact h.leaveMacro
  · exact h.shiftArguments _ (hm ‹_›)
  · exact h.reads (reads_divert doc request)
  · exact h.reads (reads_divert doc request)
  · exact h.of_place (defineGlyph_place doc request)
  · exact h.pushLine _
  · exact h.pushLine _
  · exact h.of_place (warn_place doc _)
  · exact h.of_place (warn_place doc _)
  · exact h.of_place (warn_place doc _)
  · exact h
  -- These two drop the rest of the input.
  · exact absurd ‹request.name = "ex"› hq.1
  · exact absurd ‹request.name = "nx"› hq.2
  · exact h.setFormatter _ rfl
  · exact h.setFormatter _ rfl
  -- Other files are put in front of the input.
  · exact h.sourceFile _
  · exact h.sourcePackage _
  · exact h.of_place (substituteUnits_place doc _)
  · exact h.of_place rfl
  · exact h.of_place (setFont_place doc _)
  · exact h.of_place (noFill_place doc)
  · exact h.of_place (fill_place doc)
  · exact h
  · exact h.of_place (space_place doc _)
  · exact h.of_place (closeParagraph_place doc)
  · exact h.of_place (titleLine_place doc _)
  · trivial

end Document.Motion

end RoffDocBook

/-! What the requests of the packages for pages and papers do to the input and to the macros that are being expanded.
Those of papers and hypertext read ahead at most; those of manual pages also put lines back. -/
namespace RoffDocBook.Document.Motion
open Text Markup
variable {movable : List Formatter.Invocation → Prop} {base doc : Document}

theorem manSynopsisLines_go (h : Motion movable base doc) (left : Nat) :
    Motion movable base (manSynopsisLines.go left doc).2.2 := by
  induction left generalizing doc with
  | zero => exact h
  | succ left ih =>
    have hread := h.reads (reads_nextRawLine doc)
    rw [manSynopsisLines.go]
    generalize doc.nextRawLine = found at hread
    match found with
    | (none, next) => exact hread
    | (some line, next) =>
      dsimp only
      split
      -- The request that opens the next block is put back.
      · exact hread.pushLine line
      · split
        · exact hread
        · exact ih hread

theorem manSynopsis (h : Motion movable base doc) (request : Request) :
    Motion movable base (doc.manSynopsis request) := by
  have hlines := h.manSynopsisLines_go doc.input.length
  unfold Document.manSynopsis Document.manSynopsisLines
  generalize manSynopsisLines.go doc.input.length doc = found at hlines
  obtain ⟨lines, closed, next⟩ := found
  dsimp only
  split
  · exact hlines.of_place ((foldl_place _ emitMarkup_place _).trans (closeParagraph_place next))
  · refine pushLines (hlines.of_place ?_) lines
    rw [textLine_place, closeParagraph_place, apply_ite place, warn_place, ite_self]

theorem liftSynopsis (h : Motion movable base doc) (stops : List String) :
    Motion movable base (doc.liftSynopsis stops).2 := by
  have hread := h.reads (reads_takeUntil doc stops)
  unfold Document.liftSynopsis
  generalize doc.takeUntil stops = found at hread
  obtain ⟨lines, next⟩ := found
  dsimp only
  split
  · exact hread.pushLines lines
  · refine hread.of_place ((foldl_place _ emitMarkup_place _).trans ((closeParagraph_place _).trans ?_))
    refine (foldl_place _ ?_ _).trans (foldl_place _ ?_ _)
    · intro doc name
      exact learn_place doc _ _
    · intro doc reason
      rfl

theorem manSection (h : Motion movable base doc) (request : Request) (depth : Nat) :
    Motion movable base (doc.manSection request depth) := by
  have hheading := h.reads (reads_manHeading doc request)
  unfold Document.manSection
  generalize doc.manHeading request = heading at hheading
  obtain ⟨title, next⟩ := heading
  dsimp only
  split
  · refine of_place (reads ?_ (reads_gatherText _)) (nameSection_place _ _)
    exact hheading.of_place (popSections_place next 1)
  · split
    · refine liftSynopsis (hheading.of_place ?_) _
      exact (pushSynopsis_place _ _).trans (renderIsolated_place _ _)
    · exact hheading.of_place ((pushSection_place _ _ _).trans (renderIsolated_place _ _))

theorem manRequest (h : Motion movable base doc) (request : Request) :
    (doc.manRequest request).After (Motion movable base) := by
  unfold Document.manRequest
  extract_lets arguments
  split
  · exact h.of_place (manTitle_place doc request)
  · exact h.manSection request 1
  · exact h.manSection request 2
  · exact h.of_place (closeParagraph_place doc)
  · exact h.of_place (closeParagraph_place doc)
  · exact h.of_place (closeParagraph_place doc)
  · exact h.of_place (closeParagraph_place doc)
  · exact h.of_place (taggedParagraph_place doc)
  · exact h.of_place ((complainUnless_place _ _).trans (addTerm_place doc))
  · exact h.of_place (indentedParagraph_place doc _ _)
  · exact h.of_place ((beginItem_place _ none).trans (beginList_place doc _ _))
  · exact h.of_place ((complainUnless_place _ _).trans (endListBy_place doc _))
  · exact h.reads (reads_fontLine doc _ _)
  · exact h.reads (reads_fontLine doc _ _)
  · exact h.reads (reads_fontLine doc _ _)
  · exact h.reads (reads_fontLine doc _ _)
  · exact h.of_place (alternateFonts_place doc _ _ _)
  · exact h.of_place (alternateFonts_place doc _ _ _)
  · exact h.of_place (alternateFonts_place doc _ _ _)
  · exact h.of_place (alternateFonts_place doc _ _ _)
  · exact h.of_place (alternateFonts_place doc _ _ _)
  · exact h.of_place (alternateFonts_place doc _ _ _)
  · exact h.manSynopsis request
  · exact h.of_place (textLine_place doc _)
  · exact h.of_place (closeParagraph_place doc)
  · exact h.reads (reads_manLink doc _ _ _)
  · exact h.reads (reads_manLink doc _ _ _)
  · exact h.of_place (warn_place doc _)
  · exact h.of_place (warn_place doc _)
  · exact h.of_place (beginDisplay_place doc _ _)
  · exact h.of_place ((complainUnless_place _ _).trans (endDisplay_place doc))
  · exact h.of_place (indexTerm_place doc _)
  · trivial

theorem mdocGeneral (h : Motion movable base doc) (request : Request) :
    (doc.mdocGeneral request).After (Motion movable base) := by
  unfold Document.mdocGeneral
  extract_lets arguments tokens
  split
  · exact h.of_place (referenceField_place doc request _)
  · split
    · exact h.of_place ((setParameters_place _ _).trans ((textLine_place _ _).trans (renderIsolated_place doc _)))
    · exact h.of_place ((textLine_place _ _).trans (renderTokens_place _ _))
    · exact h.of_place (beginMdocList_place doc _)
    · exact h.reads (reads_mdocItem doc _)
    · exact h.of_place (endMdocList_place doc)
    · exact h.of_place (beginMdocDisplay_place doc _)
    · exact h.of_place (endMdocDisplay_place doc)
    · exact h.of_place ((emitMarkup_place _ _).trans ((closeParagraph_place _).trans (renderTokens_place doc _)))
    · exact h.of_place ((emitMarkup_place _ _).trans ((closeParagraph_place _).trans (renderTokens_place doc _)))
    · exact h.of_place (setFont_place doc _)
    · exact h.of_place (setFont_place doc _)
    · exact h.of_place rfl
    · exact h.of_place (endReference_place doc)
    · exact h.of_place ((textLine_place _ _).trans (standardSentence_place doc _ _))
    · exact h.of_place ((textLine_place _ _).trans (standardSentence_place doc _ _))
    · exact h.of_place ((textLine_place _ _).trans (standardSentence_place doc _ _))
    · exact h.of_place ((textLine_place _ _).trans (standardSentence_place doc _ _))
    · split
      · exact h.of_place (synopsisTokens_place doc tokens)
      · split
        · exact h.of_place (textTokens_place doc tokens)
        · trivial

theorem mdocRequest (h : Motion movable base doc) (request : Request) :
    (doc.mdocRequest request).After (Motion movable base) := by
  unfold Document.mdocRequest
  extract_lets arguments
  split
  · exact h.of_place rfl
  · exact h.of_place rfl
  · exact h.of_place rfl
  · exact h.of_place (mdocSection_place doc _ 1)
  · exact h.of_place (mdocSection_place doc _ 2)
  · exact h.of_place (closeParagraph_place doc)
  · exact h.of_place (closeParagraph_place doc)
  · exact h.of_place (addPageNames_place doc _)
  · have named := h.of_place ((emitNames_place (doc.renderTokens arguments).2
      (doc.renderTokens arguments).2.mdoc.names (doc.renderTokens arguments).1).trans (renderTokens_place doc arguments))
    exact named.of_place (by rfl)
  · exact h.of_place (beginCommand_place doc _)
  · split
    · exact h.of_place (functionRequest_place doc _ _)
    · exact h.of_place ((textLine_place _ _).trans (textParameters_place doc _ _))
    · exact h.mdocGeneral request
  · split
    · exact h.of_place (functionRequest_place doc _ _)
    · exact h.mdocGeneral request
  · exact h.mdocGeneral request

theorem msRequest (h : Motion movable base doc) (request : Request) :
    (doc.msRequest request).After (Motion movable base) := by
  unfold Document.msRequest
  extract_lets arguments
  split
  · exact h.reads (reads_paperTitle doc)
  · exact h.reads ((reads_gatherLines doc).write (foldl_place _ addAuthor_place _))
  · exact h.reads ((reads_gatherLines doc).write (setAffiliation_place _ _))
  · exact h.of_place (paperDate_place doc _)
  · exact h.of_place (paperDate_place doc _)
  · exact h.of_place (beginAbstract_place doc)
  · exact h.of_place (endAbstract_place doc _ _)
  · exact h.reads (reads_msHeading doc _)
  · exact h.reads (reads_msHeading doc _)
  · exact h.of_place (closeParagraph_place doc)
  · exact h.of_place (closeParagraph_place doc)
  · exact h.of_place (closeParagraph_place doc)
  · exact h.of_place ((beginItem_place _ none).trans (beginList_place doc _ _))
  · exact h.of_place ((beginItem_place _ none).trans (beginList_place doc _ _))
  · exact h.of_place (indentedParagraph_place doc _ _)
  · exact h.of_place ((complainUnless_place _ _).trans (endListBy_place doc _))
  · exact h.of_place (beginDisplay_place doc _ _)
  · exact h.of_place (beginDisplay_place doc _ _)
  · exact h.of_place (beginDisplay_place doc _ _)
  · exact h.of_place (beginDisplay_place doc _ _)
  · exact h.of_place (beginDisplay_place doc _ _)
  · exact h.of_place ((complainUnless_place _ _).trans (endDisplay_place doc))
  · exact h.of_place (beginFootnote_place doc)
  · exact h.of_place (endFootnote_place doc)
  · exact h.of_place (wordInFont_place doc _ _)
  · exact h.of_place (wordInFont_place doc _ _)
  · exact h.of_place (wordInFont_place doc _ _)
  · exact h.of_place (wordInFont_place doc _ _)
  · exact h.of_place (wordInFont_place doc _ _)
  · exact h.of_place (wordInFont_place doc _ _)
  · exact h.reads (reads_gatherBlock doc _)
  · exact h.reads (reads_gatherBlock doc _)
  · trivial

theorem meRequest (h : Motion movable base doc) (request : Request) :
    (doc.meRequest request).After (Motion movable base) := by
  unfold Document.meRequest
  extract_lets arguments
  split
  · exact h.reads (reads_paperHeading doc _ _)
  · exact h.reads (reads_paperHeading doc _ _)
  · exact h.reads (reads_paperHeading doc _ _)
  · exact h.reads (reads_paperHeading doc _ _)
  · exact h.of_place (closeParagraph_place doc)
  · exact h.of_place (closeParagraph_place doc)
  · exact h.of_place (indentedParagraph_place doc _ _)
  · exact h.of_place (meItem_place doc _ _)
  · exact h.of_place (meItem_place doc _ _)
  · exact h.of_place (wordInFont_place doc _ _)
  · exact h.of_place (wordInFont_place doc _ _)
  · exact h.of_place (wordInFont_place doc _ _)
  · exact h.of_place (wordInFont_place doc _ _)
  · exact h.of_place (wordInFont_place doc _ _)
  · exact h.of_place (textLine_place doc _)
  · split
    · split
      · exact h.of_place (renderIsolated_place doc _)
      · trivial
    · trivial
  · exact h.reads (reads_gatherBlock doc _)
  · exact h.reads (reads_gatherBlock doc _)
  · split
    · split
      · exact h.of_place (beginLettered_place doc _)
      · trivial
    · split
      · exact h.of_place (endLettered_place doc _)
      · trivial
    · trivial

theorem mmRequest (h : Motion movable base doc) (request : Request) :
    (doc.mmRequest request).After (Motion movable base) := by
  unfold Document.mmRequest
  extract_lets arguments joined
  split
  · exact h.reads (reads_paperTitle doc)
  · refine h.of_place ?_
    rw [apply_ite place, addAuthor_place, ite_self]
  · exact h.of_place (setAffiliation_place doc _)
  · exact h.of_place (paperDate_place doc _)
  · exact h.of_place (beginAbstract_place doc)
  · exact h.of_place (endAbstract_place doc _ _)
  · exact h.reads (reads_mmHeading doc request)
  · exact h.reads (reads_paperHeading doc _ _)
  · exact h.of_place (closeParagraph_place doc)
  · exact h.of_place (beginListWith_place doc _ _ _)
  · exact h.of_place (beginList_place doc _ _)
  · exact h.of_place (beginList_place doc _ _)
  · exact h.of_place (beginListWith_place doc _ _ _)
  · exact h.of_place (beginListWith_place doc _ _ _)
  · exact h.of_place (beginList_place doc _ _)
  · exact h.of_place (beginList_place doc _ _)
  · exact h.of_place (mmItem_place doc _)
  · refine h.of_place ?_
    rw [apply_ite place, warn_place, endList_place, ite_self]
  · exact h.of_place (beginDisplay_place doc _ _)
  · exact h.of_place (beginDisplay_place doc _ _)
  · exact h.of_place ((complainUnless_place _ _).trans (endDisplay_place doc))
  · exact h.of_place (beginFootnote_place doc)
  · exact h.of_place (beginFootnote_place doc)
  · exact h.of_place (endFootnote_place doc)
  · exact h.of_place (endFootnote_place doc)
  · exact h.of_place (renderIsolated_place doc _)
  · exact h.of_place ((emitMarkup_place _ _).trans ((closeParagraph_place _).trans (renderIsolated_place doc _)))
  · exact h.of_place ((emitMarkup_place _ _).trans ((closeParagraph_place _).trans (renderIsolated_place doc _)))
  · exact h.of_place ((emitMarkup_place _ _).trans ((closeParagraph_place _).trans (renderIsolated_place doc _)))
  · exact h.of_place (mmFont_place doc _ _ _)
  · exact h.of_place (mmFont_place doc _ _ _)
  · exact h.of_place (setFont_place doc _)
  · exact h.of_place (alternateFonts_place doc _ _ _)
  · exact h.of_place (alternateFonts_place doc _ _ _)
  · exact h.of_place (alternateFonts_place doc _ _ _)
  · exact h.of_place (alternateFonts_place doc _ _ _)
  · exact h.of_place (alternateFonts_place doc _ _ _)
  · exact h.of_place (alternateFonts_place doc _ _ _)
  · trivial

theorem pod2manRequest (h : Motion movable base doc) (request : Request) :
    (doc.pod2manRequest request).After (Motion movable base) := by
  unfold Document.pod2manRequest
  extract_lets arguments
  split
  · exact h.of_place (beginDisplay_place doc _ _)
  · exact h.of_place ((complainUnless_place _ _).trans (endDisplay_place doc))
  · refine h.of_place ?_
    rw [apply_ite place, textLine_place, closeParagraph_place, ite_self]
  · refine h.of_place ?_
    rw [apply_ite place, indexTerm_place, ite_self]
  · refine h.reads ((reads_headingText doc arguments).write ?_)
    exact (pushSection_place _ 2 _).trans (renderIsolated_place _ _)
  · exact h.of_place (indentedParagraph_place doc _ _)
  · trivial

theorem tkmanRequest (h : Motion movable base doc) (request : Request) :
    (doc.tkmanRequest request).After (Motion movable base) := by
  unfold Document.tkmanRequest
  extract_lets argument
  split
  · exact h.of_place (procedureArgument_place doc request)
  · split
    · exact h.of_place (widgetOption_place doc request)
    · trivial
  · exact h.of_place (beginDisplay_place doc _ _)
  · exact h.of_place ((complainUnless_place _ _).trans (endDisplay_place doc))
  · exact h.of_place (beginDisplay_place doc _ _)
  · exact h.of_place ((complainUnless_place _ _).trans (endDisplay_place doc))
  · exact h.reads (reads_standardOptions doc _)
  · exact h.of_place (warn_place doc _)
  · exact h.of_place (textLine_place doc _)
  · exact h.of_place (textLine_place doc _)
  · exact h.of_place (textLine_place doc _)
  · split
    · exact h.of_place (textLine_place doc _)
    · trivial
  · trivial

theorem wwwRequest (h : Motion movable base doc) (request : Request) :
    (doc.wwwRequest request).After (Motion movable base) := by
  unfold Document.wwwRequest
  split
  · exact h.of_place (webLink_place doc request)
  · exact h.of_place (webLink_place doc request)
  · exact h.of_place (mailLink_place doc request)
  · exact h.of_place (closeParagraph_place doc)
  · exact h.of_place (anchor_place doc _)
  · exact h.of_place (webImage_place doc request)
  · exact h.of_place (webImage_place doc request)
  · exact h.of_place (webImage_place doc request)
  · exact h.of_place (beginList_place doc _ _)
  · exact h.of_place (beginList_place doc _ _)
  · exact h.of_place ((complainUnless_place _ _).trans (endListBy_place doc _))
  · exact h.of_place ((complainUnless_place _ _).trans (endListBy_place doc _))
  · split
    · exact h.of_place (beginItem_place doc none)
    · trivial
  · trivial

end RoffDocBook.Document.Motion
