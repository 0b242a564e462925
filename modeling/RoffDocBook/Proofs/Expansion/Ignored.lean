import RoffDocBook.Proofs.Expansion.Inlining

/-! Requests that are ignored. A step over one does nothing, so that the run is the same without it. A request that
reads ahead does not step over it: it takes the line for a request like any other. -/
namespace RoffDocBook.Expansion
open Text Document Conditional

/-- A line of a request that is ignored, which does not go on with the next line. Comments are not passed on. -/
structure IgnoredLine (doc : Document) (name : String) (after : Text) : Prop where
  writable : Writable name
  apart : Apart after
  complete : endsInContinuation (requestLine name after) = false
  ignored : doc.isIgnored name = true
  control : doc.formatter.control = '.'
  comments : doc.settings.comments = false

theorem interpretLine_ignored {run : Run} {name : String} {after : Text} (h : IgnoredLine run.doc name after) :
    run.interpretLine (requestLine name after) = .ok run := by
  obtain ⟨rest, hrest, hstatement⟩ := h.writable.statementOf run.doc h.control h.apart
  rw [Run.interpretLine, readStatement_line run h.complete, hstatement]
  dsimp only
  rw [Run.execute, h.writable.splitControl run.doc h.control hrest]
  dsimp only
  rw [if_pos h.ignored, emitComment, if_neg (by rw [h.comments]; exact Bool.false_ne_true)]

/-- A step over the line only takes it. -/
theorem step_ignored {run : Run} {name : String} {after : Text} (h : IgnoredLine run.doc name after)
    (hp : run.doc.pending = []) {number : Option Nat} {rest : Input}
    (hi : run.doc.input = .line (requestLine name after) number :: rest) :
    run.step = .ok { run with doc := { run.doc with input := rest, line := number.getD run.doc.line } } := by
  let taken : Run := { run with doc := { run.doc with input := rest, line := number.getD run.doc.line } }
  have htaken : IgnoredLine taken.doc name after :=
    ⟨h.writable, h.apart, h.complete, h.ignored, h.control, h.comments⟩
  rw [Run.step_line hi]
  refine (congrArg (Except.map Run.activatePending) (interpretLine_ignored htaken)).trans ?_
  exact congrArg Except.ok (activatePending_of_nil hp)

/-- An item that tells what line of the source is at hand. -/
def Located : WorkItem → Prop
  | .line _ (some _) => True
  | .finish _ => True
  | _ => False

/-- Where the number of the line does not matter, the next step is the same. -/
theorem step_located {run : Run} {item : WorkItem} {rest : Input} (hl : Located item) (line : Nat) :
    Run.step { run with doc := { run.doc with input := item :: rest, line } } =
      (withInput run (item :: rest)).step := by
  cases item with
  | line text number =>
    cases number with
    | some n => rfl
    | none => exact absurd hl id
  | finish number => rfl
  | markup text => exact absurd hl id
  | paragraphEnd => exact absurd hl id

/-- A run that comes to the line goes on as it would without it. -/
theorem runAll_ignored {run : Run} {name : String} {after : Text} (h : IgnoredLine run.doc name after)
    (hp : run.doc.pending = []) {number : Option Nat} {item : WorkItem} {rest : Input}
    (hi : run.doc.input = .line (requestLine name after) number :: item :: rest) (hl : Located item) (limit : Nat) :
    run.runAll (limit + 2) = (withInput run (item :: rest)).runAll (limit + 1) := by
  have hempty : run.doc.input.isEmpty = false := by rw [hi]; rfl
  rw [Run.runAll, hempty, if_neg Bool.false_ne_true, step_ignored h hp hi]
  dsimp only
  rw [Run.runAll, Run.runAll, step_located hl]
  rfl

theorem isControlLine_requestLine {doc : Document} (hc : doc.formatter.control = '.') (name : String) (after : Text) :
    doc.isControlLine (requestLine name after) = true := by
  rw [isControlLine, hc]
  rfl

section
variable {doc : Document} {name : String} {after line : Text} {number next : Option Nat} {before rest : Input}

/-- What is gathered ends before the line. Without it, the text that follows is gathered too. -/
theorem gatherLines_ignored (hc : doc.formatter.control = '.') (hb : ∀ item ∈ before, doc.Readable item)
    (hm : ¬ EndsInMark before) (ht : doc.isControlLine line = false) :
    (doc.reading (before ++ .line (requestLine name after) number :: .line line next :: rest)).gatherLines.1 =
        doc.gatheredAll before ∧
      ∃ others,
        (doc.reading (before ++ .line line next :: rest)).gatherLines.1 =
          doc.gatheredAll (before ++ [.line line next]) ++ others := by
  constructor
  · have hi : (doc.reading (before ++ .line (requestLine name after) number :: .line line next :: rest)).input =
        before ++ .line (requestLine name after) number :: .line line next :: rest := rfl
    rw [gatherLines_before_control hi hb (isControlLine_requestLine hc name after) hm, gatheredAll_reading]
  · have hall : ∀ item ∈ before ++ [.line line next], doc.Readable item :=
      List.forall_mem_append.mpr ⟨hb, List.forall_mem_singleton.mpr ht⟩
    have hlast : ¬ EndsInMark (before ++ [.line line next]) := by
      rintro ⟨mark, hmark⟩
      rw [List.getLast?_concat] at hmark
      cases hmark
    have hi : (doc.reading (before ++ .line line next :: rest)).input = (before ++ [.line line next]) ++ rest :=
      (List.append_assoc before [.line line next] rest).symm
    rw [gatherLines_readable hi hall (Or.inl hlast), gatheredAll_reading]
    exact ⟨_, rfl⟩

/-- A font request without arguments writes nothing before the line, and the text that follows without it. -/
theorem fontLine_ignored (hc : doc.formatter.control = '.') (font : Text) (ht : doc.isControlLine line = false) :
    (doc.reading (.line (requestLine name after) number :: .line line next :: rest)).fontLine [] font =
        doc.reading (.line (requestLine name after) number :: .line line next :: rest) ∧
      (doc.reading (.line line next :: rest)).fontLine [] font =
        { doc with input := rest, line := next.getD doc.line }.textLine
          ("\\f" ++ font ++ doc.formatter.expand line ++ "\\fR") := by
  have hnone : AllMarks [] := List.forall_mem_nil _
  constructor
  · rw [fontLine_marks font rfl hnone, if_pos]
    exact ⟨rfl, isControlLine_requestLine hc name after⟩
  · rw [fontLine_marks font rfl hnone, if_neg]
    · rfl
    · rintro ⟨-, hcontrol⟩
      exact Bool.false_ne_true (ht.symm.trans hcontrol)

theorem manHeading_control (hi : doc.input = .line line number :: rest) (hc : doc.isControlLine line = true)
    {request : Request} (hr : request.arguments = []) {written : Text}
    (hs : (doc.pass (.line line number)).splitControl? (doc.formatter.expand line) = some (name, written)) :
    (doc.manHeading request).1 = join " " (ControlLine.arguments written) := by
  rw [manHeading, nextIsControl_line hi, nextLine_line hi, hr, hc]
  dsimp only
  rw [Option.bind_some, hs]
  rfl

theorem manHeading_text (hi : doc.input = .line line number :: rest) (ht : doc.isControlLine line = false)
    {request : Request} (hr : request.arguments = []) : (doc.manHeading request).1 = doc.formatter.expand line := by
  rw [manHeading, nextIsControl_line hi, nextLine_line hi, hr, ht]
  rfl

/-- The heading of a section without arguments has those of the line for its title, and the text that follows without
it. -/
theorem manHeading_ignored (hw : Writable name) (ha : Apart after) (hc : doc.formatter.control = '.')
    (ht : doc.isControlLine line = false) {request : Request} (hr : request.arguments = []) :
    ((doc.reading (.line (requestLine name after) number :: .line line next :: rest)).manHeading request).1 =
        join " " (ControlLine.arguments (doc.formatter.expand after).tail) ∧
      ((doc.reading (.line line next :: rest)).manHeading request).1 = doc.formatter.expand line := by
  let inserted := doc.reading (.line (requestLine name after) number :: .line line next :: rest)
  let plain := doc.reading (.line line next :: rest)
  have hinserted : inserted.input = .line (requestLine name after) number :: .line line next :: rest := rfl
  have hplain : plain.input = .line line next :: rest := rfl
  have hsplit (taken : Document) (htaken : taken.formatter.control = '.') :
      taken.splitControl? (inserted.formatter.expand (requestLine name after)) =
        some (name, (doc.formatter.expand after).tail) :=
    (congrArg taken.splitControl? (hw.expand doc.formatter after)).trans
      (hw.splitControl taken htaken (ha.expand doc.formatter))
  exact ⟨manHeading_control hinserted (isControlLine_requestLine hc name after) hr (hsplit _ hc),
    manHeading_text hplain ht hr⟩

end

/-- What becomes of a line that is ignored. A run that comes to the line goes on as it would without it. A request that
reads ahead comes to it as to any control line: gathering ends there, a font request without arguments finds nothing to
write, and a heading without arguments takes its arguments for the title, where without it each would take the text that
follows. -/
theorem ignoredLine_trace {run : Run} {name : String} {after : Text} (h : IgnoredLine run.doc name after)
    (number : Option Nat) (rest : Input) :
    (∀ item, Located item → run.doc.pending = [] → ∀ limit,
      (withInput run (.line (requestLine name after) number :: item :: rest)).runAll (limit + 2) =
        (withInput run (item :: rest)).runAll (limit + 1)) ∧
    ∀ line next, run.doc.isControlLine line = false →
      (∀ before, (∀ item ∈ before, run.doc.Readable item) → ¬ EndsInMark before →
        (run.doc.reading (before ++ .line (requestLine name after) number :: .line line next :: rest)).gatherLines.1 =
            run.doc.gatheredAll before ∧
          ∃ others,
            (run.doc.reading (before ++ .line line next :: rest)).gatherLines.1 =
              run.doc.gatheredAll (before ++ [.line line next]) ++ others) ∧
      (∀ font,
        (run.doc.reading (.line (requestLine name after) number :: .line line next :: rest)).fontLine [] font =
            run.doc.reading (.line (requestLine name after) number :: .line line next :: rest) ∧
          (run.doc.reading (.line line next :: rest)).fontLine [] font =
            { run.doc with input := rest, line := next.getD run.doc.line }.textLine
              ("\\f" ++ font ++ run.doc.formatter.expand line ++ "\\fR")) ∧
      ∀ request : Request, request.arguments = [] →
        ((run.doc.reading (.line (requestLine name after) number :: .line line next :: rest)).manHeading request).1 =
            join " " (ControlLine.arguments (run.doc.formatter.expand after).tail) ∧
          ((run.doc.reading (.line line next :: rest)).manHeading request).1 = run.doc.formatter.expand line := by
  refine ⟨?_, fun line next ht => ⟨?_, ?_, ?_⟩⟩
  · intro item hl hp limit
    let inserted := withInput run (.line (requestLine name after) number :: item :: rest)
    have hignored : IgnoredLine inserted.doc name after :=
      ⟨h.writable, h.apart, h.complete, h.ignored, h.control, h.comments⟩
    exact runAll_ignored hignored hp rfl hl limit
  · intro before hb hm
    exact gatherLines_ignored h.control hb hm ht
  · intro font
    exact fontLine_ignored h.control font ht
  · intro request hr
    exact manHeading_ignored h.writable h.apart h.control ht hr

/-- A page with a line that is ignored between a font request and its text. -/
def ignoringPage : Run :=
  Conversion.prepare {} {} "page.1" ".B\n.PD 0\nbold\n" ⟨.man, []⟩

/-- The page without that line. -/
def plainPage : Run :=
  Conversion.prepare {} {} "page.1" ".B\nbold\n" ⟨.man, []⟩

/-- The text is no longer in bold, although the two pages differ only in a line that is ignored where a step comes to
it. -/
theorem ignoredLine_trace_page :
    (∀ limit,
      (withInput ignoringPage [.line ".PD 0" (some 2), .line "bold" (some 3)]).runAll (limit + 2) =
        (withInput ignoringPage [.line "bold" (some 3)]).runAll (limit + 1)) ∧
      (ignoringPage.doc.reading [.line ".PD 0" (some 2), .line "bold" (some 3)]).fontLine [] "B" =
          ignoringPage.doc.reading [.line ".PD 0" (some 2), .line "bold" (some 3)] ∧
        output? ignoringPage 10 = some ["<para>bold</para>"] ∧
          output? plainPage 10 = some ["<para><emphasis role='strong' remap='B'>bold</emphasis></para>"] := by
  have hunbroken : ∀ c ∈ ['P', 'D'], isBlank c = false ∧ c ≠ '\\' :=
    List.forall_mem_cons.mpr ⟨⟨rfl, by decide⟩, List.forall_mem_singleton.mpr ⟨rfl, by decide⟩⟩
  have hignored : IgnoredLine ignoringPage.doc "PD" " 0".toList := by
    refine ⟨⟨by decide, hunbroken⟩, Or.inr ⟨_, rfl⟩, ?_, ?_, ?_, ?_⟩ <;> decide +kernel
  have htrace := ignoredLine_trace hignored (some 2) []
  have hbold : ignoringPage.doc.isControlLine "bold" = false := by decide +kernel
  refine ⟨fun limit => ?_, ?_, by decide +kernel, by decide +kernel⟩
  · exact htrace.1 (.line "bold" (some 3)) trivial (by decide +kernel) limit
  · exact ((htrace.2 "bold" (some 3) hbold).2.1 "B").1

end RoffDocBook.Expansion
