import RoffDocBook.Proofs.Expansion.Invocation
import RoffDocBook.Proofs.Expansion.LookAhead
import RoffDocBook.Proofs.Expansion.Step

/-! Where a macro reads as its body and where it does not. A body of plain text is written as if it stood in place of
the invocation. A request at the end of a body takes the mark of that end for something that is no request, and reads
over it what stands after the invocation. -/
namespace RoffDocBook

namespace Document
open Text

theorem relocated_textLines (doc : Document) (input : Input) (line : Nat) (fired : List Package)
    {formatter : Formatter.State} (hf : formatter.fill = doc.formatter.fill) {texts : List Text}
    (h : ∀ t ∈ texts, '\\' ∉ t) :
    texts.foldl textLine (doc.relocated input line fired formatter) =
      (texts.foldl textLine doc).relocated input line fired formatter := by
  induction texts generalizing doc with
  | nil => rfl
  | cons t texts ih =>
    rw [List.forall_mem_cons] at h
    have hfill : formatter.fill = (doc.textLine t).formatter.fill := by
      rw [(doc.writes_textLine h.1).formatter, hf]
    rw [List.foldl_cons, List.foldl_cons, relocated_textLine doc input line fired hf h.1, ih _ hfill h.2]

end Document

namespace Expansion
open Text Document Conditional

theorem ready_relocated {doc : Document} (h : Ready doc) (input : Input) (line : Nat) (fired : List Package)
    (invocations : List Formatter.Invocation) :
    Ready (doc.relocated input line fired { doc.formatter with invocations }) :=
  ⟨h.active, h.pending, h.control, h.noBreak, h.ignored, h.macros, h.reductions⟩

theorem ready_written {doc : Document} (h : Ready doc) (plain : PlainLine) (input : Input) (line : Nat) :
    Ready ((doc.textLine plain.text).relocated input line doc.fired doc.formatter) := by
  have hready := ready_relocated (ready_textLine h plain.notMem) input line doc.fired doc.formatter.invocations
  rwa [(doc.writes_textLine plain.notMem).formatter] at hready

/-- A step over a line of plain text. -/
theorem step_plainLine {run : Run} (h : Ready run.doc) (plain : PlainLine) {number : Option Nat} {rest : Input}
    (hi : run.doc.input = .line plain.text number :: rest) :
    Reaches run [plain.text]
      { run with
        doc := (run.doc.textLine plain.text).relocated rest (number.getD run.doc.line) run.doc.fired
          run.doc.formatter } := by
  let taken : Run := { run with doc := { run.doc with input := rest, line := number.getD run.doc.line } }
  have hread : taken.readStatement plain.text = (.text plain.text, taken) := by
    rw [readStatement_line taken (simple_of_notMem plain.notMem).endsInContinuation]
    exact congrArg (·, taken) (statementOf_plain (ready_relocated h rest _ _ _) plain)
  have hwrite : taken.doc.textLine plain.text = _ :=
    run.doc.relocated_textLine rest (number.getD run.doc.line) run.doc.fired rfl plain.notMem
  refine .single ?_ ?_ ?_
  · rw [hi]
    exact List.cons_ne_nil _ _
  · have hready := ready_written h plain rest (number.getD run.doc.line)
    have hinterpret : taken.interpretLine plain.text = .ok { taken with doc := taken.doc.textLine plain.text } := by
      rw [Run.interpretLine, hread]
    rw [hwrite] at hinterpret
    rw [Run.step_line hi]
    refine (congrArg (Except.map Run.activatePending) hinterpret).trans ?_
    exact congrArg Except.ok (activatePending_of_nil hready.pending)
  · unfold Run.handed?
    rw [hi]
    exact (congrArg (fun found => found.1.text?) hread)

/-- A run over lines of plain text writes them. -/
theorem reaches_plainLines {run : Run} (h : Ready run.doc) (lines : List PlainLine) {items rest : Input}
    (hl : Lists items (lines.map PlainLine.text)) (hi : run.doc.input = items ++ rest) :
    ∃ line, Reaches run (lines.map PlainLine.text)
      { run with
        doc := ((lines.map PlainLine.text).foldl textLine run.doc).relocated rest line run.doc.fired
          run.doc.formatter } := by
  induction lines generalizing run items with
  | nil =>
    cases hl
    refine ⟨run.doc.line, ?_⟩
    have hsame : run.doc.relocated rest run.doc.line run.doc.fired run.doc.formatter = run.doc := by
      rw [← List.nil_append rest, ← hi]
      rfl
    rw [List.map_nil, List.foldl_nil, hsame]
    exact .refl run
  | cons plain lines ih =>
    obtain _ | @⟨items, _, _, number, hl⟩ := hl
    have hcons : run.doc.input = .line plain.text number :: (items ++ rest) := hi
    have hfirst := step_plainLine h plain hcons
    have htexts : ∀ t ∈ lines.map PlainLine.text, '\\' ∉ t := by
      intro t ht
      obtain ⟨other, _, rfl⟩ := List.mem_map.mp ht
      exact other.notMem
    let next : Run :=
      { run with
        doc := (run.doc.textLine plain.text).relocated (items ++ rest) (number.getD run.doc.line) run.doc.fired
          run.doc.formatter }
    have hready : Ready next.doc := ready_written h plain _ _
    obtain ⟨line, hrest⟩ := ih hready hl rfl
    refine ⟨line, ?_⟩
    have hfill : run.doc.formatter.fill = (run.doc.textLine plain.text).formatter.fill := by
      rw [(run.doc.writes_textLine plain.notMem).formatter]
    have hwritten : (lines.map PlainLine.text).foldl textLine next.doc = _ :=
      relocated_textLines (run.doc.textLine plain.text) _ _ _ hfill htexts
    rw [hwritten] at hrest
    exact hfirst.trans hrest

theorem lists_lines (lines : List Text) : Lists (lines.map (WorkItem.line · none)) lines := by
  induction lines with
  | nil => exact .nil
  | cons line lines ih => exact .cons line none ih

/-- A run with other input. -/
def withInput (run : Run) (input : Input) : Run :=
  { run with doc := { run.doc with input } }

theorem notMem_plainLines (lines : List PlainLine) : ∀ t ∈ lines.map PlainLine.text, '\\' ∉ t := by
  intro t ht
  obtain ⟨plain, _, rfl⟩ := List.mem_map.mp ht
  exact plain.notMem

/-- A run over the invocation of a macro writes the lines of plain text that its body begins with, and comes to the
others before the end of the macro. -/
theorem reaches_call {run : Run} (hready : Ready run.doc) {name : String} (h : Ordinary run.doc name)
    (hr : run.doc.formatter.reductions.get? name = none) {lines : List PlainLine} {others : List Text}
    (hb : run.doc.formatter.macros.get? name = some (lines.map PlainLine.text ++ others))
    (hd : run.doc.formatter.invocations.length < maximalNesting) {number : Option Nat} {rest : Input}
    (hi : run.doc.input = .line (call name) number :: rest) :
    ∃ line inside,
      Reaches run (lines.map PlainLine.text)
        { run with
          doc := ((lines.map PlainLine.text).foldl textLine run.doc).relocated
            (Input.pushLines (.finish line :: rest) others) inside run.doc.fired
            { run.doc.formatter with
              invocations := { name, arguments := [], line } :: run.doc.formatter.invocations } } := by
  let line := number.getD run.doc.line
  let formatter : Formatter.State :=
    { run.doc.formatter with invocations := { name, arguments := [], line } :: run.doc.formatter.invocations }
  let body : Input := (lines.map PlainLine.text).map (WorkItem.line · none)
  let left : Input := Input.pushLines (.finish line :: rest) others
  let entered : Run := { run with doc := run.doc.relocated (body ++ left) line run.doc.fired formatter }
  have hentered : Reaches run [] entered := by
    refine .silent ?_ ?_ ?_
    · rw [hi]
      exact List.cons_ne_nil _ _
    · rw [step_call h hr hb hd hready.pending hi, Input.pushLines, List.map_append, List.append_assoc]
      rfl
    · let taken : Run := { run with doc := { run.doc with input := rest, line } }
      have hordinary : Ordinary taken.doc name := h.relocated rest line run.doc.fired rfl
      unfold Run.handed?
      rw [hi]
      exact congrArg (fun found => found.1.text?) (readStatement_call hordinary)
  have hreadyEntered : Ready entered.doc := ready_relocated hready (body ++ left) line run.doc.fired _
  obtain ⟨inside, hwritten⟩ := reaches_plainLines hreadyEntered lines (lists_lines _) rfl
  have hfill : formatter.fill = run.doc.formatter.fill := rfl
  have hfoldl : (lines.map PlainLine.text).foldl textLine entered.doc = _ :=
    relocated_textLines run.doc _ line run.doc.fired hfill (notMem_plainLines lines)
  rw [hfoldl] at hwritten
  exact ⟨line, inside, hentered.trans hwritten⟩

/-- A run over the lines of plain text themselves. -/
theorem reaches_inlined {run : Run} (hready : Ready run.doc) (lines : List PlainLine) {items : Input} (rest : Input)
    (hl : Lists items (lines.map PlainLine.text)) :
    ∃ line,
      Reaches (withInput run (items ++ rest)) (lines.map PlainLine.text)
        { run with
          doc := ((lines.map PlainLine.text).foldl textLine run.doc).relocated rest line run.doc.fired
            run.doc.formatter } := by
  let inlined := withInput run (items ++ rest)
  have hreadyInlined : Ready inlined.doc := ready_relocated hready _ run.doc.line run.doc.fired _
  obtain ⟨line, hwritten⟩ := reaches_plainLines hreadyInlined lines hl rfl
  have hfoldl : (lines.map PlainLine.text).foldl textLine inlined.doc = _ :=
    relocated_textLines run.doc _ run.doc.line run.doc.fired rfl (notMem_plainLines lines)
  rw [hfoldl] at hwritten
  exact ⟨line, hwritten⟩

/-- A macro whose body is plain text is written as if the lines of its body stood in place of the invocation: the two
runs hand over the same texts and come to the same state, but for the number of the line. -/
theorem call_inlines_plainLines {run : Run} (hready : Ready run.doc) {name : String} (h : Ordinary run.doc name)
    (hr : run.doc.formatter.reductions.get? name = none) {lines : List PlainLine}
    (hb : run.doc.formatter.macros.get? name = some (lines.map PlainLine.text))
    (hd : run.doc.formatter.invocations.length < maximalNesting) {number : Option Nat} {rest items : Input}
    (hi : run.doc.input = .line (call name) number :: rest) (hl : Lists items (lines.map PlainLine.text)) :
    ∃ last line,
      Reaches run (lines.map PlainLine.text) last ∧
        Reaches (withInput run (items ++ rest)) (lines.map PlainLine.text)
          { last with doc := { last.doc with line } } ∧
          last.doc.input = rest := by
  rw [← List.append_nil (lines.map PlainLine.text)] at hb
  obtain ⟨line, inside, hwritten⟩ := reaches_call hready h hr hb hd hi
  obtain ⟨lineInlined, hinlined⟩ := reaches_inlined hready lines rest hl
  let last : Run :=
    { run with
      doc := ((lines.map PlainLine.text).foldl textLine run.doc).relocated rest line run.doc.fired run.doc.formatter }
  have hpending : last.doc.pending = [] := (ready_textLines hready (notMem_plainLines lines)).pending
  have hleft : Reaches
      { run with
        doc := ((lines.map PlainLine.text).foldl textLine run.doc).relocated (.finish line :: rest) inside run.doc.fired
          { run.doc.formatter with
            invocations := { name, arguments := [], line } :: run.doc.formatter.invocations } } [] last :=
    .silent (List.cons_ne_nil _ _) (congrArg Except.ok (activatePending_of_nil hpending)) rfl
  refine ⟨last, lineInlined, ?_, hinlined, rfl⟩
  have hall := hwritten.trans hleft
  rwa [List.append_nil] at hall

/-- A font request without arguments before a control line leaves that line alone. -/
theorem fontLine_before_control (doc : Document) (font : Text) {line : Text} {number : Option Nat} {rest : Input}
    (hi : doc.input = .line line number :: rest)
    (hc : ControlLine.isControl line doc.formatter.control doc.formatter.noBreak = true) :
    (doc.fontLine [] font).input = .line line number :: rest := by
  have hnone : AllMarks [] := List.forall_mem_nil _
  exact (fontLine_marks_input font hi hnone).trans (if_pos ⟨rfl, hc⟩)

/-- At the end of a macro it takes the next line, whatever that is. -/
theorem fontLine_at_end (doc : Document) (font : Text) {line : Text} {mark : Nat} {number : Option Nat} {rest : Input}
    (hi : doc.input = .finish mark :: .line line number :: rest) : (doc.fontLine [] font).input = rest := by
  have hmark : AllMarks [.finish mark] := List.forall_mem_singleton.mpr ⟨mark, rfl⟩
  exact (fontLine_marks_input font hi hmark).trans (if_neg fun h => List.cons_ne_nil _ _ h.1)

/-- The font of a request that writes the next line of text in it if it has no arguments. -/
def fontOf? : String → Option Text
  | "B" | "SB" => some "B".toList
  | "I" => some "I".toList
  | "SM" => some "R".toList
  | _ => none

theorem manRequest_font {name : String} {font : Text} (h : fontOf? name = some font) (doc : Document)
    (invoked : String) : doc.manRequest (callOf invoked name) = .done (doc.fontLine [] font) := by
  unfold fontOf? at h
  split at h <;> cases h <;> rfl

theorem offer_font {run : Run} (ha : run.doc.active = [.man, .troff]) {name : String} {font : Text}
    (hf : fontOf? name = some font) (invoked : String) :
    run.offer (callOf invoked name) run.doc.active =
      .ok { run with doc := Run.noteFired (run.doc.fontLine [] font) .man } := by
  have hprepared : Run.prepare run.doc .man (callOf invoked name) = run.doc := rfl
  have hdone : Run.interpret run.doc .man (callOf invoked name) = .done (run.doc.fontLine [] font) :=
    manRequest_font hf run.doc invoked
  rw [ha, Run.offer, hprepared, hdone]

/-- A macro that is another name of a font request acts as that request does without arguments, whatever arguments its
body gives. -/
theorem execute_wrapper {run : Run} {name only : String} (h : Ordinary run.doc name)
    (ha : run.doc.active = [.man, .troff]) (hr : run.doc.formatter.reductions.get? name = some only) {font : Text}
    (hf : fontOf? only = some font) :
    run.execute (call name) = .ok { run with doc := Run.noteFired (run.doc.fontLine [] font) .man } := by
  have hblock : only ≠ "TS" ∧ only ≠ "EQ" ∧ only ≠ "PS" := by
    refine ⟨?_, ?_, ?_⟩ <;> rintro rfl <;> cases hf
  rw [execute_reduced h hr hblock, offer_font ha hf]

/-- A font request, which no macro has taken the place of. -/
structure FontRequest (doc : Document) (name : String) (font : Text) : Prop where
  font : fontOf? name = some font
  ordinary : Ordinary doc name
  unreduced : doc.formatter.reductions.get? name = none
  undefined : doc.formatter.macros.contains name = false

theorem FontRequest.written {doc : Document} {name : String} {font : Text} (h : FontRequest doc name font)
    {texts : List Text} (ht : ∀ t ∈ texts, '\\' ∉ t) (input : Input) (line : Nat) (fired : List Package)
    (invocations : List Formatter.Invocation) :
    FontRequest ((texts.foldl textLine doc).relocated input line fired { doc.formatter with invocations }) name
      font := by
  obtain ⟨_, _, _, _, _, hwritten⟩ := doc.writes_textLines ht
  rw [hwritten]
  have ho := h.ordinary
  exact ⟨h.font, ⟨ho.nonempty, ho.unbroken, ho.control, ho.ignored, ho.unportable, ho.listBreak, ho.paragraphBreak,
    ho.sectionBreak, ho.block⟩, h.unreduced, h.undefined⟩

/-- A step over a font request without arguments. -/
theorem reaches_font (run : Run) {name : String} {font : Text} (h : FontRequest run.doc name font)
    (ha : run.doc.active = [.man, .troff]) {number : Option Nat} {left : Input}
    (hi : run.doc.input = .line (call name) number :: left) :
    ∃ after, Reaches run [] after ∧
      after.doc.input =
        ({ run.doc with input := left, line := number.getD run.doc.line }.fontLine [] font).input := by
  let taken : Run := { run with doc := { run.doc with input := left, line := number.getD run.doc.line } }
  let noted : Run := { taken with doc := Run.noteFired (taken.doc.fontLine [] font) .man }
  have hordinary : Ordinary taken.doc name := h.ordinary.relocated left _ run.doc.fired rfl
  have hactive : taken.doc.active = [.man, .troff] := ha
  have hinterpret : taken.interpretLine (call name) = .ok noted := by
    rw [interpretLine_call hordinary, execute_offered hordinary h.unreduced h.undefined, offer_font hactive h.font]
  refine ⟨noted.activatePending, .silent ?_ ?_ ?_, ?_⟩
  · rw [hi]
    exact List.cons_ne_nil _ _
  · rw [Run.step_line hi]
    exact congrArg (Except.map Run.activatePending) hinterpret
  · unfold Run.handed?
    rw [hi]
    exact congrArg (fun found => found.1.text?) (readStatement_call hordinary)
  · exact congrArg Prod.fst ((Run.activatePending_place noted).trans (Run.noteFired_place _ .man))

/-- A macro whose body ends in a font request without arguments is not as if its body stood in place of the invocation.
A control line that follows the invocation is taken for the text of the request and lost, and it is left to be carried
out if the body stands in place of the invocation. -/
theorem call_loses_next_request {run : Run} (hready : Ready run.doc) {name : String} (h : Ordinary run.doc name)
    (hr : run.doc.formatter.reductions.get? name = none) {lines : List PlainLine} {last : String} {font : Text}
    (hb : run.doc.formatter.macros.get? name = some (lines.map PlainLine.text ++ [call last]))
    (hf : FontRequest run.doc last font) (hd : run.doc.formatter.invocations.length < maximalNesting) {line : Text}
    (hc : ControlLine.isControl line run.doc.formatter.control run.doc.formatter.noBreak = true)
    {number next ending : Option Nat} {rest items : Input}
    (hi : run.doc.input = .line (call name) number :: .line line next :: rest)
    (hl : Lists items (lines.map PlainLine.text)) :
    ∃ invoked inlined,
      (Reaches run (lines.map PlainLine.text) invoked ∧ invoked.doc.input = rest) ∧
        Reaches (withInput run (items ++ .line (call last) ending :: .line line next :: rest))
          (lines.map PlainLine.text) inlined ∧ inlined.doc.input = .line line next :: rest := by
  have htexts := notMem_plainLines lines
  have hactive := (ready_textLines hready htexts).active
  obtain ⟨mark, inside, hwritten⟩ := reaches_call hready h hr hb hd hi
  obtain ⟨invoked, hinvoked, hlost⟩ := reaches_font { run with doc := _ }
    (hf.written htexts _ inside run.doc.fired _) hactive rfl
  obtain ⟨outside, hplain⟩ := reaches_inlined hready lines (.line (call last) ending :: .line line next :: rest) hl
  obtain ⟨inlined, hinlined, hkept⟩ := reaches_font { run with doc := _ }
    (hf.written htexts _ outside run.doc.fired _) hactive rfl
  refine ⟨invoked, inlined, ⟨?_, ?_⟩, ?_, ?_⟩
  · have hall := hwritten.trans hinvoked
    rwa [List.append_nil] at hall
  · exact hlost.trans (fontLine_at_end _ font rfl)
  · have hall := hplain.trans hinlined
    rwa [List.append_nil] at hall
  · exact hkept.trans (fontLine_before_control _ font rfl hc)

/-- A page with a macro that ends in such a request, and another request after its invocation. -/
def endingPage : Run :=
  Conversion.prepare {} {} "page.1" ".de Xx\nNote:\n.B\n..\n.Xx\n.PP\nAfter.\n" ⟨.man, []⟩

/-- The page with the body in place of the invocation. -/
def inlinedPage : Run :=
  Conversion.prepare {} {} "page.1" "Note:\n.B\n.PP\nAfter.\n" ⟨.man, []⟩

/-- The lines of output after at most so many steps. -/
def output? (run : Run) (limit : Nat) : Option (List String) :=
  (run.runAll limit).toOption.map fun last => last.doc.finish.1.map String.ofList

/-- The paragraph break after the invocation is lost, and written as text in its place. -/
theorem call_loses_next_request_page :
    (∃ invoked inlined,
      (Reaches endingPage.advance ["Note:"] invoked ∧ invoked.doc.input = [.line "After.".toList (some 7)]) ∧
        Reaches (withInput endingPage.advance [.line "Note:".toList none, .line (call "B") none,
          .line (call "PP") (some 6), .line "After.".toList (some 7)]) ["Note:"] inlined ∧
            inlined.doc.input = [.line (call "PP") (some 6), .line "After.".toList (some 7)]) ∧
      output? endingPage 10 =
          some ["<para>Note:", "<emphasis role='strong' remap='B'>.PP</emphasis>", "After.</para>"] ∧
        output? inlinedPage 10 = some ["<para>Note:</para>", "<para>After.</para>"] := by
  let note : PlainLine := ⟨'N', "ote:".toList, by decide, by decide, by decide⟩
  have hready : Ready endingPage.advance.doc := by
    constructor <;> decide +kernel
  have hname : Ordinary endingPage.advance.doc "Xx" := by
    constructor <;> decide +kernel
  have hfont : FontRequest endingPage.advance.doc "B" "B".toList := by
    refine ⟨rfl, ?_, by decide +kernel, by decide +kernel⟩
    constructor <;> decide +kernel
  have hbody : endingPage.advance.doc.formatter.macros.get? "Xx" = some ([note].map PlainLine.text ++ [call "B"]) := by
    decide +kernel
  have hinput : endingPage.advance.doc.input =
      [.line (call "Xx") (some 5), .line (call "PP") (some 6), .line "After.".toList (some 7)] := by
    decide +kernel
  have hlists : Lists [.line "Note:".toList none] ([note].map PlainLine.text) := .cons _ _ .nil
  obtain ⟨invoked, inlined, hinvoked, hinlined⟩ := call_loses_next_request hready hname (by decide +kernel) hbody
    hfont (by decide +kernel) (by decide +kernel) hinput hlists
  exact ⟨⟨invoked, inlined, hinvoked, hinlined⟩, by decide +kernel, by decide +kernel⟩

end Expansion
end RoffDocBook
