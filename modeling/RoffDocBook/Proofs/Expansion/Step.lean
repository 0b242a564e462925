import RoffDocBook.Conversion.Basic
import RoffDocBook.Proofs.Expansion.Package

/-! What one step of a run does to the input and to the macros that are being expanded, unless it is a request that
drops the rest of the input. The ends of macros keep step with the macros. -/
namespace RoffDocBook
open Text Markup

/-- What holds of the document that a step leaves, whether the run goes on or the source has ended it. -/
def RunResult.After (p : Document → Prop) : RunResult → Prop
  | .ok run => p run.doc
  | .error (_, run) => p run.doc

theorem RunResult.After.imp {p q : Document → Prop} {result : RunResult} (h : result.After p)
    (hi : ∀ doc, p doc → q doc) : result.After q := by
  match result with
  | .ok run => exact hi _ h
  | .error (_, run) => exact hi _ h

namespace Run
open Document

theorem keepBlock_place (doc : Document) (opener : String) (lines : List Text) :
    (keepBlock doc opener lines).place = doc.place := by
  unfold keepBlock
  rw [endDisplay_place, foldl_place _ emitMarkup_place, beginDisplay_place]

theorem reads_embeddedBlock (run : Run) (kind : BlockKind) (request : Request) :
    Reads run.doc (run.embeddedBlock kind request).doc := by
  refine (reads_gatherBlock run.doc kind.closer).write ?_
  unfold embeddedBlock
  dsimp only
  split
  · exact (emitMarkup_place _ _).trans (closeParagraph_place _)
  · exact (keepBlock_place _ _ _).trans (closeParagraph_place _)
  · rw [keepBlock_place, apply_ite place, warn_place, ite_self]
    exact closeParagraph_place _

theorem reads_table (run : Run) (request : Request) : Reads run.doc (run.table request).doc := by
  refine (reads_gatherBlock run.doc "TE").write ?_
  exact (closeParagraph_place _).trans ((renderTable_place _ _ _).trans (closeParagraph_place _))

theorem prepare_place (doc : Document) (package : Package) (request : Request) :
    (prepare doc package request).place = doc.place := by
  unfold prepare
  split
  · exact mdocPrepare_place doc _
  · rfl

theorem noteFired_place (doc : Document) (package : Package) : (noteFired doc package).place = doc.place := by
  unfold noteFired
  split <;> rfl

theorem breakBefore_place (doc : Document) (name : String) : (breakBefore doc name).place = doc.place := by
  unfold breakBefore
  dsimp only
  simp only [apply_ite place, closeParagraph_place, breakLists_place, ite_self]

theorem activate_place (run : Run) (package : Package) : (run.activate package).doc.place = run.doc.place := by
  unfold activate
  extract_lets doc
  split <;> rfl

theorem foldl_activate_place (packages : List Package) (run : Run) :
    (packages.foldl activate run).doc.place = run.doc.place := by
  induction packages generalizing run with
  | nil => rfl
  | cons package rest ih => exact (ih _).trans (activate_place run package)

theorem activatePending_place (run : Run) : run.activatePending.doc.place = run.doc.place :=
  foldl_activate_place _ _

/-- Whether a control line drops the rest of the input: it asks for one of the two requests that do, itself or by
another name, and no macro has taken the place of that request. -/
def quits (doc : Document) (line : Text) : Bool :=
  match doc.splitControl? line with
  | none => false
  | some (name, _) =>
    let formatter := (breakBefore doc name).formatter
    let reduced := formatter.reductions.get? name
    let request := reduced.getD name
    (request == "ex" || request == "nx") && !(reduced.isNone && formatter.macros.contains request)

/-- Whether the next step of a run drops the rest of the input. -/
def quitsNext (run : Run) : Bool :=
  match run.doc.input with
  | .line text number :: rest =>
    match { run with doc := { run.doc with input := rest, line := number.getD run.doc.line } }.readStatement text with
    | (.control line, run) => quits run.doc line
    | _ => false
  | _ => false

/-- Whether a control line asks for a request, itself or by another name, and no macro has taken its place. -/
def asks (doc : Document) (wanted : String → Bool) (line : Text) : Bool :=
  match doc.splitControl? line with
  | none => false
  | some (name, _) =>
    let formatter := (breakBefore doc name).formatter
    let reduced := formatter.reductions.get? name
    let request := reduced.getD name
    wanted request && !(reduced.isNone && formatter.macros.contains request)

/-- Whether a control line moves the arguments of the innermost macro up. -/
def shifts (doc : Document) (line : Text) : Bool :=
  asks doc (· == "shift") line

theorem quits_eq_asks (doc : Document) (line : Text) :
    quits doc line = asks doc (fun request => request == "ex" || request == "nx") line :=
  rfl

/-- The control line that the next step of a run carries out, with the run once it is read. -/
def controlNext? (run : Run) : Option (Text × Run) :=
  match run.doc.input with
  | .line text number :: rest =>
    match { run with doc := { run.doc with input := rest, line := number.getD run.doc.line } }.readStatement text with
    | (.control line, run) => some (line, run)
    | _ => none
  | _ => none

section
variable {movable : List Formatter.Invocation → Prop} {base : Document} {run : Run}

theorem motion_interpret {doc : Document} (h : Motion movable base doc) (package : Package) {request : Request}
    (hq : request.name ≠ "ex" ∧ request.name ≠ "nx")
    (hm : request.name = "shift" → movable doc.formatter.invocations) :
    (interpret doc package request).After (Motion movable base) := by
  cases package with
  | troff => exact h.formatterRequest hq hm
  | man => exact h.manRequest request
  | mdoc => exact h.mdocRequest request
  | ms => exact h.msRequest request
  | me => exact h.meRequest request
  | mm => exact h.mmRequest request
  | pod2man => exact h.pod2manRequest request
  | tkman => exact h.tkmanRequest request
  | www => exact h.wwwRequest request

theorem motion_offer (h : Motion movable base run.doc) {request : Request}
    (hq : request.name ≠ "ex" ∧ request.name ≠ "nx")
    (hm : request.name = "shift" → movable run.doc.formatter.invocations) (packages : List Package) :
    (run.offer request packages).After (Motion movable base) := by
  induction packages generalizing run with
  | nil => exact h.of_place (emit_place _ _)
  | cons package rest ih =>
    have hplace := prepare_place run.doc package request
    have hprepared := h.of_place hplace
    have hinvocations : (prepare run.doc package request).formatter.invocations = run.doc.formatter.invocations :=
      congrArg Prod.snd hplace
    rw [← hinvocations] at hm
    have hdone := motion_interpret hprepared package hq hm
    rw [offer]
    generalize interpret _ package request = outcome at hdone
    match outcome with
    | .declined => exact ih hprepared hm
    | .done doc => exact Motion.of_place hdone (noteFired_place doc package)
    | .aborted message doc => exact hdone

/-- A control line invokes a macro or is carried out by a package. -/
theorem moves_execute {line : Text} (hq : quits run.doc line = false)
    (hm : shifts run.doc line = true → movable run.doc.formatter.invocations) :
    (run.execute line).After (Moves movable run.doc) := by
  rw [quits_eq_asks] at hq
  unfold shifts at hm
  unfold asks at hq hm
  unfold execute
  generalize run.doc.splitControl? line = found at hq hm
  have hstart : Motion movable run.doc run.doc := .refl
  match found with
  | none => exact .motion hstart
  | some (name, rest) =>
    dsimp only at hq hm ⊢
    split
    · exact .motion (hstart.of_place (emitComment_place _ _))
    · split
      · exact .motion (hstart.of_place (emitComment_place _ _))
      · have hplace := breakBefore_place run.doc name
        have hbroken := hstart.of_place hplace
        have hinvocations : (breakBefore run.doc name).formatter.invocations = run.doc.formatter.invocations :=
          congrArg Prod.snd hplace
        let broken : Run := { run with doc := breakBefore run.doc name }
        split
        · exact .motion (hbroken.reads (reads_table broken _))
        · split
          · exact .motion (hbroken.reads (reads_embeddedBlock broken .equation _))
          · split
            · exact .motion (hbroken.reads (reads_embeddedBlock broken .diagram _))
            · split
              · exact .invoke hplace _ rfl
              · rename_i hinvoked
                rw [Bool.not_eq_true] at hinvoked
                rw [hinvoked, Bool.not_false, Bool.and_true, Bool.or_eq_false_iff, beq_eq_false_iff_ne,
                  beq_eq_false_iff_ne] at hq
                rw [hinvoked, Bool.not_false, Bool.and_true, beq_iff_eq, ← hinvocations] at hm
                exact (motion_offer hbroken hq hm _).imp fun _ => .motion

theorem moves_interpretLine {line : Text}
    (hq : ∀ {control next}, run.readStatement line = (.control control, next) → quits next.doc control = false)
    (hm : ∀ {control next}, run.readStatement line = (.control control, next) → shifts next.doc control = true →
      movable next.doc.formatter.invocations) :
    (run.interpretLine line).After (Moves movable (run.readStatement line).2.doc) := by
  unfold interpretLine
  generalize hs : run.readStatement line = statement
  match statement with
  | (.comment text, next) => exact .motion (.of_place .refl (emitComment_place _ _))
  | (.nothing, next) => exact .motion .refl
  | (.control control, next) => exact moves_execute (hq hs) (hm hs)
  | (.text text, next) => exact .motion (.of_place .refl (textLine_place _ _))

/-- A step over a line. -/
theorem step_line {text : Text} {number : Option Nat} {rest : Input} (hi : run.doc.input = .line text number :: rest) :
    run.step = ({ run with
      doc := { run.doc with input := rest, line := number.getD run.doc.line } }.interpretLine text).map
        activatePending := by
  unfold step
  dsimp only
  rw [hi]

theorem moves_activatePending {result : RunResult} (h : result.After (Moves movable base)) :
    RunResult.After (Moves movable base) (result.map activatePending) := by
  match result with
  | .ok run => exact Moves.of_place h (activatePending_place run)
  | .error (_, run) => exact h

/-- The document once the next statement of a run is read. -/
def afterReading (run : Run) : Document :=
  match run.doc.input with
  | .line text number :: rest =>
    ({ run with doc := { run.doc with input := rest, line := number.getD run.doc.line } }.readStatement text).2.doc
  | _ => run.doc

theorem reads_afterReading (run : Run) : Reads run.doc run.afterReading := by
  unfold afterReading
  split
  · rename_i text number rest hi
    have hline : Reads run.doc { run.doc with input := rest, line := number.getD run.doc.line } :=
      ⟨[.line text number], hi, rfl⟩
    exact hline.trans (reads_joinContinuations _ _ _)
  · exact .refl run.doc

/-- A step reads a statement, which is then carried out. -/
theorem moves_step (hq : run.quitsNext = false)
    (hm : ∀ line next, run.controlNext? = some (line, next) → shifts next.doc line = true →
      movable next.doc.formatter.invocations) : run.step.After (Moves movable run.afterReading) := by
  unfold quitsNext at hq
  unfold controlNext? at hm
  unfold step afterReading
  refine moves_activatePending ?_
  cases hi : run.doc.input with
  | nil => exact .motion .refl
  | cons item rest =>
    rw [hi] at hq hm
    cases item with
    | line text number =>
      refine moves_interpretLine ?_ ?_
      · intro control next hs
        dsimp only at hq
        rw [hs] at hq
        exact hq
      · intro control next hs
        dsimp only at hm
        rw [hs] at hm
        exact hm control next rfl
    | finish number => exact .motion (.reads .refl ⟨[.finish number], hi, List.drop_one.symm⟩)
    | markup text =>
      have hrest : Motion movable run.doc { run.doc with input := rest } := .reads .refl ⟨[.markup text], hi, rfl⟩
      exact .motion (hrest.of_place (emitMarkup_place _ text))
    | paragraphEnd =>
      have hrest : Motion movable run.doc { run.doc with input := rest } := .reads .refl ⟨[.paragraphEnd], hi, rfl⟩
      exact .motion (hrest.of_place (closeParagraph_place _))

theorem lockstep_step (h : Lockstep run.doc) (hq : run.quitsNext = false) : run.step.After Lockstep := by
  have hstep : run.step.After (Moves (fun _ => True) run.afterReading) := moves_step hq fun _ _ _ _ => trivial
  exact hstep.imp fun _ hm => (h.reads (reads_afterReading run)).moves hm

end
end Run
end RoffDocBook

/-! In every state that a run can reach, the ends of macros in the input are those of the macros that are being expanded,
and a macro is left by dropping the input up to its end and no more. -/
namespace RoffDocBook.Run
open Text Document

/-- The state after the next step, whether the run goes on or the source has ended it. -/
def advance (run : Run) : Run :=
  match run.step with
  | .ok next => next
  | .error (_, next) => next

theorem step_eq_advance {run : Run} (h : run.step.toOption.isSome = true) : run.step = .ok run.advance := by
  unfold advance
  cases hs : run.step with
  | ok next => rfl
  | error stopped =>
    rw [hs] at h
    cases h

/-- The states that a run reaches from the start of a source. Any work other than the end of a macro can be put in front
of the input on the way, so that every sequence of work is covered; only the requests that drop the rest of the input
are left out. -/
inductive Reachable : Run → Prop where
  | start (environment : Environment) (hints : Hints) (name : String) (source : Text) (detection : Detection) :
    Reachable (Conversion.prepare environment hints name source detection)
  | work {run : Run} (h : Reachable run) (item : WorkItem) (hitem : Input.ends [item] = []) :
    Reachable { run with doc := { run.doc with input := item :: run.doc.input } }
  | step {run : Run} (h : Reachable run) (hq : run.quitsNext = false) : Reachable run.advance

theorem after_advance {p : Document → Prop} {run : Run} (h : run.step.After p) : p run.advance.doc := by
  unfold advance
  generalize run.step = result at h
  match result with
  | .ok next => exact h
  | .error (_, next) => exact h

theorem lockstep_advance {run : Run} (h : Lockstep run.doc) (hq : run.quitsNext = false) : Lockstep run.advance.doc :=
  after_advance (lockstep_step h hq)

theorem lockstep_prepare (environment : Environment) (hints : Hints) (name : String) (source : Text)
    (detection : Detection) : Lockstep (Conversion.prepare environment hints name source detection).doc := by
  unfold Conversion.prepare
  extract_lets hints doc directory sourceDir run activated
  have hactivated : activated.doc.place = run.doc.place := foldl_activate_place _ run
  have hinvocations : activated.doc.formatter.invocations = [] := congrArg Prod.snd hactivated
  constructor
  · dsimp only
    rw [Input.ends_ofText, hinvocations]
    rfl
  · dsimp only
    rw [hinvocations]
    exact Nat.zero_le _

theorem Reachable.lockstep {run : Run} (h : Reachable run) : Lockstep run.doc := by
  induction h with
  | start environment hints name source detection => exact lockstep_prepare environment hints name source detection
  | @work run h item hitem ih =>
    refine ⟨?_, ih.nesting⟩
    have hends : Input.ends (item :: run.doc.input) = Input.ends [item] ++ run.doc.input.ends :=
      Input.ends_append [item] run.doc.input
    rw [hends, hitem]
    exact ih.ends
  | step h hq ih => exact lockstep_advance ih hq

theorem formatterRequest_return (doc : Document) {request : Request} (hname : request.name = "return") :
    doc.formatterRequest request = .done doc.leaveMacro := by
  unfold formatterRequest
  rw [hname]
  rfl

/-- In every state that a run can reach, the ends of macros in the input are those of the macros that are being expanded,
in the same order and with the same lines, and there are no more of them than the nesting allows. The request that leaves
a macro, which finds the document as it is once its own line is read, drops the input up to the first end, that end, and
the innermost macro; outside all macros it changes nothing. -/
theorem Reachable.ends_eq_invocations {run : Run} (h : Reachable run) :
    run.doc.input.ends = run.doc.formatter.invocations.map (·.line) ∧
      run.doc.formatter.invocations.length ≤ maximalNesting ∧
        ∀ (doc : Document) (request : Request), Reads run.doc doc → request.name = "return" →
          match doc.formatter.invocations with
          | [] => doc.formatterRequest request = .done doc
          | innermost :: outer =>
            ∃ above rest,
              doc.input = above ++ .finish innermost.line :: rest ∧ Input.ends above = [] ∧
                doc.formatterRequest request =
                  .done
                    { doc with
                      input := rest
                      line := innermost.line
                      formatter := { doc.formatter with invocations := outer } } := by
  refine ⟨h.lockstep.ends, h.lockstep.nesting, ?_⟩
  intro doc request hread hname
  have hleft := (h.lockstep.reads hread).leaveMacro_eq
  rw [formatterRequest_return doc hname]
  cases hi : doc.formatter.invocations with
  | nil =>
    rw [hi] at hleft
    exact congrArg Outcome.done hleft
  | cons innermost outer =>
    rw [hi] at hleft
    obtain ⟨above, rest, hinput, habove, heq⟩ := hleft
    exact ⟨above, rest, hinput, habove, congrArg Outcome.done heq⟩

/-- A macro that is being expanded within another one. -/
theorem ends_eq_invocations_nested :
    ∃ run : Run, run.Reachable ∧ run.doc.formatter.invocations.map (·.name) = ["Inner", "Outer"] ∧
      run.doc.input.ends = [9, 9] ∧ run.doc.input.ends = run.doc.formatter.invocations.map (·.line) := by
  let source : Text := ".de Inner\nb\n..\n.de Outer\na\n.Inner\nc\n..\n.Outer\nd\n"
  let start := Conversion.prepare {} {} "page.1" source ⟨.man, []⟩
  have hreachable : start.advance.advance.advance.advance.advance.Reachable := by
    refine .step (.step (.step (.step (.step (.start _ _ _ _ _) ?_) ?_) ?_) ?_) ?_ <;> decide +kernel
  refine ⟨_, hreachable, ?_, ?_, hreachable.ends_eq_invocations.1⟩
  · decide +kernel
  · decide +kernel

end RoffDocBook.Run
