import RoffDocBook.Package.Formatter
import RoffDocBook.Proofs.Expression.Escaped
import RoffDocBook.Proofs.Formatter.Registers

/-! Strings and number registers that escaped lines define. They have the escaped names and values of those that the
lines themselves define, so that escaped text refers to them as the text does. -/
namespace RoffDocBook
open Text Markup

/-- A request as it is made by its line once that is escaped. -/
def Request.escaped (request : Request) : Request :=
  { request with
    arguments := request.arguments.map escape
    rest := escape request.rest
    line := escape request.line }

theorem Request.argument_escaped (request : Request) (i : Nat) :
    request.escaped.argument i = escape (request.argument i) := by
  rw [argument, argument, escaped, List.getD_eq_getElem?_getD, List.getD_eq_getElem?_getD, List.getElem?_map]
  cases request.arguments[i]? <;> rfl

namespace Formatter

/-- Names without a character that is escaped are found under themselves. -/
theorem get?_escapeName {α : Type} {table : Bindings α} (h : ∀ binding ∈ table, ∀ c ∈ binding.1.toList, c ∉ marks)
    (name : String) : table.get? (escapeName name) = table.get? name := by
  have hnone {name : String} {c : Char} (hc : c ∈ marks) (hm : c ∈ name.toList) : table.get? name = none := by
    rw [Option.eq_none_iff_forall_ne_some]
    intro value hvalue
    exact h _ (Bindings.mem_of_get? hvalue) c hm hc
  by_cases hmark : ∃ c ∈ name.toList, c ∈ marks
  · obtain ⟨c, hm, hc⟩ := hmark
    have hamp : '&' ∈ (escapeName name).toList := by
      rw [escapeName, String.toList_ofList]
      exact amp_mem_escape hc hm
    rw [hnone hc hm, hnone (by decide) hamp]
  · rw [escapeName, escape_of_forall fun c hm hc => hmark ⟨c, hm, hc⟩, String.ofList_toList]

theorem escapes_initial (today : Nat) : Escapes (State.initial today) (State.initial today) := by
  have hplain : ∀ binding ∈ (State.initial today).registers, ∀ c ∈ binding.1.toList, c ∉ marks := by
    simp [State.initial, marks]
  exact
    { strings := fun _ => rfl
      registers := get?_escapeName hplain
      invocations := rfl
      control := ⟨rfl, rfl⟩
      fill := rfl }

theorem Escapes.put {raw escaped : State} (h : Escapes raw escaped) (name : String) (value : Text) :
    Escapes { raw with strings := raw.strings.put name value }
      { escaped with strings := escaped.strings.put (escapeName name) (escape value) } := by
  refine { h with strings := fun other => ?_ }
  have hsame : escapeName other = escapeName name ↔ other = name := ⟨escapeName_injective, congrArg escapeName⟩
  rw [Bindings.get?_put, Bindings.get?_put, h.strings, apply_ite (Option.map escape)]
  exact if_congr hsame rfl rfl

/-- The sign at the start of a text, as a factor. -/
def signOf : Text → Int64
  | '+' :: _ => 1
  | '-' :: _ => -1
  | _ => 0

theorem signOf_escape (t : Text) : signOf (escape t) = signOf t := by
  cases t with
  | nil => rfl
  | cons c t =>
    by_cases hmark : c ∈ marks
    · obtain ⟨name, hname⟩ := exists_reference hmark
      have hplus : c ≠ '+' := fun hc => absurd (hc ▸ hmark) (by decide)
      have hminus : c ≠ '-' := fun hc => absurd (hc ▸ hmark) (by decide)
      simp [escape_cons, hname, signOf, hplus, hminus]
    · rw [escape_cons_of_notMem hmark]
      unfold signOf
      split <;> simp_all

theorem unsigned_escape (t : Text) : unsigned (escape t) = escape (unsigned t) := by
  cases t with
  | nil => rfl
  | cons c t =>
    by_cases hmark : c ∈ marks
    · obtain ⟨name, hname⟩ := exists_reference hmark
      have hplus : c ≠ '+' := fun hc => absurd (hc ▸ hmark) (by decide)
      have hminus : c ≠ '-' := fun hc => absurd (hc ▸ hmark) (by decide)
      simp [escape_cons, hname, unsigned, hplus, hminus]
    · rw [escape_cons_of_notMem hmark]
      unfold unsigned
      split <;> simp_all [escape_cons_of_notMem hmark]

/-- The step of a register. -/
def State.stepOf (s : State) (name : String) : Int64 :=
  match s.registers.get? name with
  | some (.value _ step) => step
  | _ => 0

/-- Sets a register to a value, or to its own value with the other one added or subtracted. One that has no new step
keeps its step. -/
def State.assign (s : State) (name : String) (sign : Int64) (value step : Option Int64) : State :=
  s.setRegister name (if sign == 0 then value.getD 0 else s.register name + sign * value.getD 0)
    (step.getD (s.stepOf name))

theorem Escapes.assign {raw escaped : State} (h : Escapes raw escaped) (name : String) (sign : Int64)
    (value step : Option Int64) :
    Escapes (raw.assign name sign value step) (escaped.assign (escapeName name) sign value step) := by
  have hstep : escaped.stepOf (escapeName name) = raw.stepOf name := by
    rw [State.stepOf, State.stepOf, h.registers]
  rw [State.assign, State.assign, h.register, hstep]
  exact h.setRegister name _ _

end Formatter

namespace Document
open Formatter
variable {doc doc' : Document} {request : Request}

theorem splitName_escape (t : Text) : splitName (escape t) = (escape (splitName t).1, escape (splitName t).2) := by
  have hblank : ∀ c ∈ (spanUntil isSpaceOrTab t).2.head?, c ∉ Markup.marks := by
    intro c hc hmark
    have hkept := List.head?_dropWhile_not (fun c => !isSpaceOrTab c) t
    rw [show (t.dropWhile fun c => !isSpaceOrTab c).head? = some c from hc] at hkept
    have hnone : ∀ c ∈ Markup.marks, isSpaceOrTab c = false := forall_mem_of_all (by decide)
    simp [hnone c hmark] at hkept
  rw [splitName, spanUntil_escape (by decide), splitName]
  exact Prod.ext rfl (drop_one_escape hblank)

theorem writtenValue_escape (t : Text) : writtenValue (escape t) = escape (writtenValue t) := by
  have hplain : ∀ c ∈ ['"'], c ∉ Markup.marks := List.forall_mem_singleton.mpr (by decide)
  have hquote := dropStart?_escape hplain (trimStart t)
  have htrim : trimStart (escape t) = escape (trimStart t) := dropWhile_escape (by decide) t
  rw [writtenValue, writtenValue, htrim, show "\"".toList = ['"'] from rfl, hquote]
  cases dropStart? ['"'] (trimStart t) <;> rfl

theorem escapes_defineString (h : Escapes doc.formatter doc'.formatter) (adding : Bool) :
    Escapes (doc.defineString request adding).formatter (doc'.defineString request.escaped adding).formatter := by
  have htrim : trimStart (escape request.rest) = escape (trimStart request.rest) := dropWhile_escape (by decide) _
  unfold defineString
  rw [Request.escaped, htrim, splitName_escape]
  dsimp only
  rw [isEmpty_escape]
  split
  · exact h
  · have hfound (name : Text) : (doc'.formatter.strings.get? (String.ofList (escape name))).getD [] =
        escape ((doc.formatter.strings.get? (String.ofList name)).getD []) := by
      rw [← escapeName_ofList, h.strings]
      cases doc.formatter.strings.get? (String.ofList name) <;> rfl
    rw [writtenValue_escape, hfound, ← escape_append, ← apply_ite escape, ← escapeName_ofList]
    exact h.put _ _

theorem setNumber_formatter (h : (request.argument 0).isEmpty = false) :
    (doc.setNumber request).formatter =
      (doc.formatter.evaluate (unsigned (request.argument 1))).2.assign (String.ofList (request.argument 0))
        (signOf (request.argument 1)) (doc.formatter.evaluate (unsigned (request.argument 1))).1.toOption
        (toWord? (request.argument 2)) := by
  have hsigned : (match request.argument 1 with
      | '+' :: rest => ((1, rest) : Int64 × Text)
      | '-' :: rest => (-1, rest)
      | text => (0, text)) = (signOf (request.argument 1), unsigned (request.argument 1)) := by
    unfold signOf unsigned
    split <;> simp_all
  unfold setNumber
  extract_lets argument name
  split
  · rename_i hempty
    exact absurd hempty (by rw [h]; exact Bool.false_ne_true)
  · split
    rename_i sign expression hread
    obtain ⟨rfl, rfl⟩ := Prod.mk.inj (hsigned.symm.trans hread)
    unfold State.assign
    generalize doc.formatter.evaluate (unsigned (request.argument 1)) = evaluated
    obtain ⟨error | value, formatter⟩ := evaluated
    · cases toWord? (request.argument 2) <;> rfl
    · cases toWord? (request.argument 2) <;> rfl

theorem escapes_setNumber (h : Escapes doc.formatter doc'.formatter)
    (hevaluable : Evaluable (unsigned (request.argument 1))) :
    Escapes (doc.setNumber request).formatter (doc'.setNumber request.escaped).formatter := by
  have hempty : (request.escaped.argument 0).isEmpty = (request.argument 0).isEmpty := by
    rw [Request.argument_escaped, isEmpty_escape]
  cases hname : (request.argument 0).isEmpty with
  | true =>
    have hkept {doc : Document} {request : Request} (h : (request.argument 0).isEmpty = true) :
        doc.setNumber request = doc := by
      rw [setNumber, h, if_pos rfl]
    rw [hkept hname, hkept (hempty.trans hname)]
    exact h
  | false =>
    obtain ⟨hvalue, hstate⟩ := h.evaluate hevaluable
    rw [setNumber_formatter hname, setNumber_formatter (hempty.trans hname), Request.argument_escaped,
      Request.argument_escaped, Request.argument_escaped, unsigned_escape, signOf_escape, toWord?_escape, hvalue,
      ← escapeName_ofList]
    exact hstate.assign _ _ _ _

/-- Carries out the request of a control line. -/
def carryOut (doc : Document) (line : Text) : Document :=
  match doc.splitControl? line with
  | some (name, rest) =>
    match doc.formatterRequest { name, arguments := ControlLine.arguments rest, rest, line } with
    | .done doc => doc
    | _ => doc
  | none => doc

/-- A line that defines a string or adds to one, or that sets a number register. -/
inductive Defines : Text → Prop where
  | string {line rest : Text} {name : String} (hn : name ∈ ["ds", "ds1", "as", "as1"])
      (h : ControlLine.split? line '.' '\'' = some (name, rest)) : Defines line
  | register {line rest : Text} (h : ControlLine.split? line '.' '\'' = some ("nr", rest))
      (he : Evaluable (unsigned ((ControlLine.arguments rest).getD 1 []))) : Defines line

/-- The control characters of a line that is not told otherwise. -/
def UsualControl (doc : Document) : Prop :=
  doc.formatter.control = '.' ∧ doc.formatter.noBreak = '\''

theorem UsualControl.defineString (hc : UsualControl doc) (adding : Bool) :
    UsualControl (doc.defineString request adding) := by
  unfold Document.defineString
  dsimp only
  split
  · exact hc
  · exact hc

theorem recounts_setNumber (doc : Document) (request : Request) :
    Recounts doc.formatter (doc.setNumber request).formatter := by
  cases hname : (request.argument 0).isEmpty with
  | true =>
    rw [setNumber, hname, if_pos rfl]
    exact .refl _
  | false =>
    rw [setNumber_formatter hname]
    exact (doc.formatter.recounts_evaluate _).trans (State.recounts_setRegister _ _ _ _)

theorem UsualControl.setNumber (hc : UsualControl doc) : UsualControl (doc.setNumber request) := by
  rw [UsualControl, recounts_setNumber doc request]
  exact hc

theorem formatterRequest_setNumber (doc : Document) {request : Request} (hr : request.name = "nr") :
    doc.formatterRequest request = .done (doc.setNumber request) := by
  simp only [formatterRequest, hr]

/-- A line and its escaped form are carried out in the same way. -/
theorem carryOut_of_split? {act : Document → Request → Document} {name : String} {line rest : Text}
    (hact : ∀ doc request, request.name = name → formatterRequest doc request = .done (act doc request))
    (h : ControlLine.split? line '.' '\'' = some (name, rest)) (hname : escapeName name = name) :
    ∃ request : Request, request.arguments = ControlLine.arguments rest ∧
      (∀ doc, UsualControl doc → doc.carryOut line = act doc request) ∧
        ∀ doc, UsualControl doc → doc.carryOut (escape line) = act doc request.escaped := by
  have hsplit := ControlLine.split?_escape (by decide : '.' ∉ Markup.marks) (by decide : '\'' ∉ Markup.marks) line
  rw [h, Option.map_some, hname] at hsplit
  refine ⟨{ name, arguments := ControlLine.arguments rest, rest, line }, rfl, fun doc hc => ?_, fun doc hc => ?_⟩
  · rw [carryOut, splitControl?, hc.1, hc.2, h]
    dsimp only
    rw [hact _ _ rfl]
  · rw [carryOut, splitControl?, hc.1, hc.2, hsplit]
    dsimp only
    rw [hact _ _ rfl, ControlLine.arguments_escape]
    rfl

theorem escapes_carryOut (h : Escapes doc.formatter doc'.formatter) (hc : UsualControl doc) {line : Text}
    (hl : Defines line) :
    Escapes (doc.carryOut line).formatter (doc'.carryOut (escape line)).formatter ∧
      UsualControl (doc.carryOut line) := by
  have hc' : UsualControl doc' := ⟨h.control.1.trans hc.1, h.control.2.trans hc.2⟩
  have hstring {name : String} {rest : Text} (adding : Bool) (hname : escapeName name = name)
      (hsplit : ControlLine.split? line '.' '\'' = some (name, rest))
      (hact : ∀ doc request, request.name = name →
        formatterRequest doc request = .done (defineString doc request adding)) :
      Escapes (doc.carryOut line).formatter (doc'.carryOut (escape line)).formatter ∧
        UsualControl (doc.carryOut line) := by
    obtain ⟨request, _, hraw, hescaped⟩ := carryOut_of_split? hact hsplit hname
    rw [hraw doc hc, hescaped doc' hc']
    exact ⟨escapes_defineString h adding, hc.defineString adding⟩
  cases hl with
  | string hn hsplit =>
    simp only [List.mem_cons, List.not_mem_nil, or_false] at hn
    rcases hn with rfl | rfl | rfl | rfl
    · exact hstring false rfl hsplit fun doc request hr => by simp only [formatterRequest, hr]
    · exact hstring false rfl hsplit fun doc request hr => by simp only [formatterRequest, hr]
    · exact hstring true rfl hsplit fun doc request hr => by simp only [formatterRequest, hr]
    · exact hstring true rfl hsplit fun doc request hr => by simp only [formatterRequest, hr]
  | register hsplit he =>
    have hact (doc : Document) (request : Request) (hr : request.name = "nr") := formatterRequest_setNumber doc hr
    obtain ⟨request, harguments, hraw, hescaped⟩ := carryOut_of_split? hact hsplit rfl
    rw [hraw doc hc, hescaped doc' hc']
    exact ⟨escapes_setNumber h (by rwa [Request.argument, harguments]), hc.setNumber⟩

/-- The formatter after lines of definitions. -/
def defined (doc : Document) (definitions : List Text) : Formatter.State :=
  (definitions.foldl carryOut doc).formatter

theorem escapes_defined (h : Escapes doc.formatter doc'.formatter) (hc : UsualControl doc) {definitions : List Text}
    (hd : ∀ line ∈ definitions, Defines line) :
    Escapes (doc.defined definitions) (doc'.defined (definitions.map escape)) := by
  unfold defined
  induction definitions generalizing doc doc' with
  | nil => exact h
  | cons line definitions ih =>
    obtain ⟨hline, hrest⟩ := List.forall_mem_cons.mp hd
    obtain ⟨hnext, hcontrol⟩ := escapes_carryOut h hc hline
    exact ih hnext hcontrol hrest

/-- Escaping the source first does not show in what strings and number registers stand for, wherever the names of
strings, arguments and registers are legible: the escaped line becomes the escaped form of what the line becomes. -/
theorem defined_escape {today : Nat} (h : doc.formatter = State.initial today) {definitions : List Text}
    (hd : ∀ line ∈ definitions, Defines line) (line : Text) :
    ((∀ pass < expansionPasses, Readable (doc.defined definitions) ((doc.defined definitions).expandOnce^[pass] line)) →
        (doc.defined (definitions.map escape)).expand (escape line) =
          escape ((doc.defined definitions).expand line)) ∧
      (Countable line →
        ((doc.defined (definitions.map escape)).interpolate (escape line)).1 =
          escape ((doc.defined definitions).interpolate line).1) := by
  have hstart : Escapes doc.formatter doc.formatter := by
    rw [h]
    exact escapes_initial today
  have hescapes := escapes_defined hstart (by rw [UsualControl, h]; exact ⟨rfl, rfl⟩) hd
  exact ⟨fun hl => hescapes.expand hl, fun hl => (hescapes.interpolate hl).1⟩

/-- A page before its first line. -/
def blankPage : Document :=
  start "page.1" {} {}

/-- Definitions of a string and of a number register with characters that are escaped in the names and values. -/
def markedDefinitions : List Text :=
  [".ds a&b x<y", ".nr n> 1<2"]

theorem defined_escape_marked :
    (∀ line ∈ markedDefinitions, Defines line) ∧
      (blankPage.defined (markedDefinitions.map escape)).expand (escape ['\\', '*', '[', 'a', '&', 'b', ']']) =
        escape ((blankPage.defined markedDefinitions).expand ['\\', '*', '[', 'a', '&', 'b', ']']) ∧
      ((blankPage.defined (markedDefinitions.map escape)).interpolate (escape ['\\', 'n', '[', 'n', '>', ']'])).1 =
        escape ((blankPage.defined markedDefinitions).interpolate ['\\', 'n', '[', 'n', '>', ']']).1 := by
  have hkind : "ds" ∈ ["ds", "ds1", "as", "as1"] := by decide
  have hstring : Defines ".ds a&b x<y" := .string hkind rfl
  have hnumber : ControlLine.split? ".nr n> 1<2" '.' '\'' = some ("nr", "n> 1<2".toList) := rfl
  have hevaluable : Evaluable (unsigned ((ControlLine.arguments "n> 1<2").getD 1 [])) := by
    have hread : unsigned ((ControlLine.arguments "n> 1<2").getD 1 []) = ['1', '<', '2'] := by decide +kernel
    rw [hread]
    exact evaluable_of_notMem (by decide) (by decide)
  have hdefinitions : ∀ line ∈ markedDefinitions, Defines line :=
    List.forall_mem_cons.mpr ⟨hstring, List.forall_mem_singleton.mpr (.register hnumber hevaluable)⟩
  have hstart : blankPage.formatter = State.initial blankPage.settings.today := rfl
  have hstrings : (blankPage.defined markedDefinitions).strings = [("a&b", ['x', '<', 'y'])] := by
    have hact (doc : Document) (request : Request) (hr : request.name = "nr") := formatterRequest_setNumber doc hr
    obtain ⟨request, _, hraw, _⟩ := carryOut_of_split? hact hnumber rfl
    rw [markedDefinitions, defined, List.foldl_cons, List.foldl_cons, List.foldl_nil, hraw _ ⟨rfl, rfl⟩,
      recounts_setNumber]
    rfl
  have hvalue : (blankPage.defined markedDefinitions).stringValue ['a', '&', 'b'] = ['x', '<', 'y'] := by
    rw [State.stringValue, hstrings]
    rfl
  have hname : Named ['[', 'a', '&', 'b', ']'] ['a', '&', 'b'] [] := @Named.bracketed ['a', '&', 'b'] [] (by decide)
  refine ⟨hdefinitions, (defined_escape hstart hdefinitions _).1 fun pass _ => ?_,
    (defined_escape hstart hdefinitions _).2 (.register (@Named.bracketed ['n', '>'] [] (by decide)) (.inl rfl) .nil)⟩
  cases pass with
  | zero => exact .string hname (.inl rfl) .nil
  | succ pass =>
    have hplain : Nests (blankPage.defined markedDefinitions) 0 ['x', '<', 'y'] := nests_of_notMem (by decide) 0
    rw [Function.iterate_succ_apply, State.expandOnce_string hname, hvalue, State.expandOnce, List.append_nil,
      Function.iterate_fixed hplain.expandOnce_eq]
    exact .char (by decide) (.char (by decide) (.char (by decide) .nil))

end Document

end RoffDocBook
