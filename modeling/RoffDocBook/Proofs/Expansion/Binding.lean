import RoffDocBook.Proofs.Conditional.Selection
import RoffDocBook.Proofs.Expansion.LookAhead
import RoffDocBook.Proofs.Formatter.Expansion
import RoffDocBook.Proofs.Expansion.Inlining

/-! Lines that go on with the lines after them. The search for those goes over the ends of macros, and the line is
expanded when it has come to its own end. -/
namespace RoffDocBook
open Text Document Conditional Formatter

/-- The last character of a line that goes on. -/
theorem eq_concat_of_endsInContinuation {t : Text} (h : endsInContinuation t = true) :
    ∃ front, t = front ++ ['\\'] := by
  rcases List.eq_nil_or_concat t with rfl | ⟨front, last, rfl⟩
  · cases h
  · refine ⟨front, ?_⟩
    by_cases hl : last = '\\'
    · rw [hl, List.concat_eq_append]
    · simp [endsInContinuation, hl] at h

/-- Without it the line goes on no more. -/
theorem endsInContinuation_dropLast {t : Text} (h : endsInContinuation t = true) :
    endsInContinuation t.dropLast = false := by
  obtain ⟨front, rfl⟩ := eq_concat_of_endsInContinuation h
  rw [List.dropLast_concat]
  simp only [endsInContinuation, List.reverse_append, List.reverse_singleton, List.singleton_append, beq_self_eq_true,
    List.takeWhile_cons_of_pos, List.length_cons, beq_iff_eq] at h
  simp only [endsInContinuation, beq_eq_false_iff_ne]
  omega

theorem dropLast_append {t : Text} (h : endsInContinuation t = true) (before : Text) :
    (before ++ t).dropLast = before ++ t.dropLast := by
  obtain ⟨front, rfl⟩ := eq_concat_of_endsInContinuation h
  rw [← List.append_assoc, List.dropLast_concat, List.dropLast_concat]

namespace Expansion

/-- A line with the lines that it goes on with. -/
def joined (text : Text) : Input → Text
  | .line next _ :: rest => if endsInContinuation text then text.dropLast ++ joined next rest else text
  | .finish _ :: rest => joined text rest
  | [] | .markup _ :: _ | .paragraphEnd :: _ => if endsInContinuation text then text.dropLast else text

/-- How many ends of macros are gone over in search of those lines. -/
def endsOver (text : Text) : Input → Nat
  | .line next _ :: rest => if endsInContinuation text then endsOver next rest else 0
  | .finish _ :: rest => if endsInContinuation text then endsOver text rest + 1 else 0
  | [] | .markup _ :: _ | .paragraphEnd :: _ => 0

theorem joined_of_false {text : Text} (h : endsInContinuation text = false) (input : Input) :
    joined text input = text := by
  induction input with
  | nil => rw [joined, h, if_neg Bool.false_ne_true]
  | cons item rest ih =>
    cases item with
    | line next number => rw [joined, h, if_neg Bool.false_ne_true]
    | finish mark => rw [joined, ih]
    | markup piece => rw [joined, h, if_neg Bool.false_ne_true]
    | paragraphEnd => rw [joined, h, if_neg Bool.false_ne_true]

theorem endsOver_of_false {text : Text} (h : endsInContinuation text = false) (input : Input) :
    endsOver text input = 0 := by
  cases input with
  | nil => rfl
  | cons item rest =>
    cases item with
    | line next number => rw [endsOver, h, if_neg Bool.false_ne_true]
    | finish mark => rw [endsOver, h, if_neg Bool.false_ne_true]
    | markup piece => rfl
    | paragraphEnd => rfl

/-- The formatter once some of the innermost macros are left. -/
def leaving (formatter : Formatter.State) (n : Nat) : Formatter.State :=
  { formatter with invocations := formatter.invocations.drop n }

theorem leaving_pass (doc : Document) (mark n : Nat) :
    leaving (doc.pass (.finish mark)).formatter n = leaving doc.formatter (n + 1) := by
  rw [leaving, leaving, Nat.add_comm, ← List.drop_drop, List.drop_one]
  rfl

section
variable {left : Nat} {doc : Document} {before : Text}

/-- A line that goes on with no other. -/
theorem joinContinuations_of_false_append {text : Text} (hb : endsInContinuation before = false)
    (hc : endsInContinuation text = false) (input : Input) :
    (Run.joinContinuations left doc (before ++ text)).1 = before ++ joined text input ∧
      (Run.joinContinuations left doc (before ++ text)).2.formatter = leaving doc.formatter (endsOver text input) := by
  have hends := (endsInContinuation_append hb text).trans hc
  rw [joinContinuations_of_false _ _ hends, joined_of_false hc, endsOver_of_false hc]
  exact ⟨rfl, rfl⟩

/-- Something that is no line and no end of a macro stops the search. -/
theorem joinContinuations_of_none {text : Text} (hn : doc.nextRawLine = (none, doc))
    (hc : endsInContinuation text = true) : Run.joinContinuations left doc text = (text.dropLast, doc) := by
  cases left with
  | zero => rw [Run.joinContinuations, hc, if_pos rfl]
  | succ left => rw [Run.joinContinuations, hc, if_pos rfl, hn]

/-- Reading a line to its end joins it with the lines that it goes on with, and leaves the macros whose ends are gone
over. What stands before it on the line does not matter. -/
theorem joinContinuations_eq {input : Input} (hi : doc.input = input) (hl : input.length ≤ left)
    (hb : endsInContinuation before = false) (text : Text) :
    (Run.joinContinuations left doc (before ++ text)).1 = before ++ joined text input ∧
      (Run.joinContinuations left doc (before ++ text)).2.formatter = leaving doc.formatter (endsOver text input) := by
  induction input generalizing left doc before text with
  | nil =>
    cases hc : endsInContinuation text with
    | false => exact joinContinuations_of_false_append hb hc []
    | true =>
      have hends := (endsInContinuation_append hb text).trans hc
      have hnone : doc.nextRawLine = (none, doc) := by rw [nextRawLine, hi]; rfl
      rw [joinContinuations_of_none hnone hends, joined, endsOver, if_pos hc, dropLast_append hc]
      exact ⟨rfl, rfl⟩
  | cons item rest ih =>
    cases hc : endsInContinuation text with
    | false => exact joinContinuations_of_false_append hb hc _
    | true =>
      have hends := (endsInContinuation_append hb text).trans hc
      obtain ⟨left, rfl⟩ : ∃ more, left = more + 1 := Nat.exists_eq_add_of_le' (Nat.le_trans (Nat.succ_pos _) hl)
      have hrest : rest.length ≤ left := Nat.le_of_succ_le_succ hl
      cases item with
      | line next number =>
        have hfront := (endsInContinuation_append hb text.dropLast).trans (endsInContinuation_dropLast hc)
        rw [Run.joinContinuations, if_pos hends, nextRawLine_line hi, dropLast_append hc, joined, endsOver, if_pos hc,
          if_pos hc, ← List.append_assoc]
        exact ih (pass_input hi) hrest hfront next
      | finish mark =>
        have hread := ih (pass_input hi) (Nat.le_succ_of_le hrest) hb text
        rw [Run.joinContinuations, if_pos hends, ← nextRawLine_finish hi, leaving_pass] at hread
        rw [Run.joinContinuations, if_pos hends, joined, endsOver, if_pos hc]
        exact hread
      | markup piece =>
        have hnone : doc.nextRawLine = (none, doc) := by rw [nextRawLine, hi]; rfl
        rw [joinContinuations_of_none hnone hends, joined, endsOver, if_pos hc, dropLast_append hc]
        exact ⟨rfl, rfl⟩
      | paragraphEnd =>
        have hnone : doc.nextRawLine = (none, doc) := by rw [nextRawLine, hi]; rfl
        rw [joinContinuations_of_none hnone hends, joined, endsOver, if_pos hc, dropLast_append hc]
        exact ⟨rfl, rfl⟩

end

/-- What a line asks for is told by the line with those that it goes on with, within the macros that are left then. -/
theorem readStatement_joined (run : Run) (text : Text) :
    ∃ after : Run,
      run.readStatement text = (Run.statementOf after.doc (joined text run.doc.input), after) ∧
        after.doc.formatter = leaving run.doc.formatter (endsOver text run.doc.input) := by
  have hempty : endsInContinuation [] = false := rfl
  obtain ⟨hjoined, hformatter⟩ := joinContinuations_eq rfl (Nat.le_refl run.doc.input.length) hempty text
  refine ⟨(run.readStatement text).2, ?_, hformatter⟩
  rw [List.nil_append, List.nil_append] at hjoined
  rw [← hjoined]
  rfl

/-- The references on a line to arguments are filled in from the innermost of the macros that are left when the line has
come to its end. -/
theorem readStatement_bound {run : Run} {text : Text} {pieces : List Piece}
    (ha : ∀ invocation ∈ run.doc.formatter.invocations, ∀ argument ∈ invocation.arguments, Settled argument)
    (hp : joined text run.doc.input = sourceOf pieces) :
    ∃ after : Run,
      run.readStatement text = (Run.statementOf after.doc (sourceOf pieces), after) ∧
        after.doc.formatter.expand (sourceOf pieces) =
          bound (run.doc.formatter.invocations.drop (endsOver text run.doc.input)) pieces := by
  obtain ⟨after, hread, hformatter⟩ := readStatement_joined run text
  rw [hp] at hread
  refine ⟨after, hread, ?_⟩
  rw [hformatter]
  exact State.expand_sourceOf (fun invocation hi => ha invocation (List.mem_of_mem_drop hi)) pieces

end Expansion
end RoffDocBook

/-! Arguments belong to the invocation of their macro. As long as a macro is being expanded, what is done within it
leaves the rest of its body, its arguments and all that stands around it, so that each line of the body is read with the
arguments of its invocation, unless it goes on with lines beyond the end of the macro. -/
namespace RoffDocBook
open Text Document Formatter

namespace Document

/-- A macro that is being expanded: the lines of its body that are left stand before its end, with other work in front
of them, and the macros whose ends are among that work are nested in it. -/
def Within (own : Invocation) (outer : List Invocation) (body : List Text) (rest : Input) (doc : Document) : Prop :=
  ∃ others left inner, left <:+ body ∧ doc.input = others ++ Input.pushLines (.finish own.line :: rest) left ∧
    doc.formatter.invocations = inner ++ own :: outer ∧ inner.length = others.ends.length

theorem pushLines_append (first second : Input) (lines : List Text) :
    Input.pushLines (first ++ second) lines = Input.pushLines first lines ++ second :=
  (List.append_assoc _ _ _).symm

/-- Items that hold no end of a macro and stand before the end of one are lines of its body. -/
theorem suffix_of_ends_eq_nil {left : List Text} {mark : Nat} {rest taken kept : Input} (ht : Input.ends taken = [])
    (h : Input.pushLines (.finish mark :: rest) left = taken ++ kept) :
    ∃ lines, lines <:+ left ∧ kept = Input.pushLines (.finish mark :: rest) lines := by
  induction left generalizing taken with
  | nil =>
    cases taken with
    | nil => exact ⟨[], List.suffix_refl _, h.symm⟩
    | cons item taken =>
      obtain ⟨rfl, -⟩ := List.cons.inj h
      cases ht
  | cons line left ih =>
    cases taken with
    | nil => exact ⟨line :: left, List.suffix_refl _, h.symm⟩
    | cons item taken =>
      obtain ⟨rfl, hrest⟩ := List.cons.inj h
      have htaken : Input.ends taken = [] := ht
      obtain ⟨lines, hlines, hkept⟩ := ih htaken hrest
      exact ⟨lines, hlines.trans (List.suffix_cons _ _), hkept⟩

namespace Within
variable {own : Invocation} {outer : List Invocation} {body : List Text} {rest : Input} {a b doc : Document}

theorem depth_lt (h : Within own outer body rest doc) : outer.length < doc.formatter.invocations.length := by
  obtain ⟨others, left, inner, -, -, hinvocations, -⟩ := h
  rw [hinvocations, List.length_append, List.length_cons]
  omega

/-- Reading goes on within the macro until it goes over its end. -/
theorem reads (h : Within own outer body rest a) (hr : Reads a b)
    (hd : outer.length < b.formatter.invocations.length) : Within own outer body rest b := by
  obtain ⟨others, left, inner, hleft, hinput, hinvocations, hlength⟩ := h
  obtain ⟨taken, htaken, hdropped⟩ := hr
  rw [hinvocations] at hdropped
  have hfew : taken.ends.length ≤ inner.length := by
    rw [hdropped, List.length_drop, List.length_append, List.length_cons] at hd
    omega
  rw [List.drop_append_of_le_length hfew] at hdropped
  rw [hinput] at htaken
  rcases List.append_eq_append_iff.mp htaken with ⟨more, rfl, hkept⟩ | ⟨others', rfl, hb⟩
  · rw [Input.ends_append, List.length_append, hlength] at hfew
    have hmore : Input.ends more = [] := List.length_eq_zero_iff.mp (by omega)
    obtain ⟨lines, hlines, hlast⟩ := suffix_of_ends_eq_nil hmore hkept
    refine ⟨[], lines, _, hlines.trans hleft, hlast, hdropped, ?_⟩
    rw [List.length_drop, Input.ends_append, List.length_append, hlength]
    exact Nat.sub_eq_zero_of_le (Nat.le_add_right _ _)
  · refine ⟨others', left, _, hleft, hb, hdropped, ?_⟩
    rw [List.length_drop, hlength, Input.ends_append, List.length_append, Nat.add_sub_cancel_left]

theorem of_place (h : Within own outer body rest a) (hp : b.place = a.place) : Within own outer body rest b := by
  refine h.reads (.of_place hp) ?_
  have hinvocations : b.formatter.invocations = a.formatter.invocations := congrArg Prod.snd hp
  rw [hinvocations]
  exact h.depth_lt

theorem pushLines (h : Within own outer body rest doc) (lines : List Text) :
    Within own outer body rest { doc with input := doc.input.pushLines lines } := by
  obtain ⟨others, left, inner, hleft, hinput, hinvocations, hlength⟩ := h
  refine ⟨others.pushLines lines, left, inner, hleft, ?_, hinvocations, ?_⟩
  · rw [hinput, pushLines_append]
  · rw [Input.ends_pushLines, hlength]

/-- A macro that is begun is nested in it. -/
theorem invoke (h : Within own outer body rest doc) (request : Request) :
    Within own outer body rest (doc.invoke request) := by
  unfold Document.invoke
  split
  · exact h.of_place (error_place doc _)
  · split
    · exact h
    · rename_i lines _
      obtain ⟨others, left, inner, hleft, hinput, hinvocations, hlength⟩ := h
      refine ⟨Input.pushLines (.finish doc.line :: others) lines, left, _ :: inner, hleft, ?_,
        congrArg (_ :: ·) hinvocations, ?_⟩
      · dsimp only
        rw [hinput, ← List.cons_append, pushLines_append]
      · rw [Input.ends_pushLines, List.length_cons, hlength]
        rfl

theorem shiftArguments (h : Within own outer body rest doc) (n : Nat)
    (hd : outer.length + 1 < doc.formatter.invocations.length) : Within own outer body rest (doc.shiftArguments n) := by
  obtain ⟨others, left, inner, hleft, hinput, hinvocations, hlength⟩ := h
  cases inner with
  | nil =>
    rw [hinvocations] at hd
    exact absurd hd (Nat.lt_irrefl _)
  | cons innermost inner =>
    rw [Document.shiftArguments, hinvocations]
    exact ⟨others, left, _ :: inner, hleft, hinput, rfl, hlength⟩

/-- No request changes what stands below the macro. -/
theorem motion (h : Within own outer body rest a) (hm : Motion (outer.length + 1 < ·.length) a b)
    (hd : outer.length < b.formatter.invocations.length) : Within own outer body rest b := by
  induction hm with
  | refl => exact h
  | reads _ hr ih =>
    refine (ih ?_).reads hr hd
    obtain ⟨taken, -, hdropped⟩ := hr
    rw [hdropped, List.length_drop] at hd
    omega
  | pushLines _ lines ih => exact (ih hd).pushLines lines
  | shiftArguments _ n hm ih => exact (ih (Nat.lt_of_succ_lt hm)).shiftArguments n hm

theorem moves (h : Within own outer body rest a) (hm : Moves (outer.length + 1 < ·.length) a b)
    (hd : outer.length < b.formatter.invocations.length) : Within own outer body rest b := by
  cases hm with
  | motion hm => exact h.motion hm hd
  | invoke ha request hp => exact ((h.of_place ha).invoke request).of_place hp

/-- A macro is being expanded from its invocation on. -/
theorem of_invoke {doc : Document} {request : Request} {body : List Text}
    (hb : doc.formatter.macros.get? request.name = some body)
    (hn : doc.formatter.invocations.length < maximalNesting) :
    Within { name := request.name, arguments := request.arguments, line := doc.line } doc.formatter.invocations body
      doc.input (doc.invoke request) := by
  rw [Document.invoke, if_neg (Nat.not_le_of_lt hn), hb]
  exact ⟨[], body, [], List.suffix_refl _, rfl, rfl, rfl⟩

end Within

end Document

namespace Run

/-- Whether the next step of a run moves up the arguments of a macro that is at most so deep. -/
def shiftsNext (run : Run) (depth : Nat) : Bool :=
  run.controlNext?.any fun found =>
    shifts found.2.doc found.1 && decide (found.2.doc.formatter.invocations.length ≤ depth)

/-- The states that a run reaches from another one while macros are nested at least so deep, whenever a statement is
read and whenever it is carried out. Requests that drop the rest of the input are left out, and so are those that move
up the arguments of macros at most so deep. -/
inductive Follows (depth : Nat) (start : Run) : Run → Prop where
  | refl : Follows depth start start
  | step {run : Run} (h : Follows depth start run) (hq : run.quitsNext = false) (hs : run.shiftsNext depth = false)
    (hr : depth ≤ run.afterReading.formatter.invocations.length)
    (hd : depth ≤ run.advance.doc.formatter.invocations.length) : Follows depth start run.advance

theorem Follows.within {own : Invocation} {outer : List Invocation} {body : List Text} {rest : Input} {start run : Run}
    (h : Follows (outer.length + 1) start run) (hw : Within own outer body rest start.doc) :
    Within own outer body rest run.doc := by
  induction h with
  | refl => exact hw
  | @step run _ hq hs hr hd ih =>
    have hmovable : ∀ line next, run.controlNext? = some (line, next) → shifts next.doc line = true →
        outer.length + 1 < next.doc.formatter.invocations.length := by
      intro line next hn hshifts
      rw [shiftsNext, hn, Option.any_some, hshifts, Bool.true_and, decide_eq_false_iff_not, Nat.not_le] at hs
      exact hs
    exact (ih.reads (reads_afterReading run) hr).moves (after_advance (moves_step hq hmovable)) hd

end Run

namespace Expansion
open Document

/-- A line is read with the arguments of these macros. One that is read ahead has those of the innermost macro. One that
is carried out with the lines that it goes on with has those of the innermost macro that is left when it ends. -/
def ReadsWith (macros : List Invocation) (doc : Document) (text : Text) (number : Option Nat) (rest : Input) : Prop :=
  (∀ pieces, text = sourceOf pieces → doc.nextLine.1 = some (bound macros pieces)) ∧
    ∀ converters pieces, joined text rest = sourceOf pieces →
      ∃ after : Run,
        Run.readStatement { doc := doc.pass (.line text number), converters } text =
            (Run.statementOf after.doc (sourceOf pieces), after) ∧
          after.doc.formatter.expand (sourceOf pieces) = bound (macros.drop (endsOver text rest)) pieces

theorem readsWith_invocations {doc : Document}
    (ha : ∀ invocation ∈ doc.formatter.invocations, ∀ argument ∈ invocation.arguments, Settled argument) {text : Text}
    {number : Option Nat} {rest : Input} (hi : doc.input = .line text number :: rest) :
    ReadsWith doc.formatter.invocations doc text number rest := by
  constructor
  · rintro pieces rfl
    rw [nextLine_line hi, State.expand_sourceOf ha]
  · intro converters pieces hp
    let taken : Run := { doc := doc.pass (.line text number), converters }
    have hinput : taken.doc.input = rest := pass_input hi
    rw [← hinput] at hp ⊢
    exact readStatement_bound ha hp

/-- From the invocation of a macro on, and as long as it is being expanded, what is left of its body stands before its
end with other work in front of it, and the macros of that work are nested in it. A line that is reached when that work
holds no ends of macros is read with the arguments of the invocation: each reference is replaced by the argument with
its number, or by nothing. Only where the line goes on over the end of the macro are they those of a macro around it. -/
theorem arguments_bind {start run : Run} {doc : Document} {request : Request} {body : List Text}
    (hb : doc.formatter.macros.get? request.name = some body)
    (hn : doc.formatter.invocations.length < maximalNesting)
    (hs : start.doc.place = (doc.invoke request).place)
    (ha : ∀ argument ∈ request.arguments, Settled argument)
    (ho : ∀ invocation ∈ doc.formatter.invocations, ∀ argument ∈ invocation.arguments, Settled argument)
    (h : Run.Follows (doc.formatter.invocations.length + 1) start run) {ahead : Document} (hr : Reads run.doc ahead)
    (hd : doc.formatter.invocations.length < ahead.formatter.invocations.length) :
    ∃ others left inner, left <:+ body ∧
      ahead.input = others ++ Input.pushLines (.finish doc.line :: doc.input) left ∧
      ahead.formatter.invocations =
        inner ++ { name := request.name, arguments := request.arguments, line := doc.line } ::
          doc.formatter.invocations ∧
      inner.length = others.ends.length ∧
      (others.ends = [] → ∀ text number rest, ahead.input = .line text number :: rest →
        ReadsWith ({ name := request.name, arguments := request.arguments, line := doc.line } ::
          doc.formatter.invocations) ahead text number rest) := by
  have hwithin := ((h.within ((Within.of_invoke hb hn).of_place hs)).reads hr hd)
  obtain ⟨others, left, inner, hleft, hinput, hinvocations, hlength⟩ := hwithin
  refine ⟨others, left, inner, hleft, hinput, hinvocations, hlength, ?_⟩
  intro hends text number rest hi
  have hnone : inner = [] := List.length_eq_zero_iff.mp (by rw [hlength, hends]; rfl)
  rw [hnone, List.nil_append] at hinvocations
  have hsettled : ∀ invocation ∈ ahead.formatter.invocations, ∀ argument ∈ invocation.arguments, Settled argument := by
    rw [hinvocations]
    exact List.forall_mem_cons.mpr ⟨ha, ho⟩
  have hread := readsWith_invocations hsettled hi
  rwa [hinvocations] at hread

/-- A page with a macro whose only line goes on over its end, invoked within another macro. -/
def nestedPage : Run :=
  Conversion.prepare {} {} "page.1"
    ".de In\nb \\\\$1\\\n..\n.de Out\nOnce\na \\\\$1\n.In inner\nc \\\\$1\n..\n.Out outer\nAfter.\n" ⟨.man, []⟩

/-- The page once its outer macro is invoked. -/
def outerPage : Run :=
  nestedPage.advance.advance.advance

/-- The page once the inner macro is invoked too. -/
def innerPage : Run :=
  outerPage.advance.advance.advance

/-- Where a macro is the innermost one, no ends of macros stand before what is left of its body. -/
theorem ends_of_innermost {macros inner outer : List Invocation} {own : Invocation} {others : Input}
    (hm : macros = inner ++ own :: outer) (hl : inner.length = others.ends.length)
    (hd : macros.length = outer.length + 1) : others.ends = [] := by
  rw [hm, List.length_append, List.length_cons] at hd
  exact List.length_eq_zero_iff.mp (by omega)

/-- The line of the outer macro has the argument of its invocation. That of the inner macro has the argument of the
outer one, because it goes on over its end. -/
theorem arguments_bind_nested :
    outerPage.advance.doc.nextLine.1 = some "a outer".toList ∧
      (∃ after : Run,
        Run.readStatement { doc := innerPage.doc.pass (.line "b \\$1\\" none), converters := [] } "b \\$1\\" =
            (Run.statementOf after.doc "b \\$1c \\$1", after) ∧
          after.doc.formatter.expand "b \\$1c \\$1" = "b outerc outer".toList) ∧
        output? nestedPage 20 = some ["<para>Once", "a outer", "b outerc outer", "After.</para>"] := by
  let word (c : Char) (h : c ≠ '\\') : List Piece :=
    [.char c h, .char ' ' (by decide), .argument (.digit '1' (by decide))]
  have hsettled (t : Text) (h : '\\' ∉ t) : ∀ argument ∈ [t], Settled argument :=
    List.forall_mem_singleton.mpr (settled_of_notMem h)
  refine ⟨?_, ?_, by decide +kernel⟩
  · let doc : Document := nestedPage.advance.advance.doc.pass (.line ".Out outer" (some 10))
    let request : Request := { name := "Out", arguments := ["outer"], rest := "outer", line := ".Out outer" }
    let body : List Text := ["Once", "a \\$1", ".In inner", "c \\$1"]
    obtain ⟨hbody, hmacros, hplace, hquits, hshifts, hreading, hdepth, hinput⟩ :
        doc.formatter.macros.get? request.name = some body ∧ doc.formatter.invocations = [] ∧
          outerPage.doc.place = (doc.invoke request).place ∧ outerPage.quitsNext = false ∧
          outerPage.shiftsNext (doc.formatter.invocations.length + 1) = false ∧
          doc.formatter.invocations.length + 1 ≤ outerPage.afterReading.formatter.invocations.length ∧
          outerPage.advance.doc.formatter.invocations.length = doc.formatter.invocations.length + 1 ∧
          outerPage.advance.doc.input = .line "a \\$1" none ::
            [.line ".In inner" none, .line "c \\$1" none, .finish 10, .line "After." (some 11)] := by
      decide +kernel
    have hnesting : doc.formatter.invocations.length < maximalNesting := by
      rw [hmacros]
      decide
    have houter : ∀ invocation ∈ doc.formatter.invocations, ∀ argument ∈ invocation.arguments, Settled argument := by
      rw [hmacros]
      exact List.forall_mem_nil _
    have hfollows : Run.Follows (doc.formatter.invocations.length + 1) outerPage outerPage.advance :=
      .step .refl hquits hshifts hreading hdepth.ge
    obtain ⟨others, left, inner, -, -, hnested, hlength, hread⟩ :=
      arguments_bind hbody hnesting hplace (hsettled "outer" (by decide)) houter hfollows (.refl _) hdepth.ge
    have hends := ends_of_innermost hnested hlength hdepth
    exact (hread hends _ _ _ hinput).1 (word 'a' (by decide)) rfl
  · let doc : Document := outerPage.advance.advance.doc.pass (.line ".In inner" none)
    let request : Request := { name := "In", arguments := ["inner"], rest := "inner", line := ".In inner" }
    let body : List Text := ["b \\$1\\"]
    obtain ⟨hbody, hmacros, hplace, hdepth, hinput⟩ :
        doc.formatter.macros.get? request.name = some body ∧
          doc.formatter.invocations = [{ name := "Out", arguments := ["outer"], line := 10 }] ∧
          innerPage.doc.place = (doc.invoke request).place ∧
          innerPage.doc.formatter.invocations.length = doc.formatter.invocations.length + 1 ∧
          innerPage.doc.input = .line "b \\$1\\" none ::
            [.finish 10, .line "c \\$1" none, .finish 10, .line "After." (some 11)] := by
      decide +kernel
    have hnesting : doc.formatter.invocations.length < maximalNesting := by
      rw [hmacros]
      decide
    have houter : ∀ invocation ∈ doc.formatter.invocations, ∀ argument ∈ invocation.arguments, Settled argument := by
      rw [hmacros]
      exact List.forall_mem_singleton.mpr (hsettled "outer" (by decide))
    obtain ⟨others, left, inner, -, -, hnested, hlength, hread⟩ :=
      arguments_bind hbody hnesting hplace (hsettled "inner" (by decide)) houter .refl (.refl innerPage.doc) hdepth.ge
    have hends := ends_of_innermost hnested hlength hdepth
    have hjoined := (hread hends _ _ _ hinput).2 [] (word 'b' (by decide) ++ word 'c' (by decide)) rfl
    rw [hmacros] at hjoined
    exact hjoined

end Expansion

end RoffDocBook
