import Mathlib.Data.List.Induction
import RoffDocBook.Conversion.Basic
import RoffDocBook.Package.Definition
import RoffDocBook.Bindings
import RoffDocBook.Proofs.Place.Reading

/-! What a name stands for after names have been moved. -/
namespace RoffDocBook

namespace Document
variable {α : Type} {table : Bindings α} {old new : String}

theorem moveBinding_of_none (h : table.get? old = none) (removing : Bool) :
    moveBinding table old new removing = table := by
  rw [moveBinding, h]

/-- What is moved stands under its new name, and under the old one unless that is removed. -/
theorem get?_moveBinding {value : α} (h : table.get? old = some value) (removing : Bool) (other : String) :
    (moveBinding table old new removing).get? other =
      if removing = true ∧ other = old then none else if other = new then some value else table.get? other := by
  rw [moveBinding, h]
  cases removing with
  | true => simp
  | false => simp

end Document

end RoffDocBook

/-! The table of macros that are no more than another name of a standard request. Defining a macro, adding to it and
removing it keep the table up to date. Moving a macro to another name and collecting a diversion do not: the table then
holds an entry for a name that stands for something else, or for nothing. -/
namespace RoffDocBook.Document
open Text

/-- Whether the only request that the lines of a macro make is this one. -/
def ComesDownTo (doc : Document) (body : List Text) (only : String) : Prop :=
  body.filterMap doc.significant? = [some only]

/-- What the table has for a name is so: the name is that of a macro, which comes down to the request noted for it. -/
def FreshAt (doc : Document) (name : String) : Prop :=
  ∀ only, doc.formatter.reductions.get? name = some only →
    ∃ body, doc.formatter.macros.get? name = some body ∧ doc.ComesDownTo body only

def Fresh (doc : Document) : Prop :=
  ∀ name, doc.FreshAt name

/-- What decides which request a line makes: the control characters, and the requests that are ignored. -/
def sense (doc : Document) : Char × Char × List String × List Package :=
  (doc.formatter.control, doc.formatter.noBreak, doc.settings.ignored, doc.active)

theorem significant?_congr {a b : Document} (h : b.sense = a.sense) : b.significant? = a.significant? := by
  obtain ⟨hcontrol, hnoBreak, hignored, hactive⟩ : _ ∧ _ ∧ _ ∧ _ := by simpa only [sense, Prod.mk.injEq] using h
  have hsplit : b.splitControl? = a.splitControl? := by
    funext line
    rw [splitControl?, splitControl?, hcontrol, hnoBreak]
  have hpassed : b.isIgnored = a.isIgnored := by
    funext name
    rw [isIgnored, isIgnored, listed, listed, hignored, hactive]
  funext line
  rw [significant?, significant?, hsplit, hpassed]

section
variable {a b : Document} {name : String}

theorem FreshAt.congr (h : a.FreshAt name) (hs : b.sense = a.sense)
    (hm : b.formatter.macros.get? name = a.formatter.macros.get? name)
    (hr : b.formatter.reductions.get? name = a.formatter.reductions.get? name) : b.FreshAt name := by
  intro only honly
  rw [hr] at honly
  obtain ⟨body, hbody, hcomes⟩ := h only honly
  refine ⟨body, hm.trans hbody, ?_⟩
  rwa [ComesDownTo, significant?_congr hs]

theorem freshAt_of_none (h : a.formatter.reductions.get? name = none) : a.FreshAt name := by
  intro only honly
  rw [h] at honly
  cases honly

/-- A name of a macro is right in the table if the macro comes down to what is noted, if anything is. -/
theorem freshAt_iff_of_bound {body : List Text} (h : a.formatter.macros.get? name = some body) :
    a.FreshAt name ↔ ∀ only, a.formatter.reductions.get? name = some only → a.ComesDownTo body only := by
  constructor
  · intro hf only honly
    obtain ⟨other, hother, hcomes⟩ := hf only honly
    rw [h] at hother
    rwa [Option.some.inj hother]
  · intro hc only honly
    exact ⟨body, h, hc only honly⟩

/-- Nothing is noted of a name that is not that of a macro. -/
theorem freshAt_iff_of_unbound (h : a.formatter.macros.get? name = none) :
    a.FreshAt name ↔ a.formatter.reductions.get? name = none := by
  constructor
  · intro hf
    cases hr : a.formatter.reductions.get? name with
    | none => rfl
    | some only =>
      obtain ⟨body, hbody, _⟩ := hf only hr
      rw [h] at hbody
      cases hbody
  · exact freshAt_of_none

theorem Elsewhere.sense (h : Elsewhere a b) : b.sense = a.sense := by
  obtain ⟨_, _, _, rfl⟩ := h
  rfl

theorem Elsewhere.macros (h : Elsewhere a b) : b.formatter.macros = a.formatter.macros := by
  obtain ⟨_, _, _, rfl⟩ := h
  rfl

theorem Elsewhere.reductions (h : Elsewhere a b) : b.formatter.reductions = a.formatter.reductions := by
  obtain ⟨_, _, _, rfl⟩ := h
  rfl

theorem Elsewhere.freshAt (h : Elsewhere a b) (name : String) : b.FreshAt name ↔ a.FreshAt name := by
  constructor
  · exact fun hf => hf.congr h.sense.symm (by rw [h.macros]) (by rw [h.reductions])
  · exact fun hf => hf.congr h.sense (by rw [h.macros]) (by rw [h.reductions])

end

section
variable {doc : Document} {name : String}

/-- The document with nothing noted for a name. -/
def unreduced (doc : Document) (name : String) : Document :=
  { doc with formatter := { doc.formatter with reductions := doc.formatter.reductions.remove name } }

/-- The document with a request noted for a name. -/
def reducedTo (doc : Document) (name only : String) : Document :=
  { doc with formatter := { doc.formatter with reductions := doc.formatter.reductions.put name only } }

theorem reduceWrapper_eq (doc : Document) (name : String) :
    doc.reduceWrapper name =
      match (doc.unreduced name).reduction? name with
      | some only => (doc.unreduced name).reducedTo name only
      | none => doc.unreduced name := by
  unfold reduceWrapper reducedTo
  rfl

/-- What is noted of a macro is what its lines come down to. -/
theorem comesDownTo_of_reduction? {only : String} (h : doc.reduction? name = some only) :
    ∃ body, doc.formatter.macros.get? name = some body ∧ doc.ComesDownTo body only := by
  obtain ⟨body, hbody, hfound⟩ := Option.bind_eq_some_iff.mp h
  refine ⟨body, hbody, ?_⟩
  split at hfound
  · rename_i sole hsole
    split at hfound
    · rw [← Option.some.inj hfound]
      exact hsole
    · cases hfound
  · cases hfound

/-- The note about a macro is made anew. -/
theorem fresh_reduceWrapper (h : ∀ other, other ≠ name → doc.FreshAt other) : (doc.reduceWrapper name).Fresh := by
  have hcleared (other : String) : (doc.unreduced name).FreshAt other := by
    by_cases ho : other = name
    · exact freshAt_of_none ((Bindings.get?_remove ..).trans (if_pos ho))
    · exact (h other ho).congr rfl rfl ((Bindings.get?_remove ..).trans (if_neg ho))
  rw [reduceWrapper_eq]
  cases honly : (doc.unreduced name).reduction? name with
  | none => exact hcleared
  | some only =>
    intro other
    have hnoted := Bindings.get?_put (doc.unreduced name).formatter.reductions name other only
    by_cases ho : other = name
    · obtain ⟨body, hbody, hcomes⟩ := comesDownTo_of_reduction? honly
      rw [← ho] at hbody
      refine (freshAt_iff_of_bound (a := (doc.unreduced name).reducedTo name only) hbody).mpr fun noted hn => ?_
      rw [← Option.some.inj ((hnoted.trans (if_pos ho)).symm.trans hn)]
      exact hcomes
    · exact (hcleared other).congr rfl rfl (hnoted.trans (if_neg ho))

/-- A definition is refused, or the macro is bound to its new body and noted anew. -/
theorem fresh_defineMacro (h : doc.Fresh) (request : Request) (adding : Bool) :
    (doc.defineMacro request adding).Fresh := by
  unfold defineMacro
  extract_lets name terminator
  have hread := elsewhere_readUntil doc (isTerminator doc.formatter.control terminator)
  generalize doc.readUntil _ = found at hread
  obtain ⟨lines, closed, next⟩ := found
  dsimp only at hread ⊢
  have hnext : next.Fresh := fun other => (hread.freshAt other).mpr (h other)
  have hclosed : (if closed then next else next.warn (.unterminatedMacro name)).Fresh := by
    split
    · exact hnext
    · exact hnext
  generalize (if closed then next else next.warn (.unterminatedMacro name)) = start at hclosed
  split
  · exact hclosed
  · split
    · exact hclosed
    · refine fresh_reduceWrapper fun other ho => (hclosed other).congr rfl ?_ rfl
      rw [Bindings.get?_put, if_neg ho]

theorem fresh_removeNames (h : doc.Fresh) (names : List Text) : (doc.removeNames names).Fresh := by
  unfold removeNames
  induction names generalizing doc with
  | nil => exact h
  | cons removed names ih =>
    refine ih fun other => ?_
    by_cases ho : other = String.ofList removed
    · refine freshAt_of_none ?_
      rw [Bindings.get?_remove, if_pos ho]
    · refine (h other).congr rfl ?_ ?_
      · rw [Bindings.get?_remove, if_neg ho]
      · rw [Bindings.get?_remove, if_neg ho]

/-- Giving a macro another name leaves a wrong entry behind where the old name had one and is removed, and where the new
name had one, the old one had none, and the macro does not happen to come down to what is noted for the new name. -/
def Misnames (doc : Document) (old new : String) (removing : Bool) : Prop :=
  (removing = true ∧ doc.formatter.reductions.contains old = true) ∨
    ∃ body only, doc.formatter.macros.get? old = some body ∧ doc.formatter.reductions.get? old = none ∧
      doc.formatter.reductions.get? new = some only ∧ ¬ doc.ComesDownTo body only

/-- What giving another name makes of the two tables. -/
def renamed (doc : Document) (old new : String) (removing : Bool) : Document :=
  { doc with
    formatter :=
      { doc.formatter with
        macros := moveBinding doc.formatter.macros old new removing
        strings := moveBinding doc.formatter.strings old new removing
        reductions := moveBinding doc.formatter.reductions old new false } }

theorem fresh_renamed_iff (h : doc.Fresh) (old new : String) (removing : Bool) :
    (doc.renamed old new removing).Fresh ↔ ¬ doc.Misnames old new removing := by
  cases hm : doc.formatter.macros.get? old with
  | none =>
    have hr : doc.formatter.reductions.get? old = none := (freshAt_iff_of_unbound hm).mp (h old)
    have hsame : (doc.renamed old new removing).Fresh := by
      intro other
      refine (h other).congr rfl ?_ ?_
      · exact congrArg (Bindings.get? · other) (moveBinding_of_none hm removing)
      · exact congrArg (Bindings.get? · other) (moveBinding_of_none hr false)
    refine iff_of_true hsame ?_
    rintro (⟨-, hc⟩ | ⟨body, _, hbody, -⟩)
    · rw [Bindings.contains, hr] at hc
      cases hc
    · rw [hm] at hbody
      cases hbody
  | some body =>
    have hmacros (other : String) : (doc.renamed old new removing).formatter.macros.get? other = _ :=
      get?_moveBinding hm removing other
    cases hr : doc.formatter.reductions.get? old with
    | some only =>
      have hreductions (other : String) : (doc.renamed old new removing).formatter.reductions.get? other = _ :=
        get?_moveBinding hr false other
      have hcomes : doc.ComesDownTo body only := (freshAt_iff_of_bound hm).mp (h old) only hr
      cases removing with
      | true =>
        -- The old name keeps its entry and loses its macro.
        refine iff_of_false ?_ ?_
        · intro hf
          have hgone := (freshAt_iff_of_unbound ((hmacros old).trans (if_pos ⟨rfl, rfl⟩))).mp (hf old)
          rw [hreductions old, if_neg (by simp)] at hgone
          split at hgone
          · cases hgone
          · rw [hr] at hgone
            cases hgone
        · refine not_not_intro (.inl ⟨rfl, ?_⟩)
          rw [Bindings.contains, hr]
          rfl
      | false =>
        refine iff_of_true ?_ ?_
        · intro other
          by_cases ho : other = new
          · have hnew := (hmacros other).trans ((if_neg (by simp)).trans (if_pos ho))
            refine (freshAt_iff_of_bound hnew).mpr fun noted hnoted => ?_
            rw [hreductions other, if_neg (by simp), if_pos ho] at hnoted
            rw [← Option.some.inj hnoted]
            exact hcomes
          · refine (h other).congr rfl ?_ ?_
            · rw [hmacros other, if_neg (by simp), if_neg ho]
            · rw [hreductions other, if_neg (by simp), if_neg ho]
        · rintro (⟨hn, -⟩ | ⟨_, _, -, hn, -⟩)
          · cases hn
          · rw [hr] at hn
            cases hn
    | none =>
      have hreductions (other : String) :
          (doc.renamed old new removing).formatter.reductions.get? other = doc.formatter.reductions.get? other :=
        congrArg (Bindings.get? · other) (moveBinding_of_none hr false)
      have hothers (other : String) (ho : other ≠ new) : (doc.renamed old new removing).FreshAt other := by
        by_cases hold : other = old
        · refine freshAt_of_none ?_
          rw [hreductions, hold, hr]
        · refine (h other).congr rfl ?_ (hreductions other)
          rw [hmacros other, if_neg (fun hn => hold hn.2), if_neg ho]
      by_cases hnew : new = old
      · refine iff_of_true ?_ ?_
        · intro other
          by_cases ho : other = new
          · refine freshAt_of_none ?_
            rw [hreductions, ho, hnew, hr]
          · exact hothers other ho
        · rintro (⟨-, hc⟩ | ⟨_, _, -, -, hn, -⟩)
          · rw [Bindings.contains, hr] at hc
            cases hc
          · rw [hnew, hr] at hn
            cases hn
      · have hbody : (doc.renamed old new removing).formatter.macros.get? new = some body := by
          rw [hmacros new, if_neg (fun hn => hnew hn.2), if_pos rfl]
        have hnewIff := freshAt_iff_of_bound hbody
        rw [hreductions new] at hnewIff
        constructor
        · rintro hf (⟨-, hc⟩ | ⟨moved, only, hmoved, -, hn, hcomes⟩)
          · rw [Bindings.contains, hr] at hc
            cases hc
          · rw [hm] at hmoved
            rw [← Option.some.inj hmoved] at hcomes
            exact hcomes (hnewIff.mp (hf new) only hn)
        · intro hn other
          by_cases ho : other = new
          · rw [ho]
            refine hnewIff.mpr fun only honly => ?_
            refine Classical.byContradiction fun hcomes => ?_
            exact hn (.inr ⟨body, only, hm, hr, honly, hcomes⟩)
          · exact hothers other ho

theorem fresh_rename_iff (h : doc.Fresh) (old new : Text) (removing : Bool) :
    (doc.rename old new removing).Fresh ↔
      ¬ (old ≠ [] ∧ new ≠ [] ∧ doc.Misnames (String.ofList old) (String.ofList new) removing) := by
  unfold rename
  cases old with
  | nil => exact iff_of_true h fun hm => hm.1 rfl
  | cons o old =>
    cases new with
    | nil => exact iff_of_true h fun hm => hm.2.1 rfl
    | cons n new =>
      refine (fresh_renamed_iff h _ _ removing).trans (not_congr ?_)
      exact ⟨fun hm => ⟨List.cons_ne_nil _ _, List.cons_ne_nil _ _, hm⟩, fun hm => hm.2.2⟩

/-- What the name of a diversion stands for after it. -/
def diverted (doc : Document) (request : Request) : List Text :=
  let closes (line : Text) : Bool :=
    (doc.splitControl? line).any fun found => (found.1 == "di" || found.1 == "da") && isAllBlank found.2
  let before :=
    if request.name == "di" then [] else (doc.formatter.macros.get? (String.ofList (request.argument 0))).getD []
  before ++ (doc.readUntil closes).1

/-- A diversion leaves a wrong entry behind where a request is noted for its name and what it collects does not happen to
come down to that request. -/
def Misdiverts (doc : Document) (request : Request) : Prop :=
  String.ofList (request.argument 0) ≠ "" ∧
    ∃ only, doc.formatter.reductions.get? (String.ofList (request.argument 0)) = some only ∧
      ¬ doc.ComesDownTo (doc.diverted request) only

/-- The document with a macro bound, and nothing noted of it. -/
def rebound (doc : Document) (name : String) (body : List Text) : Document :=
  { doc with formatter := { doc.formatter with macros := doc.formatter.macros.put name body } }

theorem fresh_rebound_iff (h : doc.Fresh) (name : String) (body : List Text) :
    (doc.rebound name body).Fresh ↔
      ∀ only, doc.formatter.reductions.get? name = some only → doc.ComesDownTo body only := by
  have hmacros (other : String) : (doc.rebound name body).formatter.macros.get? other = _ := Bindings.get?_put ..
  have hname := freshAt_iff_of_bound ((hmacros name).trans (if_pos rfl))
  constructor
  · exact fun hf => hname.mp (hf name)
  · intro hcomes other
    by_cases ho : other = name
    · rw [ho]
      exact hname.mpr hcomes
    · exact (h other).congr rfl ((hmacros other).trans (if_neg ho)) rfl

theorem Elsewhere.comesDownTo {next : Document} (h : Elsewhere doc next) (body : List Text) (only : String) :
    next.ComesDownTo body only ↔ doc.ComesDownTo body only := by
  rw [ComesDownTo, ComesDownTo, significant?_congr h.sense]

theorem fresh_divert_iff (h : doc.Fresh) (request : Request) :
    (doc.divert request).Fresh ↔ ¬ doc.Misdiverts request := by
  unfold divert Misdiverts diverted
  extract_lets name closes before
  have hread := elsewhere_readUntil doc closes
  generalize doc.readUntil closes = found at hread
  obtain ⟨lines, closed, next⟩ := found
  dsimp only at hread ⊢
  by_cases hname : name = ""
  · rw [if_pos (beq_iff_eq.mpr hname)]
    exact iff_of_true h fun hm => hm.1 hname
  · rw [if_neg (mt beq_iff_eq.mp hname), hread.macros]
    have hnext : next.Fresh := fun other => (hread.freshAt other).mpr (h other)
    have hbound := fresh_rebound_iff hnext name (before ++ lines)
    rw [rebound, hread.macros, hread.reductions] at hbound
    refine hbound.trans ?_
    constructor
    · rintro hcomes ⟨-, only, honly, hn⟩
      exact hn ((hread.comesDownTo _ only).mp (hcomes only honly))
    · intro hn only honly
      refine Classical.byContradiction fun hcomes => hn ⟨hname, only, honly, ?_⟩
      exact fun hc => hcomes ((hread.comesDownTo _ only).mpr hc)

end

/-! The requests that bind and remove the names of macros, one after the other. -/

def definers : List String :=
  ["de", "de1", "am", "am1", "rm", "rn", "als", "di", "da"]

/-- The requests that leave a wrong entry behind in the table where it was right. -/
def Strands (doc : Document) (request : Request) : Prop :=
  match request.name with
  | "rn" =>
    request.argument 0 ≠ [] ∧ request.argument 1 ≠ [] ∧
      doc.Misnames (String.ofList (request.argument 0)) (String.ofList (request.argument 1)) true
  | "als" =>
    request.argument 1 ≠ [] ∧ request.argument 0 ≠ [] ∧
      doc.Misnames (String.ofList (request.argument 1)) (String.ofList (request.argument 0)) false
  | "di" | "da" => doc.Misdiverts request
  | _ => False

/-- Each of these requests is carried out, and keeps a table that is right so unless it strands an entry. -/
theorem fresh_formatterRequest_iff {doc : Document} (h : doc.Fresh) {request : Request}
    (hname : request.name ∈ definers) :
    ∃ next, doc.formatterRequest request = .done next ∧ (next.Fresh ↔ ¬ doc.Strands request) := by
  unfold formatterRequest Strands
  simp only [definers, List.mem_cons, List.not_mem_nil, or_false] at hname
  rcases hname with hn | hn | hn | hn | hn | hn | hn | hn | hn <;> rw [hn]
  · exact ⟨_, rfl, iff_of_true (fresh_defineMacro h request false) not_false⟩
  · exact ⟨_, rfl, iff_of_true (fresh_defineMacro h request false) not_false⟩
  · exact ⟨_, rfl, iff_of_true (fresh_defineMacro h request true) not_false⟩
  · exact ⟨_, rfl, iff_of_true (fresh_defineMacro h request true) not_false⟩
  · exact ⟨_, rfl, iff_of_true (fresh_removeNames h request.arguments) not_false⟩
  · exact ⟨_, rfl, fresh_rename_iff h _ _ true⟩
  · exact ⟨_, rfl, fresh_rename_iff h _ _ false⟩
  · exact ⟨_, rfl, fresh_divert_iff h request⟩
  · exact ⟨_, rfl, fresh_divert_iff h request⟩

/-- One of these requests, with the input that it finds. -/
structure Definition where
  request : Request
  following : Input
  known : request.name ∈ definers

/-- The document as a definition finds it. -/
def before (doc : Document) (definition : Definition) : Document :=
  { doc with input := definition.following }

def define (doc : Document) (definition : Definition) : Document :=
  match (doc.before definition).formatterRequest definition.request with
  | .done next => next
  | _ => doc

theorem fresh_before_iff (doc : Document) (definition : Definition) :
    (doc.before definition).Fresh ↔ doc.Fresh :=
  Iff.rfl

theorem fresh_define_iff {doc : Document} (h : doc.Fresh) (definition : Definition) :
    (doc.define definition).Fresh ↔ ¬ (doc.before definition).Strands definition.request := by
  obtain ⟨next, hdone, hiff⟩ :=
    fresh_formatterRequest_iff ((fresh_before_iff doc definition).mpr h) definition.known
  rw [define, hdone]
  exact hiff

/-- From a document that notes nothing of any macro, the table is right after every definition exactly if none of them
gives away a name that a request is noted for, or binds such a name by another request than those that define macros to
something that does not come down to that request. -/
theorem fresh_defines_iff {doc : Document} (h : doc.formatter.reductions = []) (definitions : List Definition) :
    (∀ made, made <+: definitions → (made.foldl define doc).Fresh) ↔
      ∀ made definition, made ++ [definition] <+: definitions →
        ¬ ((made.foldl define doc).before definition).Strands definition.request := by
  constructor
  · intro hf made definition hp
    refine (fresh_define_iff (hf made ?_) definition).mp ?_
    · exact (List.prefix_append made [definition]).trans hp
    · have := hf _ hp
      rwa [List.foldl_append] at this
  · intro hn made
    induction made using List.reverseRecOn with
    | nil =>
      intro _ name
      refine freshAt_of_none ?_
      rw [List.foldl_nil, h]
      rfl
    | append_singleton made definition ih =>
      intro hp
      rw [List.foldl_append]
      exact (fresh_define_iff (ih ((List.prefix_append made [definition]).trans hp)) definition).mpr
        (hn made definition hp)

/-- A macro for subsections, which then gets another name: the table keeps what it noted for the old one. -/
theorem fresh_defines_iff_renamed :
    ∃ (doc : Document) (definitions : List Definition), doc.formatter.reductions = [] ∧
      definitions.map (·.request.line) = [".de Hd".toList, ".rn Hd Ti".toList] ∧
      ¬ ∀ made, made <+: definitions → (made.foldl define doc).Fresh := by
  let doc := (Conversion.prepare {} {} "page.1" [] ⟨.man, []⟩).doc
  let defining : Definition :=
    ⟨⟨"de", ["Hd".toList], "Hd".toList, ".de Hd".toList⟩, Input.ofText ".SS \\\\$1\n..\n".toList, by decide⟩
  let moving : Definition := ⟨⟨"rn", ["Hd".toList, "Ti".toList], "Hd Ti".toList, ".rn Hd Ti".toList⟩, [], by decide⟩
  have hempty : doc.formatter.reductions = [] := by decide +kernel
  have hstrands : (([defining].foldl define doc).before moving).Strands moving.request := by
    refine ⟨by decide, by decide, .inl ⟨rfl, ?_⟩⟩
    decide +kernel
  refine ⟨doc, [defining, moving], hempty, rfl, fun hf => ?_⟩
  exact (fresh_defines_iff hempty _).mp hf [defining] moving (List.prefix_refl _) hstrands

end RoffDocBook.Document
