import RoffDocBook.Proofs.Document.Rendering
import RoffDocBook.Proofs.Document.Sections
import RoffDocBook.Proofs.Document.Terms

/-! Whatever calls build a document, in whatever order, its output is properly nested. -/
namespace RoffDocBook.Document
open Text Markup

/-- The ways of writing text, lists, displays and sections to a document. -/
inductive Call where
  | textLine (text : Text)
  | closeParagraph
  | beginListWith (opener : String) (kind : ListKind) (attributes : Text)
  | beginItem (term : Option Text)
  | addTerm
  | closeItem
  | endList
  | endListBy (opener : String)
  | breakLists (request : String)
  | endAllLists
  | beginDisplay (kind : DisplayKind) (opener : String)
  | endDisplay
  | pushSection (depth : Nat) (title : Text)
  | pushSynopsis (title : Text)
  | popSections (depth : Nat)
  | endSections
  deriving DecidableEq, Repr

def perform (doc : Document) : Call → Document
  | .textLine text => doc.textLine text
  | .closeParagraph => doc.closeParagraph
  | .beginListWith opener kind attributes => doc.beginListWith opener kind attributes
  | .beginItem term => doc.beginItem term
  | .addTerm => doc.addTerm.2
  | .closeItem => doc.closeItem
  | .endList => doc.endList
  | .endListBy opener => (doc.endListBy opener).2
  | .breakLists request => doc.breakLists request
  | .endAllLists => doc.endAllLists
  | .beginDisplay kind opener => doc.beginDisplay kind opener
  | .endDisplay => doc.endDisplay.2
  | .pushSection depth title => doc.pushSection depth title
  | .pushSynopsis title => doc.pushSynopsis title
  | .popSections depth => doc.popSections depth
  | .endSections => doc.endSections

def performAll (doc : Document) (calls : List Call) : Document :=
  calls.foldl perform doc

/-- What a call may be given: text without escapes, terms and titles without tags, and attributes that a blank sets
apart from the name before them. No list is opened inside a display. -/
def Admits (doc : Document) : Call → Prop
  | .textLine text => '\\' ∉ text ∧ Tagless text
  | .beginListWith _ _ attributes =>
    doc.inDisplay = false ∧ (attributes = [] ∨ attributes.head? = some ' ') ∧ Tagless attributes
  | .beginItem term => ∀ t ∈ term, Tagless t
  | .pushSection _ title => Tagless title
  | .pushSynopsis title => Tagless title
  | _ => True

instance (doc : Document) (call : Call) : Decidable (doc.Admits call) :=
  match call with
  | .textLine _ => inferInstanceAs (Decidable (_ ∧ _))
  | .beginListWith _ _ _ => inferInstanceAs (Decidable (_ ∧ _ ∧ _))
  | .beginItem none => isTrue nofun
  | .beginItem (some t) => decidable_of_iff (Tagless t) ⟨fun h _ ht => Option.some.inj ht ▸ h, fun h => h t rfl⟩
  | .pushSection _ t => inferInstanceAs (Decidable (Tagless t))
  | .pushSynopsis t => inferInstanceAs (Decidable (Tagless t))
  | .closeParagraph | .addTerm | .closeItem | .endList | .endListBy _ | .breakLists _ | .endAllLists
  | .beginDisplay _ _ | .endDisplay | .popSections _ | .endSections => isTrue trivial

/-- Every call is admitted by the document that the calls before it have built. -/
def AdmitsAll (doc : Document) : List Call → Prop
  | [] => True
  | call :: calls => doc.Admits call ∧ (doc.perform call).AdmitsAll calls

instance decidableAdmitsAll (doc : Document) : (calls : List Call) → Decidable (doc.AdmitsAll calls)
  | [] => isTrue trivial
  | call :: calls =>
    have := decidableAdmitsAll (doc.perform call) calls
    inferInstanceAs (Decidable (doc.Admits call ∧ (doc.perform call).AdmitsAll calls))

theorem balanced_perform {doc : Document} (h : Balanced doc) {call : Call} (ha : doc.Admits call) :
    Balanced (doc.perform call) := by
  cases call with
  | textLine text => exact balanced_textLine h ha.1 ha.2
  | closeParagraph => exact balanced_closeParagraph h
  | beginListWith opener kind attributes =>
    obtain ⟨hd, hattributes, ht⟩ := ha
    refine balanced_beginListWith h (h.joinNext_of_inDisplay hd) opener kind ?_ ht
    rcases hattributes with rfl | hblank
    · exact Or.inl rfl
    · exact Or.inr ⟨attributes.tail, (List.cons_head?_tail hblank).symm⟩
  | beginItem term => exact balanced_beginItem h term ha
  | addTerm => exact balanced_addTerm h
  | closeItem => exact (settled_closeItem h).toBalanced
  | endList => exact balanced_endList h
  | endListBy opener => exact balanced_endListBy h opener
  | breakLists request => exact balanced_endLists h _
  | endAllLists => exact balanced_endLists h _
  | beginDisplay kind opener => exact balanced_beginDisplay h kind opener
  | endDisplay => exact balanced_endDisplay h
  | pushSection depth title => exact balanced_pushSection h depth ha
  | pushSynopsis title => exact balanced_pushSynopsis h ha
  | popSections depth => exact balanced_popSections h depth
  | endSections => exact balanced_popSections h 0

theorem balanced_performAll {doc : Document} (h : Balanced doc) {calls : List Call} (ha : doc.AdmitsAll calls) :
    Balanced (doc.performAll calls) := by
  induction calls generalizing doc with
  | nil => exact h
  | cons call calls ih => exact ih (balanced_perform h ha.1) ha.2

/-- The lines of a document that was built by calls, from the first one on, are properly nested when it is finished. -/
theorem finish_performAll_nested (name : String) (settings : Settings) (hints : Hints) (active : List Package)
    {calls : List Call} (ha : AdmitsAll { start name settings hints with active } calls) :
    Nested (unlines (performAll { start name settings hints with active } calls).finish.1) :=
  (balanced_performAll (balanced_start name settings hints active) ha).nested_finish

/-- A page with a list of terms, of which an entry has two, and with a display and an empty section in it. -/
theorem finish_page_nested :
    let page : Document := { start "t.1" {} {} with active := [.man] }
    let calls : List Call := [.pushSection 1 "OPTIONS", .beginListWith "TP" .terms " spacing='compact'",
      .beginItem none, .textLine "-v", .addTerm, .textLine "-w", .textLine "text", .beginDisplay .literal "EX",
      .textLine "code", .endDisplay, .beginItem (some "-q"), .pushSection 2 "Notes", .pushSection 1 "FILES"]
    page.AdmitsAll calls ∧ Nested (unlines (page.performAll calls).finish.1) := by
  intro page calls
  have ha : page.AdmitsAll calls := by decide
  exact ⟨ha, finish_performAll_nested "t.1" {} {} [.man] ha⟩

end RoffDocBook.Document
