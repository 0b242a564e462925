import RoffDocBook.Proofs.Identifier.Sections

/-! The identifiers in the whole text of a document, with its declarations and its front matter. -/
namespace RoffDocBook
open Text Markup

theorem Text.mem_replaceFrom {old new : Text} {skip : Nat} {t : Text} {c : Char}
    (h : c ∈ replaceFrom old new skip t) : c ∈ t ∨ c ∈ new := by
  induction t generalizing skip with
  | nil => cases skip <;> cases h
  | cons d t ih =>
    cases skip with
    | succ skip => exact (ih h).imp_left (List.mem_cons_of_mem d)
    | zero =>
      rw [replaceFrom] at h
      split at h
      · rcases List.mem_append.mp h with h | h
        · exact Or.inr h
        · exact (ih h).imp_left (List.mem_cons_of_mem d)
      · rcases List.mem_cons.mp h with rfl | h
        · exact Or.inl List.mem_cons_self
        · exact (ih h).imp_left (List.mem_cons_of_mem d)

namespace Document

/-- A document that has read nothing but its title. -/
def titled (name : String) (settings : Settings) (hints : Hints) (active : List Package) (title : Option Text) :
    Document :=
  { start name settings hints with active, front := { title } }

section
variable {name : String} {settings : Settings} {hints : Hints} {active : List Package} {title : Option Text}

theorem topElement_cases (doc : Document) : doc.topElement = "refentry" ∨ doc.topElement = "article" := by
  unfold topElement major?
  cases hfind : doc.active.find? Package.exclusive with
  | none => exact Or.inr rfl
  | some package =>
    have hexclusive := List.find?_some hfind
    cases package <;> first | exact Or.inl rfl | exact Or.inr rfl | exact absurd hexclusive (by decide)

theorem titled_declarations : (titled name settings hints active title).declarations = [] := by
  unfold declarations
  split <;> rfl

/-- The document type declaration is no tag. -/
theorem identifiers_documentType (rest : Text) :
    identifiers ((titled name settings hints active title).documentType ++ rest) = identifiers rest := by
  unfold documentType
  rw [titled_declarations]
  cases hf : (titled name settings hints active title).isFifth with
  | true => rfl
  | false =>
    rcases (titled name settings hints active title).topElement_cases with he | he
    · rw [he]
      exact identifiers_declaration (Or.inr rfl) (by decide) rest
    · rw [he]
      exact identifiers_declaration (Or.inr rfl) (by decide) rest

theorem gives_pageInformation (hn : '<' ∉ name.toList) (ht : ∀ t ∈ title, Gives t []) :
    Gives (titled name settings hints active title).pageInformation [] := by
  have htitle : Gives (titled name settings hints active title).titleOrName [] := by
    cases title with
    | none => exact gives_text hn
    | some t => exact ht t rfl
  have hshape : (titled name settings hints active title).pageInformation =
      "<refmeta>\n<refentrytitle>" ++ (titled name settings hints active title).titleOrName ++
        "</refentrytitle>\n</refmeta>\n" := by
    unfold pageInformation
    simp [titled, optionalElement]
  rw [hshape]
  exact ((show Gives "<refmeta>\n<refentrytitle>" [] by decide).append htitle).append
    (show Gives "</refentrytitle>\n</refmeta>\n" [] by decide)

theorem gives_articleInformation (ht : ∀ t ∈ title, Gives t []) :
    Gives (titled name settings hints active title).articleInformation [] := by
  cases title with
  | none => exact gives_text (by simp [articleInformation, titled])
  | some t =>
    have around {before after : Text} (hb : Gives before []) (ha : Gives after []) : Gives (before ++ t ++ after) [] :=
      (hb.append (ht t rfl)).append ha
    cases hf : (titled name settings hints active (some t)).isFifth with
    | true =>
      have hshape : (titled name settings hints active (some t)).articleInformation =
          "<info>\n<title>" ++ t ++ "</title>\n</info>\n" := by
        unfold articleInformation
        rw [hf]
        simp [titled, optionalElement, Tag.startOf, Tag.endOf]
      rw [hshape]
      exact around (by decide) (by decide)
    | false =>
      have hshape : (titled name settings hints active (some t)).articleInformation =
          "<articleinfo>\n<title>" ++ t ++ "</title>\n</articleinfo>\n" := by
        unfold articleInformation
        rw [hf]
        simp [titled, optionalElement, Tag.startOf, Tag.endOf]
      rw [hshape]
      exact around (by decide) (by decide)

/-- The start tag of the whole document. -/
def startTag (doc : Document) : Text :=
  let id := Slug.ofTitle doc.titleOrName
  if doc.isFifth then
    "<" ++ doc.topElement ++ " xmlns='http://docbook.org/ns/docbook' xmlns:xlink='http://www.w3.org/1999/xlink' " ++
      "xmlns:xi='http://www.w3.org/2001/XInclude' version='5.0' xml:id='" ++ id ++ "'>\n"
  else "<" ++ doc.topElement ++ " id='" ++ id ++ "'>\n"

/-- The attributes before the identifier in the fifth edition. -/
def fifthAttributes : Text :=
  "xmlns='http://docbook.org/ns/docbook' xmlns:xlink='http://www.w3.org/1999/xlink' " ++
    "xmlns:xi='http://www.w3.org/2001/XInclude' version='5.0' xml:id='"

set_option maxRecDepth 2000 in
theorem tagless_fifthAttributes : '<' ∉ fifthAttributes ∧ '>' ∉ fifthAttributes := by
  decide

set_option maxRecDepth 2000 in
theorem identifierIn?_fifthAttributes (t : Text) :
    identifierIn? (' ' :: fifthAttributes ++ t) = some (t.takeWhile (· != '\'')) := by
  rfl

theorem gives_startTag (doc : Document) : Gives doc.startTag [Slug.ofTitle doc.titleOrName] := by
  have hname : IsTagName doc.topElement := by
    rcases doc.topElement_cases with he | he <;> rw [he] <;> decide
  have hid : ∀ c ∈ Slug.ofTitle doc.titleOrName, Slug.Allowed c := fun c hc => Slug.allowed_of_mem_ofTitle hc
  unfold startTag
  generalize Slug.ofTitle doc.titleOrName = id at *
  dsimp only
  split
  · have hline := (gives_start hname tagless_fifthAttributes identifierIn?_fifthAttributes hid).before
      (show Gives "\n" [] by decide)
    have hattributes : (" xmlns='http://docbook.org/ns/docbook' xmlns:xlink='http://www.w3.org/1999/xlink' " ++
        "xmlns:xi='http://www.w3.org/2001/XInclude' version='5.0' xml:id='" : Text) = ' ' :: fifthAttributes := rfl
    have hclose : ("'>\n" : Text) = "'>".toList ++ "\n".toList := rfl
    rw [List.append_assoc ("<".toList ++ doc.topElement.toList), hattributes, hclose, ← List.append_assoc]
    exact hline
  · have hstart := gives_start hname (show '<' ∉ "id='".toList ∧ '>' ∉ "id='".toList by decide) identifierIn?_id hid
    have hline := hstart.before (show Gives "\n" [] by decide)
    simpa using hline

variable (name settings hints active title) in
theorem origin_eq : ∃ t, '<' ∉ name.toList → '<' ∉ t ∧
    (titled name settings hints active title).origin = '<' :: '!' :: t := by
  refine ⟨"-- Converted by rofflift ".toList ++ programVersion ++ " from ".toList ++
    replace name.toList "--" "- -" ++ ": ".toList ++ " -->\n".toList, fun hn => ⟨?_, ?_⟩⟩
  · have hname : '<' ∉ replace name.toList "--" "- -" := by
      intro hm
      rcases mem_replaceFrom hm with hm | hm
      · exact hn hm
      · exact absurd hm (by decide)
    simp only [List.mem_append, not_or]
    exact ⟨⟨⟨⟨⟨by decide, by decide⟩, by decide⟩, hname⟩, by decide⟩, by decide⟩
  · have hfired : (titled name settings hints active title).firedNames = [] := by
      have hnone : Package.all.filter (titled name settings hints active title).fired.contains = [] := rfl
      rw [firedNames, hnone, List.map_nil, List.mergeSort_nil]
    have hempty : (", ".intercalate []).toList = [] := by decide
    unfold origin
    rw [hfired, hempty, List.append_nil]
    rfl

/-- The whole text has the identifier of the document before those of its body. -/
theorem identifiers_assemble (hn : '<' ∉ name.toList) (ht : ∀ t ∈ title, Gives t []) {text : Text} {ids : List Text}
    (h : Gives text ids) :
    identifiers ((titled name settings hints active title).assemble text) =
      Slug.ofTitle (title.getD name.toList) :: ids := by
  let doc := titled name settings hints active title
  let information := if doc.isManualPage then doc.pageInformation else doc.articleInformation
  let content := if doc.isFifth then fifthForm text else text
  let after : Text := (if text.isEmpty then [] else ['\n']) ++ ("</" ++ doc.topElement ++ ">\n")
  have hshape : doc.assemble text = "<?xml version=\"1.0\" encoding=\"UTF-8\"?>\n" ++ (doc.documentType ++
      (doc.startTag ++ (information ++ (content ++ (after ++ doc.origin))))) := by
    unfold assemble startTag
    simp only [List.append_assoc, information, content, after]
    rfl
  have hinformation : Gives information [] := by
    unfold information
    split
    · exact gives_pageInformation hn ht
    · exact gives_articleInformation ht
  have hcontent : Gives content ids := by
    unfold content
    split
    · exact h.fifthForm
    · exact h
  have hafter : Gives after [] := by
    have hgap : Gives (if text.isEmpty then [] else ['\n']) [] := by
      split <;> decide
    have hend : Gives ("</" ++ doc.topElement ++ ">\n") [] := by
      rcases doc.topElement_cases with he | he <;> rw [he] <;> decide
    exact hgap.append hend
  obtain ⟨comment, hcomment⟩ := origin_eq name settings hints active title
  obtain ⟨hless, horigin⟩ := hcomment hn
  have horiginIds : identifiers doc.origin = [] := by
    have hnone := identifiers_declaration (Or.inr rfl) hless []
    rw [List.append_nil] at hnone
    rw [show doc.origin = '<' :: '!' :: comment from horigin, hnone]
    rfl
  have hprolog : ∀ rest, identifiers ("<?xml version=\"1.0\" encoding=\"UTF-8\"?>\n" ++ rest) = identifiers rest :=
    identifiers_declaration (Or.inl rfl) (t := "xml version=\"1.0\" encoding=\"UTF-8\"?>\n") (by decide)
  have hstart := gives_startTag doc
  rw [hshape, hprolog, identifiers_documentType, identifiers_append hstart.tagged,
    identifiers_append hinformation.tagged, identifiers_append hcontent.tagged, identifiers_append hafter.tagged,
    hstart.ids, hinformation.ids, hcontent.ids, hafter.ids, horiginIds, List.append_nil, List.append_nil]
  cases title <;> rfl

end

/-- The identifiers in the text of a document of sections are that of the document and those given out for the titles,
in order. They are distinct exactly where no title has the name of the document, and no numbered repeat of a title is
the name of another one. -/
theorem identifiers_sections (name : String) (settings : Settings) (hints : Hints) (active : List Package)
    (title : Option Text) {parts : List SectionText} (hn : '<' ∉ name.toList) (ht : ∀ t ∈ title, Gives t [])
    (hp : ∀ part ∈ parts, part.Plain) (hf : AllFilled parts) :
    let finished := ((titled name settings hints active title).writeSections parts).finish
    let ids := identifiers (finished.2.assemble (unlines finished.1))
    let first := Slug.ofTitle (title.getD name.toList)
    let titles := parts.map fun part => stripTags part.title
    ids = first :: IdRegistry.makeAll [] titles ∧
      (ids.Nodup ↔ ¬Slug.Collides first (titles.map Slug.ofTitle)) := by
  intro finished ids first titles
  have hstart : Sectioned (titled name settings hints active title) [] :=
    { gives := ⟨trivial, rfl⟩, blocks := rfl, trap := rfl, joins := rfl, fill := rfl, fonts := rfl, substitutes := rfl
      suspended := rfl, sections := fun _ hm => by cases hm }
  obtain ⟨registry, hwritten, hproceeds, hawaits⟩ := hstart.writeSections hp hf fun _ hm => by cases hm
  obtain ⟨hgives, registry', hfinish⟩ := hwritten.finish hawaits
  have hsame : finished.2.assemble (unlines finished.1) =
      (titled name settings hints active title).assemble (unlines finished.1) := by
    obtain ⟨_, _, _, _, _, _, _, _, hrewrites⟩ := hproceeds
    obtain ⟨_, _, _, _, _, _, _, _, hfinished⟩ := hfinish
    rw [show finished.2 = _ from hfinished, hrewrites]
    rfl
  have hids : ids = first :: IdRegistry.makeAll [] titles := by
    rw [show ids = identifiers (finished.2.assemble (unlines finished.1)) from rfl, hsame]
    exact identifiers_assemble hn ht hgives
  exact ⟨hids, by rw [hids]; exact IdRegistry.nodup_makeAll_iff first titles⟩

/-- A page with two sections of one title, of which the first one holds a subsection. -/
theorem identifiers_page :
    let parts : List SectionText := [⟨1, "NOTES", []⟩, ⟨2, "See <emphasis>also</emphasis>", []⟩, ⟨1, "Notes", ["text"]⟩]
    let finished := ((titled "foo.1" { edition := .five } {} [.man] (some "FOO")).writeSections parts).finish
    let ids := identifiers (finished.2.assemble (unlines finished.1))
    (∀ part ∈ parts, part.Plain) ∧ ids = ["foo", "notes", "see-also", "notes-1"] ∧ ids.Nodup := by
  intro parts finished ids
  have hplain : ∀ part ∈ parts, part.Plain := by
    intro part hm
    simp only [parts, List.mem_cons, List.not_mem_nil, or_false] at hm
    rcases hm with rfl | rfl | rfl <;> exact ⟨by decide, by decide⟩
  have hfilled : AllFilled parts :=
    ⟨fun _ => Or.inr ⟨_, rfl, by decide⟩, fun hd => absurd hd (by decide), fun _ => Or.inl ⟨"text", by decide⟩, trivial⟩
  obtain ⟨hids, _⟩ := identifiers_sections "foo.1" { edition := .five } {} [.man] (some "FOO") (by decide)
    (fun t hm => by obtain rfl := Option.some.inj hm; decide) hplain hfilled
  have hall : ids = ["foo", "notes", "see-also", "notes-1"] := by
    rw [show ids = _ from hids]
    decide
  refine ⟨hplain, hall, ?_⟩
  rw [hall]
  decide

end Document

end RoffDocBook
