import RoffDocBook.Proofs.Document.Writing
import RoffDocBook.Proofs.Formatter.Expansion
import RoffDocBook.Proofs.Identifier.Uniqueness
import RoffDocBook.Proofs.Text.Words

/-! The files that a document of the fourth edition refers to. The document type declares an entity for each of them,
named by the slug of the file; of files with the same slug, only the first one is declared, and the references to the
others lead to it. -/
namespace RoffDocBook
open Text Markup

/-- The characters that an attribute value is written without. -/
def isMarked (c : Char) : Bool :=
  c == '\'' || c == '"' || c == '<' || c == '>'

/-- An entity that is declared as a file: its name and the address of the file, with the text after the declaration. -/
def entityDeclaration? (t : Text) : Option ((Text × Text) × Text) := do
  let named := spanUntil (· == ' ') (← dropStart? "<!ENTITY " t)
  let addressed := spanUntil (· == '\'') (← dropStart? " SYSTEM '" named.2)
  let rest ← dropStart? "'>\n" addressed.2
  pure ((named.1, addressed.1), rest)

/-- The declarations at the start of a text, up to a number of them. -/
def entityDeclarations : Nat → Text → List (Text × Text)
  | 0, _ => []
  | limit + 1, t =>
    match entityDeclaration? t with
    | some (declared, rest) => declared :: entityDeclarations limit rest
    | none => []

/-- The declarations in the document type of a document, with the text after them. -/
def internalSubset? (document : Text) : Option Text := do
  let rest ← dropStart? "<?xml version=\"1.0\" encoding=\"UTF-8\"?>\n" document
  let rest ← dropStart? "<!DOCTYPE " rest
  dropStart? "[\n" (spanUntil (fun c => c == '[' || c == '>') rest).2

/-- The entities that a document declares as files. -/
def declaredEntities (document : Text) : List (Text × Text) :=
  match internalSubset? document with
  | some subset => entityDeclarations subset.length subset
  | none => []

theorem escapeAttributeChar_of_marked {c : Char} (h : isMarked c = true) :
    ∃ name, escapeAttributeChar c = '&' :: name ∧ '\'' ∉ name := by
  simp only [isMarked, Bool.or_eq_true, beq_iff_eq] at h
  rcases h with ((rfl | rfl) | rfl) | rfl
  · exact ⟨"apos;", rfl, by decide⟩
  · exact ⟨"quot;", rfl, by decide⟩
  · exact ⟨"lt;", rfl, by decide⟩
  · exact ⟨"gt;", rfl, by decide⟩

theorem escapeAttributeChar_of_not_marked {c : Char} (h : isMarked c = false) : escapeAttributeChar c = [c] := by
  simp only [isMarked, Bool.or_eq_false_iff, beq_eq_false_iff_ne] at h
  obtain ⟨⟨⟨hapostrophe, hquotation⟩, hless⟩, hgreater⟩ := h
  unfold escapeAttributeChar
  split
  · exact absurd rfl hapostrophe
  · exact absurd rfl hquotation
  · exact absurd rfl hless
  · exact absurd rfl hgreater
  · rfl

theorem quote_notMem_escapeAttribute (t : Text) : '\'' ∉ escapeAttribute t := by
  intro h
  obtain ⟨c, -, hc⟩ := List.mem_flatMap.mp h
  cases hmarked : isMarked c with
  | true =>
    obtain ⟨name, hname, hquote⟩ := escapeAttributeChar_of_marked hmarked
    rw [hname] at hc
    exact hquote ((List.mem_cons.mp hc).resolve_left (by decide))
  | false =>
    rw [escapeAttributeChar_of_not_marked hmarked] at hc
    rw [← List.mem_singleton.mp hc] at hmarked
    exact absurd hmarked (by decide)

theorem escapeAttribute_eq_self_iff (t : Text) : escapeAttribute t = t ↔ t.any isMarked = false := by
  induction t with
  | nil => exact iff_of_true rfl rfl
  | cons c t ih =>
    rw [escapeAttribute, List.flatMap_cons, ← escapeAttribute, List.any_cons]
    cases hmarked : isMarked c with
    | true =>
      obtain ⟨name, hname, -⟩ := escapeAttributeChar_of_marked hmarked
      rw [hname, Bool.true_or]
      refine iff_of_false (fun h => ?_) (by decide)
      obtain rfl : '&' = c := (List.cons.inj h).1
      exact absurd hmarked (by decide)
    | false =>
      rw [escapeAttributeChar_of_not_marked hmarked, Bool.false_or, ← ih, List.singleton_append, List.cons.injEq]
      exact and_iff_right rfl

namespace Inclusion

/-- An inclusion as it is declared. -/
def declaration (inclusion : Inclusion) : Text :=
  "<!ENTITY " ++ inclusion.entity ++ " SYSTEM '" ++ escapeAttribute inclusion.target ++ "'>"

/-- What a declaration says. -/
def declared (inclusion : Inclusion) : Text × Text :=
  (inclusion.entity, escapeAttribute inclusion.target)

theorem entityDeclaration?_append {inclusion : Inclusion} (h : ' ' ∉ inclusion.entity) (rest : Text) :
    entityDeclaration? (inclusion.declaration ++ '\n' :: rest) = some (inclusion.declared, rest) := by
  let key : Text := " SYSTEM '"
  let close : Text := "'>\n"
  have hclose : ("'>" : Text) ++ '\n' :: rest = close ++ rest := rfl
  have haddress := Formatter.spanUntil_append (quote_notMem_escapeAttribute inclusion.target) ('>' :: '\n' :: rest)
  rw [show '\'' :: '>' :: '\n' :: rest = close ++ rest from rfl] at haddress
  have hshape : inclusion.declaration ++ '\n' :: rest =
      "<!ENTITY ".toList ++ (inclusion.entity ++ (key ++ (escapeAttribute inclusion.target ++ (close ++ rest)))) := by
    unfold declaration
    simp only [List.append_assoc, key, ← hclose]
  generalize escapeAttribute inclusion.target ++ (close ++ rest) = remainder at haddress hshape
  have hname := Formatter.spanUntil_append h ("SYSTEM '".toList ++ remainder)
  rw [show ' ' :: ("SYSTEM '".toList ++ remainder) = key ++ remainder from rfl] at hname
  unfold entityDeclaration?
  rw [hshape, dropStart?_append]
  dsimp only [Option.bind_eq_bind, Option.bind_some]
  rw [hname]
  dsimp only
  rw [dropStart?_append]
  dsimp only [Option.bind_some]
  rw [haddress]
  dsimp only
  rw [dropStart?_append]
  rfl

/-- Declarations are read one after another. -/
theorem entityDeclarations_flatMap {inclusions : List Inclusion} (h : ∀ inclusion ∈ inclusions, ' ' ∉ inclusion.entity)
    {rest : Text} (hrest : entityDeclaration? rest = none) {limit : Nat} (hlimit : inclusions.length < limit) :
    entityDeclarations limit (inclusions.flatMap (fun inclusion => inclusion.declaration ++ ['\n']) ++ rest) =
      inclusions.map declared := by
  induction inclusions generalizing limit with
  | nil =>
    cases limit with
    | zero => exact absurd hlimit (Nat.lt_irrefl _)
    | succ limit =>
      rw [entityDeclarations, List.flatMap_nil, List.nil_append, hrest]
      rfl
  | cons inclusion inclusions ih =>
    obtain ⟨hfirst, hothers⟩ := List.forall_mem_cons.mp h
    cases limit with
    | zero => exact absurd hlimit (Nat.not_lt_zero _)
    | succ limit =>
      have hshape (later : Text) : inclusion.declaration ++ ['\n'] ++ later ++ rest =
          inclusion.declaration ++ '\n' :: (later ++ rest) := by simp
      rw [entityDeclarations, List.flatMap_cons, hshape, entityDeclaration?_append hfirst]
      dsimp only
      rw [ih hothers (Nat.lt_of_succ_lt_succ hlimit), List.map_cons]

theorem length_le_flatMap (inclusions : List Inclusion) :
    inclusions.length ≤ (inclusions.flatMap fun inclusion => inclusion.declaration ++ ['\n']).length := by
  induction inclusions with
  | nil => exact Nat.le_refl _
  | cons inclusion inclusions ih =>
    rw [List.flatMap_cons, List.length_append, List.length_append, List.length_cons, List.length_singleton]
    omega

end Inclusion

namespace Document
variable {doc : Document}

/-- The file of a reference: its name without the directories and without what follows the last point. -/
def stemOf (file : Text) : Text :=
  let base := (splitOn '/' file).getLastD []
  ((breakOnLast? "." base).map Prod.fst).getD base

def inclusionOf (file : Text) : Inclusion :=
  { entity := Slug.ofTitle (stemOf file), target := stemOf file ++ ".xml" }

/-- A document that refers to files one after another. -/
def includeAll (doc : Document) (files : List Text) : Document :=
  files.foldl (fun doc file => (doc.addInclusion file).2) doc

theorem addInclusion_markup (h : doc.isFifth = false) (file : Text) :
    (doc.addInclusion file).1 = "&" ++ (inclusionOf file).entity ++ ";" := by
  unfold addInclusion
  rw [h]
  dsimp only
  split <;> rfl

theorem addInclusion_doc (doc : Document) (file : Text) :
    (doc.addInclusion file).2 =
      if doc.inclusions.any (·.entity == (inclusionOf file).entity) then doc
      else { doc with inclusions := doc.inclusions ++ [inclusionOf file] } := by
  unfold addInclusion inclusionOf stemOf
  dsimp only
  split <;> rfl

theorem filter_entity_eq_nil {entity : Text} (h : ¬doc.inclusions.any (·.entity == entity) = true) :
    doc.inclusions.filter (·.entity == entity) = [] :=
  List.filter_eq_nil_iff.mpr fun inclusion hm he => h (List.any_eq_true.mpr ⟨inclusion, hm, he⟩)

/-- Of the files with one slug, the first one is kept. -/
theorem includeAll_filter (doc : Document) (files : List Text) (entity : Text) :
    (doc.includeAll files).inclusions.filter (·.entity == entity) =
      if doc.inclusions.any (·.entity == entity) then doc.inclusions.filter (·.entity == entity)
      else ((files.find? fun file => (inclusionOf file).entity == entity).map inclusionOf).toList := by
  induction files generalizing doc with
  | nil =>
    split
    · rfl
    · exact filter_entity_eq_nil ‹_›
  | cons file files ih =>
    rw [includeAll, List.foldl_cons, ← includeAll, ih, addInclusion_doc, List.find?_cons]
    by_cases hown : (inclusionOf file).entity = entity
    · rw [hown, beq_self_eq_true]
      by_cases hknown : doc.inclusions.any (·.entity == entity) = true
      · simp only [hknown, if_true]
      · simp [hknown, filter_entity_eq_nil hknown, hown]
    · rw [beq_false_of_ne hown]
      split
      · rfl
      · simp [hown]

theorem includeAll_isFifth (doc : Document) (files : List Text) : (doc.includeAll files).isFifth = doc.isFifth := by
  induction files generalizing doc with
  | nil => rfl
  | cons file files ih =>
    rw [includeAll, List.foldl_cons, ← includeAll, ih, addInclusion_doc]
    split <;> rfl

theorem blank_notMem_entity (file : Text) : ' ' ∉ (inclusionOf file).entity := by
  intro h
  rcases Slug.allowed_of_mem_ofTitle h with hc | hc
  · exact absurd hc (by decide)
  · exact absurd hc (by decide)

theorem includeAll_blankFree (h : ∀ inclusion ∈ doc.inclusions, ' ' ∉ inclusion.entity) (files : List Text) :
    ∀ inclusion ∈ (doc.includeAll files).inclusions, ' ' ∉ inclusion.entity := by
  induction files generalizing doc with
  | nil => exact h
  | cons file files ih =>
    refine ih ?_
    dsimp only
    rw [addInclusion_doc]
    split
    · exact h
    · exact List.forall_mem_append.mpr ⟨h, List.forall_mem_singleton.mpr (blank_notMem_entity file)⟩

/-- What stands before the declarations in the document type of the fourth edition. -/
def documentTypeHead (doc : Document) : Text :=
  doc.topElement ++ " PUBLIC \"-//OASIS//DTD DocBook XML V4.5//EN\" " ++
    "\"http://www.oasis-open.org/docbook/xml/4.5/docbookx.dtd\""

theorem documentTypeHead_free (doc : Document) :
    doc.documentTypeHead.all (fun c => !(c == '[' || c == '>')) = true := by
  unfold documentTypeHead
  rcases doc.topElement_cases with he | he
  · rw [he]
    decide
  · rw [he]
    decide

/-- What the document type of a document in the fourth edition goes on with after its head. -/
theorem internalSubset?_assemble (h : doc.isFifth = false) (body : Text) :
    ∃ rest, internalSubset? (doc.assemble body) =
      if doc.declarations.isEmpty then none else some (unlines doc.declarations ++ '\n' :: ']' :: rest) := by
  have hassembled : ∃ rest, doc.assemble body =
      "<?xml version=\"1.0\" encoding=\"UTF-8\"?>\n".toList ++ (doc.documentType ++ rest) := by
    unfold assemble
    simp only [List.append_assoc]
    exact ⟨_, rfl⟩
  obtain ⟨rest, hrest⟩ := hassembled
  refine ⟨'>' :: '\n' :: rest, ?_⟩
  have hhead : ∀ c ∈ doc.documentTypeHead, (!(c == '[' || c == '>')) = true :=
    List.all_eq_true.mp doc.documentTypeHead_free
  have htype : doc.documentType = "<!DOCTYPE ".toList ++ (doc.documentTypeHead ++
      ((if doc.declarations.isEmpty then "" else " [\n" ++ unlines doc.declarations ++ "\n]" : Text) ++ ">\n".toList)) := by
    unfold documentType documentTypeHead
    rw [h]
    simp only [Bool.false_eq_true, if_false, List.append_assoc]
  unfold internalSubset? spanUntil
  rw [hrest, dropStart?_append]
  dsimp only [Option.bind_eq_bind, Option.bind_some]
  rw [htype, List.append_assoc, dropStart?_append]
  dsimp only [Option.bind_some]
  rw [List.append_assoc, List.dropWhile_append_of_pos hhead]
  split
  · rfl
  · have hopen (t : Text) : " [\n".toList ++ t = ' ' :: '[' :: '\n' :: t := rfl
    have hfeed : "\n]".toList ++ (">\n".toList ++ rest) = '\n' :: ']' :: '>' :: '\n' :: rest := rfl
    simp only [List.append_assoc]
    rw [hopen, hfeed]
    rfl

/-- A document of the fourth edition declares its inclusions, in their order. -/
theorem declaredEntities_assemble (h : doc.isFifth = false)
    (hentities : ∀ inclusion ∈ doc.inclusions, ' ' ∉ inclusion.entity) (body : Text) :
    declaredEntities (doc.assemble body) = doc.inclusions.map Inclusion.declared := by
  have hdeclarations : doc.declarations = doc.inclusions.map Inclusion.declaration := by
    unfold declarations
    rw [h]
    rfl
  obtain ⟨rest, hsubset⟩ := internalSubset?_assemble h body
  unfold declaredEntities
  rw [hsubset, hdeclarations]
  cases hinclusions : doc.inclusions with
  | nil => rfl
  | cons first others =>
    rw [hinclusions] at hentities
    have hfeed : unlines ((first :: others).map Inclusion.declaration) ++ ['\n'] = _ :=
      unlines_append_feed (List.cons_ne_nil _ _)
    rw [List.flatMap_map] at hfeed
    have hsplit : unlines ((first :: others).map Inclusion.declaration) ++ '\n' :: ']' :: rest =
        (first :: others).flatMap (fun inclusion => inclusion.declaration ++ ['\n']) ++ ']' :: rest := by
      rw [← hfeed, List.append_assoc]
      rfl
    rw [if_neg (by simp), hsplit]
    refine Inclusion.entityDeclarations_flatMap hentities rfl ?_
    rw [List.length_append]
    have hlength := Inclusion.length_le_flatMap (first :: others)
    exact Nat.lt_add_right_iff_pos.mpr (Nat.succ_pos _) |>.trans_le' hlength

/-- The first of the files whose names have the same slug as a file. -/
def first? (files : List Text) (file : Text) : Option Text :=
  files.find? fun other => (inclusionOf other).entity == (inclusionOf file).entity

theorem exists_first {files : List Text} {file : Text} (h : file ∈ files) : ∃ first, first? files file = some first :=
  Option.isSome_iff_exists.mp (List.find?_isSome.mpr ⟨file, h, beq_self_eq_true _⟩)

theorem entity_of_first {files : List Text} {file first : Text} (h : first? files file = some first) :
    (inclusionOf first).entity = (inclusionOf file).entity := by
  simpa using List.find?_some h

/-- The entity of a file is declared as the first of the files with the same slug. -/
theorem declaredEntities_filter (h : doc.isFifth = false) (hfresh : doc.inclusions = []) (files : List Text)
    (body file : Text) :
    (declaredEntities ((doc.includeAll files).assemble body)).filter (·.1 == (inclusionOf file).entity) =
      ((first? files file).map (inclusionOf · |>.declared)).toList := by
  have hnone : ∀ inclusion ∈ doc.inclusions, ' ' ∉ inclusion.entity := by
    rw [hfresh]
    exact List.forall_mem_nil _
  have hblank := includeAll_blankFree hnone files
  have hfifth : (doc.includeAll files).isFifth = false := (includeAll_isFifth doc files).trans h
  have hfilter := includeAll_filter doc files (inclusionOf file).entity
  rw [hfresh] at hfilter
  rw [declaredEntities_assemble hfifth hblank, List.filter_map]
  have hsame : (fun pair : Text × Text => pair.1 == (inclusionOf file).entity) ∘ Inclusion.declared =
      fun inclusion => inclusion.entity == (inclusionOf file).entity :=
    rfl
  rw [hsame, hfilter, ← first?]
  cases first? files file <;> rfl

theorem escapeAttribute_address_iff (stem : Text) :
    escapeAttribute (stem ++ ".xml") = stem ++ ".xml" ↔ stem.any isMarked = false := by
  have hextension : (".xml" : Text).any isMarked = false := by decide
  rw [escapeAttribute_eq_self_iff, List.any_append, hextension, Bool.or_false]

/-- The first of the files with the same slug has the own address of each of them. -/
theorem first_address_iff (files : List Text) :
    (∀ file ∈ files, ∀ first, first? files file = some first →
        escapeAttribute (stemOf first ++ ".xml") = stemOf file ++ ".xml") ↔
      (∀ file ∈ files, ∀ other ∈ files,
        (inclusionOf file).entity = (inclusionOf other).entity → stemOf file = stemOf other) ∧
      ∀ file ∈ files, (stemOf file).any isMarked = false := by
  refine ⟨fun hown => ?_, fun ⟨hsame, hplain⟩ file hfile first hfound => ?_⟩
  · -- The first file is the first one for itself, so that its name is written as it is.
    have hstem : ∀ file ∈ files, ∀ first, first? files file = some first →
        (stemOf first).any isMarked = false ∧ stemOf first = stemOf file := by
      intro file hfile first hfound
      have hself : first? files first = some first := by rw [first?, entity_of_first hfound, ← first?, hfound]
      have haddress := hown first (List.mem_of_find?_eq_some hfound) first hself
      exact ⟨(escapeAttribute_address_iff _).mp haddress,
        List.append_cancel_right (haddress.symm.trans (hown file hfile first hfound))⟩
    refine ⟨fun file hfile other hother hentity => ?_, fun file hfile => ?_⟩
    · obtain ⟨first, hfound⟩ := exists_first hfile
      have hfound' : first? files other = some first := by rw [first?, ← hentity, ← first?, hfound]
      exact (hstem file hfile first hfound).2.symm.trans (hstem other hother first hfound').2
    · obtain ⟨first, hfound⟩ := exists_first hfile
      obtain ⟨hplain, hname⟩ := hstem file hfile first hfound
      exact hname ▸ hplain
  · have hname := hsame file hfile first (List.mem_of_find?_eq_some hfound) (entity_of_first hfound).symm
    rw [← hname]
    exact (escapeAttribute_address_iff _).mpr (hplain file hfile)

/-- Every reference leads to an entity that is declared exactly once: as the first of the files whose names have the
same slug. Each reference leads to its own file exactly if files with the same slug have the same name, and no name has
a character in it that attribute values are written without. -/
theorem inclusions_declared {doc : Document} (hedition : doc.isFifth = false) (hfresh : doc.inclusions = [])
    (files : List Text) (body : Text) :
    let declared (file : Text) :=
      (declaredEntities ((doc.includeAll files).assemble body)).filter (·.1 == (inclusionOf file).entity)
    (∀ before file after, files = before ++ file :: after →
      ((doc.includeAll before).addInclusion file).1 = "&" ++ (inclusionOf file).entity ++ ";") ∧
    (∀ file ∈ files, ∃ first, first? files file = some first ∧
      declared file = [((inclusionOf file).entity, escapeAttribute (stemOf first ++ ".xml"))]) ∧
    ((∀ file ∈ files, declared file = [((inclusionOf file).entity, stemOf file ++ ".xml")]) ↔
      (∀ file ∈ files, ∀ other ∈ files,
        (inclusionOf file).entity = (inclusionOf other).entity → stemOf file = stemOf other) ∧
      ∀ file ∈ files, (stemOf file).any isMarked = false) := by
  intro declared
  have hfirst : ∀ file ∈ files, ∃ first, first? files file = some first ∧
      declared file = [((inclusionOf file).entity, escapeAttribute (stemOf first ++ ".xml"))] := by
    intro file hfile
    obtain ⟨first, hfound⟩ := exists_first hfile
    have hentity := entity_of_first hfound
    have hfilter := declaredEntities_filter hedition hfresh files body file
    rw [hfound] at hfilter
    refine ⟨first, hfound, hfilter.trans ?_⟩
    rw [← hentity]
    rfl
  refine ⟨fun before file after _ => addInclusion_markup ((includeAll_isFifth doc before).trans hedition) file,
    hfirst, (forall₂_congr fun file hfile => ?_).trans (first_address_iff files)⟩
  obtain ⟨first, hfound, hdeclared⟩ := hfirst file hfile
  rw [hdeclared, List.singleton_inj, Prod.mk.injEq, and_iff_right rfl]
  exact ⟨fun haddress other hother => Option.some.inj (hfound.symm.trans hother) ▸ haddress,
    fun haddress => haddress first hfound⟩

/-- Two files whose names differ in a character that a slug does not keep. -/
private def twins : List Text :=
  ["a_b.ms", "a-b.ms"]

theorem inclusions_declared_twins :
    let doc := start "t.1" {} {}
    doc.isFifth = false ∧ doc.inclusions = [] ∧
      ¬∀ file ∈ twins, (declaredEntities ((doc.includeAll twins).assemble [])).filter (·.1 == (inclusionOf file).entity) =
        [((inclusionOf file).entity, stemOf file ++ ".xml")] := by
  have hedition : (start "t.1" {} {}).isFifth = false := rfl
  refine ⟨hedition, rfl, fun hown => ?_⟩
  obtain ⟨-, -, howns⟩ := inclusions_declared hedition rfl twins []
  have hstems := (howns.mp hown).1 "a_b.ms" (by decide) "a-b.ms" (by decide) (by decide)
  exact absurd hstems (by decide)

end Document

end RoffDocBook
