import RoffDocBook.Proofs.Synopsis.Ansi

/-! Function heads whose parameters are declared on lines after them, and the same heads with the declarations in the
list. -/
namespace RoffDocBook.Synopsis
open Text Markup

/-- A line that declares parameters of one type. -/
structure Declaration where
  first : Identifier
  more : List Identifier
  name : Identifier
  others : List Identifier

namespace Declaration
variable (declaration : Declaration)

def names : List Identifier :=
  declaration.name :: declaration.others

/-- A parameter with the whole type of the line. -/
def parameter (name : Identifier) : AnsiParameter :=
  ⟨declaration.first, declaration.more.map Identifier.specifier, name, 0⟩

/-- The parameters that the line declares. -/
def declared : List AnsiParameter :=
  declaration.names.map declaration.parameter

/-- The parameters that are read from the line: after the first one, only the first word of the type is kept. -/
def read : List AnsiParameter :=
  declaration.parameter declaration.name :: declaration.others.map fun name => ⟨declaration.first, [], name, 0⟩

/-- The tokens of each part of the line. -/
def parts : List (List Text) :=
  (declaration.parameter declaration.name).tokens :: declaration.others.map fun name => [name.1]

/-- Ways to print a declaration on a line. -/
def Prints (line : Text) : Prop :=
  ∃ body, line = body ++ ";" ∧ Spells (separated declaration.parts) body

theorem read_eq_declared (h : declaration.others = [] ∨ declaration.more = []) :
    declaration.read = declaration.declared := by
  unfold read declared names parameter
  rcases h with h | h <;> rw [h] <;> rfl

theorem name_read : declaration.read.map (·.name) = declaration.names := by
  rw [read, List.map_cons, List.map_map]
  exact congrArg (declaration.name :: ·) (List.map_id declaration.others)

theorem name_declared : declaration.declared.map (·.name) = declaration.names := by
  rw [declared, List.map_map]
  exact List.map_id declaration.names

theorem inseparable_part {part : List Text} (hm : part ∈ declaration.parts) : Inseparable part := by
  rcases List.mem_cons.mp hm with rfl | hm
  · exact (declaration.parameter declaration.name).part.inseparable
  · obtain ⟨name, _, rfl⟩ := List.mem_map.mp hm
    exact name.inseparable

theorem declaredBy?_parts {names : List Text} (h : ∀ name ∈ declaration.names, name.1 ∈ names) :
    Function.declaredBy? names (separated declaration.parts) =
      some (declaration.read.map fun parameter => (parameter.name.1, parameter.parsed)) := by
  have hsplit : splitCommas 0 (separated declaration.parts) = declaration.parts :=
    splitCommas_separated (List.cons_ne_nil _ _) fun _ hm => declaration.inseparable_part hm
  have htype : (separated declaration.parts).take 1 = [declaration.first.1] := by
    unfold parts
    cases declaration.others <;> rfl
  have hparts : (declaration.parameter declaration.name).tokens ::
      (declaration.others.map fun name => [name.1]).map ([declaration.first.1] ++ ·) =
        declaration.read.map AnsiParameter.tokens := by
    rw [read, List.map_cons, List.map_map, List.map_map]
    rfl
  have hnames : ∀ parameter ∈ declaration.read, names.contains parameter.name.1 = true := by
    intro parameter hm
    refine List.contains_iff_mem.mpr (h _ ?_)
    rw [← declaration.name_read]
    exact List.mem_map_of_mem hm
  unfold Function.declaredBy?
  rw [hsplit, htype]
  unfold parts
  dsimp only
  rw [hparts]
  refine mapM_of_forall₂ (List.forall₂_map_left_iff.mpr (List.forall₂_map_right_iff.mpr
    (List.forall₂_same.mpr fun parameter hm => ?_)))
  rw [parameter.ofTokens?_tokens]
  exact if_pos (hnames parameter hm)

theorem unmarked_parts : ∀ token ∈ separated declaration.parts, ∀ c ∈ strangers, c ∉ token := by
  intro token hm
  rcases mem_separated hm with rfl | ⟨part, hpart, hm⟩
  · exact forall_mem_of_all (by decide)
  · rcases List.mem_cons.mp hpart with rfl | hpart
    · exact (declaration.parameter declaration.name).part.unmarked token hm
    · obtain ⟨name, _, rfl⟩ := List.mem_map.mp hpart
      rw [List.mem_singleton.mp hm]
      exact name.unmarked

variable {declaration} {line : Text}

theorem Prints.notMem (h : declaration.Prints line) {c : Char} (hc : c ∈ strangers) : c ∉ line := by
  have hall : ∀ c ∈ strangers, isBlank c = false ∧ c ∉ (";" : Text) := forall_mem_of_all (by decide)
  obtain ⟨body, rfl, hbody⟩ := h
  rw [List.mem_append, not_or]
  exact ⟨hbody.notMem (hall c hc).1 fun token hm => declaration.unmarked_parts token hm c hc, (hall c hc).2⟩

/-- A line without its semicolon has the tokens of the declaration. -/
theorem Prints.body (h : declaration.Prints line) : ∃ body,
    dropEnd? ";" (unescape (trim line)) = some body ∧ '(' ∉ body ∧ tokens body = separated declaration.parts := by
  have hplain := h.notMem (c := '&') (by decide)
  have hopened := h.notMem (c := '(') (by decide)
  obtain ⟨body, rfl, hbody⟩ := h
  have hstart : trimStart (body ++ ";") = trimStart body ++ ";" := trimStart_append_cons (by decide) body []
  have htrim : trim (body ++ ";") = trimStart body ++ ";" := by
    rw [trim, hstart]
    exact trimEnd_concat (by decide) (trimStart body)
  have hlast : (trimStart body ++ (";" : Text)).reverse = ';' :: (trimStart body).reverse := List.reverse_append
  rw [unescape_of_notMem fun hm => hplain ((trim_sublist _).subset hm), htrim]
  refine ⟨trimStart body, ?_, ?_, ?_⟩
  · rw [dropEnd?, hlast]
    exact congrArg some (List.reverse_reverse _)
  · exact fun hm => hopened (List.mem_append_left _ ((List.dropWhile_sublist _).subset hm))
  · rw [tokens_trimStart, hbody.tokens]

end Declaration

/-- The parameter of a name among those that have been declared; one that has not is an integer. -/
def declaredIn (table : List AnsiParameter) (name : Identifier) : AnsiParameter :=
  (table.find? fun parameter => parameter.name = name).getD ⟨⟨"int", rfl⟩, [], name, 0⟩

theorem declaredIn_of_mem {table : List AnsiParameter} (h : (table.map (·.name)).Nodup) {parameter : AnsiParameter}
    (hm : parameter ∈ table) : declaredIn table parameter.name = parameter := by
  induction table with
  | nil => cases hm
  | cons first table ih =>
    rw [List.map_cons, List.nodup_cons] at h
    unfold declaredIn
    rcases List.mem_cons.mp hm with rfl | hm
    · rw [List.find?_cons_of_pos (by simp)]
      rfl
    · have hne : first.name ≠ parameter.name := fun he => h.1 (he ▸ List.mem_map_of_mem hm)
      rw [List.find?_cons_of_neg (by simpa using hne)]
      exact ih h.2 hm

theorem lookup_declaredIn (table : List AnsiParameter) (name : Identifier) :
    ((table.map fun parameter => (parameter.name.1, parameter.parsed)).lookup name.1).getD (.named "int" name.1 "") =
      (declaredIn table name).parsed := by
  induction table with
  | nil => rfl
  | cons first table ih =>
    unfold declaredIn
    rw [List.map_cons, List.lookup_cons]
    by_cases he : first.name = name
    · rw [List.find?_cons_of_pos (by simpa using he), he, beq_self_eq_true]
      rfl
    · have hne : (name.1 == first.name.1) = false := by
        rw [beq_eq_false_iff_ne]
        exact fun h => he (Subtype.ext h.symm)
      rw [List.find?_cons_of_neg (by simpa using he), hne]
      exact ih

/-- The declarations on the lines after a function head are read one by one. -/
theorem readParameters_declared {names : List Text} (fuel : Nat) (declared : List (Text × Parameter))
    {declarations : List Declaration} {lines : List Text} {reader : TokenReader}
    (h : List.Forall₂ Declaration.Prints declarations lines) (hlines : reader.lines = lines)
    (hfuel : declarations.length < fuel)
    (hnames : ∀ declaration ∈ declarations, ∀ name ∈ declaration.names, name.1 ∈ names)
    (hcount : declared.length + (declarations.flatMap Declaration.names).length = names.length) :
    ∃ after, Function.readParameters fuel names declared reader =
      (some (declared ++
        (declarations.flatMap Declaration.read).map fun parameter => (parameter.name.1, parameter.parsed)), after) ∧
      after.lines = [] := by
  induction h generalizing declared reader fuel with
  | nil =>
    obtain ⟨fuel, rfl⟩ := Nat.exists_eq_succ_of_ne_zero (Nat.ne_zero_of_lt hfuel)
    have hdone : names.length ≤ declared.length := by simpa using hcount.ge
    rw [Function.readParameters, if_pos hdone]
    exact ⟨reader, by simp, hlines⟩
  | @cons declaration line declarations lines hline _ ih =>
    obtain ⟨fuel, rfl⟩ := Nat.exists_eq_succ_of_ne_zero (Nat.ne_zero_of_lt hfuel)
    obtain ⟨hfirst, hothers⟩ := List.forall_mem_cons.mp hnames
    obtain ⟨body, hbody, hopened, htokens⟩ := hline.body
    obtain ⟨next, hpop, hnext⟩ := Function.popLine_cons hlines
    have hpeek : reader.peekLine? = some line := by rw [TokenReader.peekLine?, hlines, List.head?_cons]
    have hread : declaration.read.length = declaration.names.length := by
      rw [← declaration.name_read, List.length_map]
    have hmore : ¬ names.length ≤ declared.length := by
      rw [← hcount, List.flatMap_cons, List.length_append, Declaration.names, List.length_cons]
      omega
    obtain ⟨after, hrest, hafter⟩ := ih fuel
      (declared ++ declaration.read.map fun parameter => (parameter.name.1, parameter.parsed)) hnext
      (Nat.lt_of_succ_lt_succ hfuel) hothers (by
        rw [← hcount, List.flatMap_cons, List.length_append, List.length_append, List.length_map, hread]
        omega)
    rw [Function.readParameters, if_neg hmore, hpeek, Option.bind_some, hbody]
    dsimp only
    rw [List.elem_eq_mem, decide_eq_false hopened, htokens, declaration.declaredBy?_parts hfirst, hpop]
    refine ⟨after, ?_, hafter⟩
    rw [List.flatMap_cons, List.map_append, ← List.append_assoc]
    exact hrest

/-- A name alone is a parameter that may be declared after the head, unless it is the keyword of an empty list. -/
theorem Identifier.part (name : Identifier) (h : name.1 ≠ "void") : Part [name.1] (.unnamed name.1) where
  nonempty := List.cons_ne_nil _ _
  inseparable := name.inseparable
  unmarked := by
    intro token hm
    rw [List.mem_singleton.mp hm]
    exact name.unmarked
  noPointer := fun he => name.ne (by decide) (by decide) (Option.some.inj he)
  read := by
    have hvoid : [name.1] ≠ [("void" : Text)] := fun he => h (List.cons.inj he).1
    have hellipsis : [name.1] ≠ [("..." : Text)] := fun he => name.ne (by decide) (by decide) (List.cons.inj he).1
    have hopen : ("(" : Text) ∉ [name.1] := fun hm =>
      name.ne (by decide) (by decide) (List.mem_singleton.mp hm).symm
    have hhead : [name.1].takeWhile (fun token => token != ("[" : Text)) = [name.1] :=
      List.takeWhile_cons_of_pos (bne_iff_ne.mpr (name.ne (by decide) (by decide)))
    have hallowed : [name.1].all Parameter.isAllowed = true := by simp [Parameter.isAllowed, name.2]
    unfold Parameter.ofTokens?
    rw [if_neg hvoid, if_neg hellipsis, breakAt?_eq_none hopen]
    dsimp only
    rw [hhead, hallowed]
    rfl

/-- A function head with the declarations of its parameters on the lines after it. -/
structure OldStyle where
  specifiers : List Specifier
  name : Identifier
  parameters : List Identifier
  declarations : List Declaration
  distinct : parameters.Nodup
  named : ∀ name ∈ parameters, name.1 ≠ "void"
  /-- Every parameter is declared once. -/
  once : (declarations.flatMap Declaration.names).Perm parameters

namespace AnsiParameters

def ofList : List AnsiParameter → AnsiParameters
  | [] => none
  | first :: others => listed first others false

theorem parts_ofList (parameters : List AnsiParameter) :
    (ofList parameters).parts = parameters.map AnsiParameter.tokens := by
  cases parameters with
  | nil => rfl
  | cons first others => exact List.append_nil _

theorem parsed_ofList (parameters : List AnsiParameter) :
    (ofList parameters).parsed = parameters.map AnsiParameter.parsed := by
  cases parameters with
  | nil => rfl
  | cons first others => exact List.append_nil _

end AnsiParameters

namespace OldStyle
variable (head : OldStyle)

/-- The head with each parameter declared in the list, as it is in a table. -/
def withTypes (table : List AnsiParameter) : AnsiPrototype where
  specifiers := head.specifiers
  name := head.name
  parameters := .ofList (head.parameters.map (declaredIn table))

/-- The same head with the declarations in the list. -/
def ansi : AnsiPrototype :=
  head.withTypes (head.declarations.flatMap Declaration.declared)

/-- The head that is read. -/
def read : AnsiPrototype :=
  head.withTypes (head.declarations.flatMap Declaration.read)

/-- Ways to print a function head without its declarations. -/
abbrev Layout :=
  Synopsis.Layout head.specifiers head.name (head.parameters.map fun name => [name.1])

theorem parts_bare : List.Forall₂ Part (head.parameters.map fun name => [name.1])
    (head.parameters.map fun name => Parameter.unnamed name.1) := by
  rw [List.forall₂_map_left_iff, List.forall₂_map_right_iff, List.forall₂_same]
  exact fun name hm => name.part (head.named name hm)

/-- The table of the declarations gives each parameter the type that it is read with. -/
theorem map_lookup : head.parameters.map (fun name =>
    (((head.declarations.flatMap Declaration.read).map fun parameter => (parameter.name.1, parameter.parsed)).lookup
      name.1).getD (.named "int" name.1 "")) = head.read.parsed.parameters := by
  have hlisted : head.read.parsed.parameters =
      (head.parameters.map (declaredIn (head.declarations.flatMap Declaration.read))).map AnsiParameter.parsed :=
    AnsiParameters.parsed_ofList _
  rw [hlisted, List.map_map]
  exact List.map_congr_left fun name _ => lookup_declaredIn _ name

theorem declarations_eq_nil (h : head.parameters = []) : head.declarations = [] := by
  have hlength := head.once.length_eq
  cases hd : head.declarations with
  | nil => rfl
  | cons declaration declarations => simp [hd, h, Declaration.names] at hlength

variable {head} (layout : head.Layout) {lines : List Text}
  (hlines : List.Forall₂ Declaration.Prints head.declarations lines)
include hlines

theorem readPrototype_lines (reader : TokenReader) (hreader : reader.lines = layout.lines "" ++ lines) :
    ∃ after, Function.readPrototype reader = (some head.read.parsed, after) ∧ after.lines = [] := by
  have h := head.parts_bare
  obtain ⟨t, next, hread, hnext, htokens⟩ := layout.readDeclaration_lines h
    (forall_mem_of_all (by decide)) hreader
  have hparse := parse?_of_tokens (htokens.trans (layout.tokens_text "")) h (.inl rfl)
  have hbare : (head.parameters.map fun name => Parameter.unnamed name.1).filterMap Parameter.bare? =
      head.parameters.map (·.1) := by
    rw [List.filterMap_map, ← List.filterMap_eq_map]
    exact List.filterMap_congr fun name _ => if_pos name.2
  have hend : tokens "" = [] := rfl
  rw [hbare, hend, List.isEmpty_nil, if_pos rfl] at hparse
  unfold Function.readPrototype
  rw [hread]
  dsimp only
  rw [hparse]
  dsimp only
  have hlength : (head.declarations.flatMap Declaration.names).length = head.parameters.length := head.once.length_eq
  by_cases hnone : head.parameters = []
  · rw [head.declarations_eq_nil hnone, List.forall₂_nil_left_iff] at hlines
    refine ⟨next, ?_, hnext.trans hlines⟩
    simp [hnone, read, withTypes, AnsiPrototype.parsed, AnsiParameters.ofList, AnsiParameters.parsed]
  · have hmem : ∀ declaration ∈ head.declarations, ∀ name ∈ declaration.names,
        name.1 ∈ head.parameters.map (·.1) := fun declaration hd name hn =>
      List.mem_map_of_mem (head.once.mem_iff.mp (List.mem_flatMap.mpr ⟨declaration, hd, hn⟩))
    obtain ⟨after, hdeclared, hafter⟩ := readParameters_declared (next.lines.length + 1) []
      hlines hnext (by rw [hnext, hlines.length_eq]; omega) hmem (by simp [hlength])
    have hasked : (head.parameters.map (·.1)).isEmpty = false :=
      List.isEmpty_eq_false_iff.mpr fun h => hnone (List.map_eq_nil_iff.mp h)
    rw [hasked, List.length_map, List.length_map, bne_self_eq_false, Bool.or_false, if_neg Bool.false_ne_true,
      hdeclared]
    refine ⟨after, ?_, hafter⟩
    dsimp only
    rw [List.nil_append, List.map_map]
    exact congrArg (fun parameters => (some ({ returnType := _, name := _, parameters } : Prototype), after))
      head.map_lookup

end OldStyle

theorem Identifier.endsIn_append (word : Identifier) (t : Text) {ends : Text}
    (h : ∀ c ∈ ends, c.isAlphanum = false ∧ c ≠ '_') : endsIn (t ++ word.1) ends = false := by
  have hlast := List.getLast?_eq_some_getLast word.ne_nil
  rw [endsIn, List.getLast?_append, hlast, Option.some_or, Option.any_some, List.elem_eq_mem, decide_eq_false_iff_not]
  intro hm
  exact word.notMem (h _ hm).1 (h _ hm).2 (List.getLast_mem word.ne_nil)

theorem foldl_attach (more : List Identifier) (t : Text) (word : Identifier) :
    (more.map (·.1)).foldl attach (t ++ word.1) = t ++ word.1 ++ more.flatMap (fun word => ' ' :: word.1) ∧
      endsIn ((more.map (·.1)).foldl attach (t ++ word.1)) "*" = false := by
  induction more generalizing t word with
  | nil => exact ⟨(List.append_nil _).symm, word.endsIn_append t (forall_mem_of_all (by decide))⟩
  | cons second more ih =>
    have hattach : attach (t ++ word.1) second.1 = t ++ word.1 ++ " " ++ second.1 := by
      have hopen : endsIn (t ++ word.1) "*([" = false := word.endsIn_append t (forall_mem_of_all (by decide))
      have hmark : (["*", ")", "[", "]", ","] : List Text).contains second.1 = false := by
        rw [← Bool.not_eq_true, List.contains_iff_mem]
        simp only [List.mem_cons, List.not_mem_nil, or_false, not_or]
        refine ⟨?_, ?_, ?_, ?_, ?_⟩ <;> exact second.ne (by decide) (by decide)
      have hsome : (t ++ word.1).isEmpty = false :=
        List.isEmpty_eq_false_iff.mpr fun he => word.ne_nil (List.append_eq_nil_iff.mp he).2
      unfold attach
      dsimp only
      rw [hopen, hmark, hsome]
      rfl
    obtain ⟨hrest, hends⟩ := ih (t ++ word.1 ++ " ") second
    rw [List.map_cons, List.foldl_cons, hattach]
    refine ⟨?_, hends⟩
    rw [hrest, List.flatMap_cons]
    simp

/-- Identifiers stand in a text with a blank between them. -/
theorem joinTokens_identifiers (first : Identifier) (more : List Identifier) :
    joinTokens (first.1 :: more.map (·.1)) = first.1 ++ more.flatMap (fun word => ' ' :: word.1) ∧
      endsIn (joinTokens (first.1 :: more.map (·.1))) "*" = false := by
  have hfirst : attach [] first.1 = [] ++ first.1 := rfl
  rw [joinTokens, List.foldl_cons, hfirst]
  exact foldl_attach more [] first

namespace OldStyle
variable (head : OldStyle)

/-- What the synopsis shows before the name of a parameter. -/
def typeText (parameter : AnsiParameter) : Text :=
  escape (joinTokens parameter.type) ++ if endsIn (joinTokens parameter.type) "*" then "" else " "

theorem typeText_identifiers (first : Identifier) (more : List Identifier) (name : Identifier) (arrays : Nat) :
    typeText ⟨first, more.map Identifier.specifier, name, arrays⟩ =
      escape (first.1 ++ more.flatMap (fun word => ' ' :: word.1)) ++ " " := by
  have htype : AnsiParameter.type ⟨first, more.map Identifier.specifier, name, arrays⟩ = first.1 :: more.map (·.1) := by
    rw [AnsiParameter.type, List.map_map]
    rfl
  obtain ⟨hjoin, hends⟩ := joinTokens_identifiers first more
  rw [typeText, htype, hends, hjoin]
  rfl

theorem textsAfter_paramdef (table : List AnsiParameter) :
    textsAfter "paramdef" ((head.withTypes table).parsed.parts.flatMap tagged) =
      head.parameters.map fun name => typeText (declaredIn table name) := by
  have hparameter (parameter : AnsiParameter) :
      textsBehind "paramdef" parameter.parsed.parts = [typeText parameter] := by
    simp [AnsiParameter.parsed, Parameter.parts, typeText]
  have hparameters : (head.withTypes table).parsed.parameters =
      (head.parameters.map (declaredIn table)).map AnsiParameter.parsed := AnsiParameters.parsed_ofList _
  rw [textsAfter_tagged (Prototype.separate _), Prototype.parts, hparameters]
  simp [apply_ite (textsBehind _), List.flatMap_map, hparameter, ← List.map_eq_flatMap]

/-- Each parameter stands once in a table of the parameters that are declared. -/
theorem declaredIn_flatMap (parameter : AnsiParameter) {parametersOf : Declaration → List AnsiParameter}
    (h : ∀ declaration, (parametersOf declaration).map (·.name) = declaration.names) {declaration : Declaration}
    (hd : declaration ∈ head.declarations) (hm : parameter ∈ parametersOf declaration) :
    declaredIn (head.declarations.flatMap parametersOf) parameter.name = parameter := by
  have hnames : (head.declarations.flatMap parametersOf).map (·.name) =
      head.declarations.flatMap Declaration.names := by
    rw [List.map_flatMap]
    exact List.flatMap_congr fun declaration _ => h declaration
  refine declaredIn_of_mem ?_ (List.mem_flatMap.mpr ⟨declaration, hd, hm⟩)
  rw [hnames]
  exact head.once.nodup_iff.mpr head.distinct

theorem markup_eq_iff :
    head.read.parsed.parts.flatMap tagged = head.ansi.parsed.parts.flatMap tagged ↔
      ∀ declaration ∈ head.declarations, declaration.others = [] ∨ declaration.more = [] := by
  constructor
  · intro h declaration hd
    cases hothers : declaration.others with
    | nil => exact .inl rfl
    | cons name others =>
      right
      have hin : name ∈ declaration.others := hothers ▸ List.mem_cons_self
      have hparameter : name ∈ head.parameters :=
        head.once.mem_iff.mp (List.mem_flatMap.mpr ⟨declaration, hd, List.mem_cons_of_mem _ hin⟩)
      have hread : declaredIn (head.declarations.flatMap Declaration.read) name = ⟨declaration.first, [], name, 0⟩ :=
        head.declaredIn_flatMap ⟨declaration.first, [], name, 0⟩ Declaration.name_read hd
          (List.mem_cons_of_mem _ (List.mem_map_of_mem hin))
      have hdeclared : declaredIn (head.declarations.flatMap Declaration.declared) name = declaration.parameter name :=
        head.declaredIn_flatMap (declaration.parameter name) Declaration.name_declared hd
          (List.mem_map_of_mem (List.mem_cons_of_mem _ hin))
      have htexts := congrArg (textsAfter "paramdef") h
      rw [read, ansi, textsAfter_paramdef, textsAfter_paramdef, List.map_inj_left] at htexts
      have htext := htexts name hparameter
      rw [hread, hdeclared] at htext
      have hsame := (typeText_identifiers declaration.first [] name 0).symm.trans
        (htext.trans (typeText_identifiers declaration.first declaration.more name 0))
      have hmore := escape_injective (List.append_cancel_right hsame)
      rw [List.append_cancel_left_eq, List.flatMap_nil] at hmore
      cases hwords : declaration.more with
      | nil => rfl
      | cons word more => simp [hwords] at hmore
  · intro h
    have htable : head.declarations.flatMap Declaration.read = head.declarations.flatMap Declaration.declared :=
      List.flatMap_congr fun declaration hd => declaration.read_eq_declared (h declaration hd)
    rw [read, ansi, htable]

variable {head} (layout : head.Layout) (ansi : head.ansi.Layout) {lines : List Text}

/-- What a head is read as depends on the first line alone, if that line tells how to compile. -/
theorem parse_cases {specifiers : List Specifier} {name : Identifier} {parts : List (List Text)}
    {parameters : List Parameter} (layout : Synopsis.Layout specifiers name parts)
    (h : List.Forall₂ Part parts parameters) (trailer : Text) (ht : ∀ c ∈ trailer, c = ';')
    (hbracket : ∀ token ∈ separated parts, ']' ∉ token) {lines : List Text} (hlines : ∀ line ∈ lines, '(' ∉ line)
    {prototype : Prototype} {after : TokenReader}
    (hread : Function.readPrototype (.ofLines (layout.lines trailer ++ lines)) = (some prototype, after))
    (hafter : after.lines = []) :
    (Function.tellsToCompile layout.before = true →
      (Function.parse (.ofLines (layout.lines trailer ++ lines))).1 = .declined) ∧
    (Function.tellsToCompile layout.before = false →
      Function.parse (.ofLines (layout.lines trailer ++ lines)) =
        (.parsed (prototype.parts.flatMap tagged, [prototype.name]), after)) := by
  obtain ⟨first, others, hfirst, hothers⟩ := layout.exists_first h ht
  have hreader : (TokenReader.ofLines (layout.lines trailer ++ lines)).lines =
      (layout.before ++ '(' :: first) :: (others ++ lines) := by
    rw [TokenReader.ofLines, hfirst]
    rfl
  have hclosed : ']' ∉ layout.before ++ '(' :: first := by
    intro hm
    have htext : ']' ∈ layout.text trailer := mem_of_mem_splitBy (hfirst ▸ List.mem_cons_self) hm
    simp only [Layout.text, List.mem_append, List.mem_cons] at htext
    rcases htext with hm | he | hm | he | hm
    · exact layout.notMem_before (by decide) hm
    · cases he
    · exact layout.spells_inside.notMem (by decide) hbracket hm
    · cases he
    · exact absurd (ht _ hm) (by decide)
  have hbegins := layout.begins h ht hfirst
    (Bool.eq_false_iff.mpr fun hc => hclosed (mem_of_contains hc (by decide)))
  have hinformation := (layout.isInformation_first h ht hfirst).trans
    (Function.tellsToCompile_append layout.before first)
  constructor
  · intro hlead
    refine Function.parse_of_isInformation hreader hbegins (hinformation.trans hlead) fun line hm => ?_
    exact (List.mem_append.mp hm).elim (hothers line) (hlines line)
  · intro hlead
    rw [Function.parse_alone hreader hbegins (hinformation.trans hlead) hread hafter, Prototype.markup_eq]

theorem declaredIn_arrays {table : List AnsiParameter} (h : ∀ parameter ∈ table, parameter.arrays = 0)
    (name : Identifier) : (declaredIn table name).arrays = 0 := by
  unfold declaredIn
  cases hfound : table.find? fun parameter => parameter.name = name with
  | none => rfl
  | some parameter => exact h parameter (List.mem_of_find?_eq_some hfound)

theorem close_notMem_tokens {parameter : AnsiParameter} (h : parameter.arrays = 0) :
    ∀ token ∈ parameter.tokens, ']' ∉ token := by
  intro token hm
  rw [AnsiParameter.tokens_eq, h] at hm
  rcases List.mem_append.mp hm with hm | hm
  · obtain ⟨specifier, rfl⟩ := parameter.mem_head hm
    exact specifier.notMem (by decide) (by decide) (by decide)
  · cases hm

theorem close_notMem_ansi : ∀ token ∈ separated head.ansi.parameters.parts, ']' ∉ token := by
  intro token hm
  rcases mem_separated hm with rfl | ⟨part, hpart, hm⟩
  · decide
  · rw [ansi, withTypes, AnsiParameters.parts_ofList, List.map_map] at hpart
    obtain ⟨name, _, rfl⟩ := List.mem_map.mp hpart
    have hdeclared : ∀ parameter ∈ head.declarations.flatMap Declaration.declared, parameter.arrays = 0 := by
      intro parameter hparameter
      obtain ⟨declaration, _, hparameter⟩ := List.mem_flatMap.mp hparameter
      obtain ⟨_, _, rfl⟩ := List.mem_map.mp hparameter
      rfl
    exact close_notMem_tokens (declaredIn_arrays hdeclared name) token hm

/-- A head is read as the one with the declarations in its list wherever no line declares several parameters of a type
of several words. What is written as a line that tells how to compile is not read as a head at all. -/
theorem parse_agrees_iff (hlines : List.Forall₂ Declaration.Prints head.declarations lines) :
    (Function.tellsToCompile layout.before = true →
      (Function.parse (.ofLines (layout.lines "" ++ lines))).1 = .declined) ∧
    (Function.tellsToCompile ansi.before = true → (Function.parse (.ofLines (ansi.lines ";"))).1 = .declined) ∧
    (Function.tellsToCompile layout.before = false → Function.tellsToCompile ansi.before = false →
      ∃ separate listed last ansiLast,
        Function.parse (.ofLines (layout.lines "" ++ lines)) = (.parsed (separate, [head.name.1]), last) ∧
        last.lines = [] ∧
        Function.parse (.ofLines (ansi.lines ";")) = (.parsed (listed, [head.name.1]), ansiLast) ∧
        ansiLast.lines = [] ∧
        (separate = listed ↔
          ∀ declaration ∈ head.declarations, declaration.others = [] ∨ declaration.more = [])) := by
  obtain ⟨last, hread, hlast⟩ := readPrototype_lines layout hlines (.ofLines (layout.lines "" ++ lines)) rfl
  have hlisted := head.ansi.parameters.parts_parsed
  obtain ⟨ansiLast, hansi, hansiLast⟩ := ansi.readPrototype_closed hlisted
    (.ofLines (ansi.lines ";" ++ [])) [] rfl
  have hbare : ∀ token ∈ separated (head.parameters.map fun name => [name.1]), ']' ∉ token := by
    intro token hm
    rcases mem_separated hm with rfl | ⟨part, hpart, hm⟩
    · decide
    · obtain ⟨name, _, rfl⟩ := List.mem_map.mp hpart
      rw [List.mem_singleton.mp hm]
      exact name.notMem (by decide) (by decide)
  have hopened : ∀ line ∈ lines, '(' ∉ line := by
    intro line hm
    obtain ⟨declaration, hline⟩ : ∃ declaration : Declaration, declaration.Prints line :=
      exists_of_forall₂ hlines.flip hm
    exact hline.notMem (by decide)
  have hold := parse_cases layout head.parts_bare "" (forall_mem_of_all (by decide)) hbare hopened hread hlast
  have hnew := parse_cases ansi hlisted ";" (forall_mem_of_all (by decide)) close_notMem_ansi
    (fun _ hm => absurd hm List.not_mem_nil) hansi hansiLast
  rw [List.append_nil] at hnew
  refine ⟨hold.1, hnew.1, fun hlead hansiLead => ?_⟩
  exact ⟨_, _, last, ansiLast, hold.2 hlead, hlast, hnew.2 hansiLead, hansiLast, head.markup_eq_iff⟩

/-- `int sum(a, b)`, whose two parameters are declared on one line with a type of two words. -/
private def unsignedSum : OldStyle where
  specifiers := [⟨"int", .inl rfl⟩]
  name := ⟨"sum", rfl⟩
  parameters := [⟨"a", rfl⟩, ⟨"b", rfl⟩]
  declarations := [⟨⟨"unsigned", rfl⟩, [⟨"int", rfl⟩], ⟨"a", rfl⟩, [⟨"b", rfl⟩]⟩]
  distinct := by decide
  named := by decide
  once := .refl _

private def unsignedSumLayout : unsignedSum.Layout where
  before := "int sum"
  inside := "a, b"
  spells_before := .of_spelled (by decide)
  spells_inside := .of_spelled (by decide)
  one_line := by decide

private def unsignedSumListed : unsignedSum.ansi.Layout where
  before := "int sum"
  inside := "unsigned int a, unsigned int b"
  spells_before := .of_spelled (by decide)
  spells_inside := .of_spelled (by decide)
  one_line := by decide

theorem parse_agrees_iff_unsignedSum : ∃ separate listed last listedLast,
    Function.parse (.ofLines ["int sum(a, b)", "unsigned int a, b;"]) = (.parsed (separate, ["sum"]), last) ∧
      last.lines = [] ∧
      Function.parse (.ofLines ["int sum(unsigned int a, unsigned int b);"]) =
        (.parsed (listed, ["sum"]), listedLast) ∧
      listedLast.lines = [] ∧ separate ≠ listed := by
  have hlines : List.Forall₂ Declaration.Prints unsignedSum.declarations ["unsigned int a, b;"] :=
    .cons ⟨"unsigned int a, b", rfl, .of_spelled (by decide)⟩ .nil
  have hfirst : unsignedSumLayout.lines "" ++ [("unsigned int a, b;" : Text)] =
      ["int sum(a, b)", "unsigned int a, b;"] := by decide
  have hlisted : unsignedSumListed.lines ";" = ["int sum(unsigned int a, unsigned int b);"] := by decide
  obtain ⟨separate, listed, last, listedLast, hparse, hlast, hansi, hansiLast, hagrees⟩ :=
    (parse_agrees_iff unsignedSumLayout unsignedSumListed hlines).2.2 (by decide) (by decide)
  rw [hfirst] at hparse
  rw [hlisted] at hansi
  refine ⟨separate, listed, last, listedLast, hparse, hlast, hansi, hansiLast, fun he => ?_⟩
  rcases hagrees.mp he _ (List.mem_singleton_self _) with hothers | hmore
  · cases hothers
  · cases hmore

end OldStyle

end RoffDocBook.Synopsis
