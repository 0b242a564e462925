import RoffDocBook.Proofs.Markup.Escape
import RoffDocBook.Proofs.Synopsis.Heads

/-! Function heads whose parameters are all declared in the list: each is read back, with its name and the names of its
parameters, from every text that it is printed as. -/
namespace RoffDocBook.Synopsis
open Text Markup

/-! The markup of a function head, tag by tag. -/

/-- A tag with the text that follows it. -/
def tagged (part : String × Text) : Text :=
  '<' :: ((part.1 : Text) ++ '>' :: part.2)

/-- The tags of a text without their angle brackets, each with the text that follows it up to the next one. -/
def taggedTexts (markup : Text) : List (Text × Text) :=
  ((splitOn '<' markup).drop 1).map fun part => (part.takeWhile (· != '>'), (part.dropWhile (· != '>')).drop 1)

/-- The texts that follow the tags of a kind. -/
def textsAfter (tag : String) (markup : Text) : List Text :=
  (taggedTexts markup).filterMap fun part => if part.1 = (tag : Text) then some part.2 else none

/-- Tags and texts without angle brackets in them. -/
def Separate (parts : List (String × Text)) : Prop :=
  ∀ part ∈ parts, '<' ∉ (part.1 : Text) ∧ '>' ∉ (part.1 : Text) ∧ '<' ∉ part.2

theorem splitOn_tagged {parts : List (String × Text)} (h : Separate parts) :
    splitOn '<' (parts.flatMap tagged) = [] :: parts.map fun part => (part.1 : Text) ++ '>' :: part.2 := by
  induction parts with
  | nil => rfl
  | cons part parts ih =>
    obtain ⟨⟨htag, _, htext⟩, hparts⟩ := List.forall_mem_cons.mp h
    have hfree : ∀ c ∈ (part.1 : Text) ++ '>' :: part.2, (c == '<') = false := by
      intro c hc
      rw [beq_eq_false_iff_ne]
      rintro rfl
      rcases List.mem_append.mp hc with hm | hm
      · exact htag hm
      · rcases List.mem_cons.mp hm with he | hm
        · cases he
        · exact htext hm
    have hrest := splitBy_append_of_free hfree (ih hparts)
    rw [List.append_nil] at hrest
    rw [List.flatMap_cons, List.map_cons, ← hrest]
    exact splitBy_append (t := []) (by decide) _

theorem taggedTexts_tagged {parts : List (String × Text)} (h : Separate parts) :
    taggedTexts (parts.flatMap tagged) = parts.map fun part => (part.1.toList, part.2) := by
  rw [taggedTexts, splitOn_tagged h, List.drop_one, List.tail_cons, List.map_map]
  refine List.map_congr_left fun part hm => ?_
  obtain ⟨_, hclosed, _⟩ := h part hm
  have hfree : ∀ c ∈ (part.1 : Text), (c != '>') = true := fun c hc => bne_iff_ne.mpr fun he => hclosed (he ▸ hc)
  have hinside : ((part.1 : Text) ++ '>' :: part.2).takeWhile (· != '>') = part.1 := by
    rw [List.takeWhile_append_of_pos hfree, List.takeWhile_cons_of_neg (by decide), List.append_nil]
  have hafter : ((part.1 : Text) ++ '>' :: part.2).dropWhile (· != '>') = '>' :: part.2 := by
    rw [List.dropWhile_append_of_pos hfree, List.dropWhile_cons_of_neg (by decide)]
  exact Prod.ext hinside (congrArg (List.drop 1) hafter)

/-- The texts that stand behind the tags of a kind. -/
def textsBehind (tag : String) (parts : List (String × Text)) : List Text :=
  parts.filterMap fun part => if part.1 = tag then some part.2 else none

@[simp] theorem textsBehind_nil (tag : String) : textsBehind tag [] = [] :=
  rfl

@[simp] theorem textsBehind_cons (tag : String) (part : String × Text) (parts : List (String × Text)) :
    textsBehind tag (part :: parts) = (if part.1 = tag then [part.2] else []) ++ textsBehind tag parts := by
  rw [textsBehind, List.filterMap_cons]
  by_cases htag : part.1 = tag
  · rw [if_pos htag, if_pos htag]
    rfl
  · rw [if_neg htag, if_neg htag]
    rfl

@[simp] theorem textsBehind_append (tag : String) (parts others : List (String × Text)) :
    textsBehind tag (parts ++ others) = textsBehind tag parts ++ textsBehind tag others :=
  List.filterMap_append

@[simp] theorem textsBehind_flatMap {α : Type} (tag : String) (l : List α) (f : α → List (String × Text)) :
    textsBehind tag (l.flatMap f) = l.flatMap fun a => textsBehind tag (f a) :=
  List.filterMap_flatMap

theorem textsAfter_tagged {parts : List (String × Text)} (h : Separate parts) (tag : String) :
    textsAfter tag (parts.flatMap tagged) = textsBehind tag parts := by
  rw [textsAfter, taggedTexts_tagged h, List.filterMap_map]
  refine List.filterMap_congr fun part _ => ?_
  simp only [Function.comp_apply, String.toList_inj]

/-- The tags of a parameter. -/
def Parameter.parts : Parameter → List (String × Text)
  | .void => [("void/", "\n")]
  | .varargs => [("varargs/", "\n")]
  | .named before name after =>
    [("paramdef", escape before ++ if endsIn before "*" then "" else " "), ("parameter", escape name),
      ("/parameter", escape after), ("/paramdef", "\n")]
  | .functionPointer before name parameters =>
    [("paramdef", escape before ++ " (*"), ("parameter", escape name), ("/parameter", ")"),
      ("funcparams", escape parameters), ("/funcparams", ""), ("/paramdef", "\n")]
  | .unnamed type => [("paramdef", escape type), ("/paramdef", "\n")]

theorem Parameter.markup_eq (parameter : Parameter) : parameter.markup ++ ['\n'] = parameter.parts.flatMap tagged := by
  have hparamdef (t : Text) : tagged ("paramdef", t) = ("<paramdef>" : Text) ++ t := by simp [tagged]
  have hname (t : Text) : tagged ("parameter", t) = ("<parameter>" : Text) ++ t := by simp [tagged]
  have hend : tagged ("/paramdef", "\n") = ("</paramdef>" : Text) ++ ['\n'] := by simp [tagged]
  cases parameter with
  | void => rfl
  | varargs => rfl
  | named before name after =>
    have hnamed (t : Text) : tagged ("/parameter", t) = ("</parameter>" : Text) ++ t := by simp [tagged]
    unfold markup parts
    simp only [List.flatMap_cons, List.flatMap_nil, List.append_nil, hparamdef, hname, hnamed, hend, List.append_assoc]
  | functionPointer before name parameters =>
    have hpointed : (" (*<parameter>" : Text) = " (*" ++ ("<parameter>" : Text) := by simp
    have hparameters (t : Text) : tagged ("/parameter", ")") ++ (tagged ("funcparams", escape parameters) ++ t) =
        ("</parameter>)<funcparams>" : Text) ++ (escape parameters ++ t) := by simp [tagged]
    have hends : tagged ("/funcparams", "") ++ ("</paramdef>" : Text) = ("</funcparams></paramdef>" : Text) := by
      simp [tagged]
    unfold markup parts
    simp only [List.flatMap_cons, List.flatMap_nil, List.append_nil, hparamdef, hname, hparameters, hend,
      List.append_assoc, hpointed, ← hends]
  | unnamed type =>
    unfold markup parts
    simp only [List.flatMap_cons, List.flatMap_nil, List.append_nil, hparamdef, hend, List.append_assoc]

/-- The tags of the synopsis of one function. -/
def Prototype.parts (prototype : Prototype) : List (String × Text) :=
  let separator : Text := if prototype.returnType.isEmpty || endsIn prototype.returnType "*" then "" else " "
  [("funcsynopsis", ("\n" : Text)), ("funcprototype", "\n"), ("funcdef", escape prototype.returnType ++ separator),
    ("function", escape prototype.name), ("/function", ""), ("/funcdef", "\n")] ++
  ((if prototype.parameters.isEmpty then [("void/", ("\n" : Text))] else []) ++
    (prototype.parameters.flatMap Parameter.parts ++ [("/funcprototype", ("\n" : Text)), ("/funcsynopsis", "")]))

theorem Prototype.markup_eq (prototype : Prototype) :
    "<funcsynopsis>\n" ++ (prototype.markup ++ "\n") ++ "</funcsynopsis>" = prototype.parts.flatMap tagged := by
  have hparameters : prototype.parameters.flatMap (fun parameter => parameter.markup ++ ['\n']) =
      (prototype.parameters.flatMap Parameter.parts).flatMap tagged := by
    rw [List.flatMap_assoc]
    exact congrArg (List.flatMap · prototype.parameters) (funext Parameter.markup_eq)
  have hvoid : ((if prototype.parameters.isEmpty then "<void/>\n" else "" : String) : Text) =
      (if prototype.parameters.isEmpty then [("void/", ("\n" : Text))] else []).flatMap tagged := by
    split <;> simp [tagged]
  have hfirst (type name rest : Text) :
      tagged ("funcsynopsis", "\n") ++ (tagged ("funcprototype", "\n") ++ (tagged ("funcdef", type) ++
        (tagged ("function", name) ++ (tagged ("/function", "") ++ (tagged ("/funcdef", "\n") ++ rest))))) =
      ("<funcsynopsis>\n" : Text) ++ (("<funcprototype>\n<funcdef>" : Text) ++ (type ++ (("<function>" : Text) ++
        (name ++ (("</function></funcdef>\n" : Text) ++ rest))))) := by simp [tagged]
  have hlast : tagged ("/funcprototype", "\n") ++ tagged ("/funcsynopsis", "") =
      ("</funcprototype>" : Text) ++ (("\n" : Text) ++ ("</funcsynopsis>" : Text)) := by simp [tagged]
  unfold markup parts
  dsimp only
  simp only [List.flatMap_append, List.flatMap_cons, List.flatMap_nil, List.append_nil, hfirst, hparameters, ← hvoid,
    hlast, List.append_assoc]

theorem Parameter.separate (parameter : Parameter) : Separate parameter.parts := by
  have hseparator (b : Bool) : '<' ∉ ((if b then "" else " " : String) : Text) := by cases b <;> decide
  cases parameter <;> simp [parts, Separate, open_notMem_escape, hseparator]

theorem Prototype.separate (prototype : Prototype) : Separate prototype.parts := by
  have hvoid : Separate (if prototype.parameters.isEmpty then [("void/", ("\n" : Text))] else []) := by
    split <;> simp [Separate]
  have hparameters : Separate (prototype.parameters.flatMap Parameter.parts) := by
    intro part hm
    obtain ⟨parameter, _, hm⟩ := List.mem_flatMap.mp hm
    exact parameter.separate part hm
  unfold parts
  simp only [Separate, List.forall_mem_append] at hvoid hparameters ⊢
  refine ⟨?_, hvoid, hparameters, by simp⟩
  simp [open_notMem_escape]

/-- The name of a parameter, if it has one. -/
def Parameter.name? : Parameter → Option Text
  | .named _ name _ | .functionPointer _ name _ => some name
  | _ => none

/-- What the synopsis of one function shows. -/
structure Shows (markup name : Text) (parameters : List Text) (variadic void : Prop) : Prop where
  once : (textsAfter "funcprototype" markup).length = 1
  function : textsAfter "function" markup = [name]
  parameters : textsAfter "parameter" markup = parameters
  varargs : textsAfter "varargs/" markup ≠ [] ↔ variadic
  void : textsAfter "void/" markup ≠ [] ↔ void

theorem Prototype.shows (prototype : Prototype) :
    Shows (prototype.parts.flatMap tagged) (escape prototype.name)
      ((prototype.parameters.filterMap Parameter.name?).map escape) (.varargs ∈ prototype.parameters)
      (prototype.parameters = [] ∨ .void ∈ prototype.parameters) := by
  have hread (tag : String) := textsAfter_tagged prototype.separate tag
  have hnone (tag : String) (htag : tag = "funcprototype" ∨ tag = "function") (parameter : Parameter) :
      textsBehind tag parameter.parts = [] := by
    rcases htag with rfl | rfl <;> cases parameter <;> simp [Parameter.parts]
  have hnames (parameter : Parameter) :
      textsBehind "parameter" parameter.parts = (parameter.name?.map escape).toList := by
    cases parameter <;> simp [Parameter.parts, Parameter.name?]
  have hvarargs (parameter : Parameter) :
      textsBehind "varargs/" parameter.parts = if parameter = .varargs then [("\n" : Text)] else [] := by
    cases parameter <;> simp [Parameter.parts]
  have hvoid (parameter : Parameter) :
      textsBehind "void/" parameter.parts = if parameter = .void then [("\n" : Text)] else [] := by
    cases parameter <;> simp [Parameter.parts]
  have hall : (prototype.parameters.filterMap Parameter.name?).map escape =
      prototype.parameters.flatMap fun parameter => (parameter.name?.map escape).toList := by
    rw [List.map_filterMap, List.filterMap_eq_flatMap_toList]
  constructor
  · rw [hread]
    simp [parts, apply_ite (textsBehind _), hnone]
  · rw [hread]
    simp [parts, apply_ite (textsBehind _), hnone]
  · rw [hread]
    simp [parts, apply_ite (textsBehind _), hnames, hall]
  · rw [hread]
    simp [parts, apply_ite (textsBehind _), hvarargs]
  · rw [hread]
    simp [parts, apply_ite (textsBehind _), hvoid, or_iff_not_imp_left]

/-- A parameter with its type before its name and with brackets after it. -/
structure AnsiParameter where
  first : Identifier
  more : List Specifier
  name : Identifier
  arrays : Nat

/-- Pairs of brackets. -/
def brackets : Nat → List Text
  | 0 => []
  | n + 1 => ("[" : Text) :: ("]" : Text) :: brackets n

namespace AnsiParameter
variable (parameter : AnsiParameter)

def type : List Text :=
  parameter.first.1 :: parameter.more.map (·.1)

def tokens : List Text :=
  parameter.type ++ parameter.name.1 :: brackets parameter.arrays

/-- What a parameter is read as. -/
def parsed : Parameter :=
  .named (joinTokens parameter.type) parameter.name.1 (brackets parameter.arrays).flatten

theorem mem_brackets {n : Nat} {token : Text} (h : token ∈ brackets n) : token = "[" ∨ token = "]" := by
  induction n with
  | zero => cases h
  | succ n ih =>
    rcases List.mem_cons.mp h with rfl | h
    · exact .inl rfl
    · rcases List.mem_cons.mp h with rfl | h
      · exact .inr rfl
      · exact ih h

theorem mem_head {token : Text} (h : token ∈ parameter.type ++ [parameter.name.1]) :
    ∃ specifier : Specifier, specifier.1 = token := by
  rcases List.mem_append.mp h with h | h
  · rcases List.mem_cons.mp h with rfl | h
    · exact ⟨parameter.first.specifier, rfl⟩
    · obtain ⟨specifier, _, he⟩ := List.mem_map.mp h
      exact ⟨specifier, he⟩
  · rw [List.mem_singleton.mp h]
    exact ⟨parameter.name.specifier, rfl⟩

theorem tokens_eq : parameter.tokens = (parameter.type ++ [parameter.name.1]) ++ brackets parameter.arrays := by
  rw [tokens, List.append_assoc]
  rfl

theorem ofTokens?_tokens : Parameter.ofTokens? parameter.tokens = some parameter.parsed := by
  have hlength : 2 ≤ parameter.tokens.length := by simp [tokens, type]; omega
  have hlong {token : Text} : parameter.tokens ≠ [token] := by
    intro he
    rw [he] at hlength
    simp at hlength
  have hopen : ("(" : Text) ∉ parameter.tokens := by
    rw [tokens_eq, List.mem_append, not_or]
    refine ⟨fun hm => ?_, fun hm => ?_⟩
    · obtain ⟨specifier, he⟩ := parameter.mem_head hm
      exact specifier.ne (by decide) (by decide) (by decide) he
    · rcases mem_brackets hm with he | he <;> cases he
  have hhead : parameter.tokens.takeWhile (fun token => token != ("[" : Text)) =
      parameter.type ++ [parameter.name.1] := by
    have hplain : ∀ token ∈ parameter.type ++ [parameter.name.1], (token != ("[" : Text)) = true := by
      intro token hm
      obtain ⟨specifier, rfl⟩ := parameter.mem_head hm
      exact bne_iff_ne.mpr (specifier.ne (by decide) (by decide) (by decide))
    have hends : (brackets parameter.arrays).takeWhile (fun token => token != ("[" : Text)) = [] := by
      cases parameter.arrays <;> rfl
    rw [tokens_eq, List.takeWhile_append_of_pos hplain, hends, List.append_nil]
  have hallowed : parameter.tokens.all Parameter.isAllowed = true := by
    rw [List.all_eq_true, tokens_eq]
    intro token hm
    rcases List.mem_append.mp hm with hm | hm
    · obtain ⟨specifier, rfl⟩ := parameter.mem_head hm
      rcases specifier.2 with hs | hs
      · simp [Parameter.isAllowed, hs]
      · rw [hs]
        rfl
    · rcases mem_brackets hm with rfl | rfl <;> rfl
  have hname : (parameter.type ++ [parameter.name.1]).getLastD [] = parameter.name.1 := by
    rw [List.getLastD_eq_getLast?, List.getLast?_concat]
    rfl
  have hmany : ((parameter.type ++ [parameter.name.1]).length == 1) = false := by simp [type]
  have hafter : parameter.tokens.drop (parameter.type ++ [parameter.name.1]).length = brackets parameter.arrays := by
    rw [tokens_eq, List.drop_left]
  unfold Parameter.ofTokens?
  rw [if_neg hlong, if_neg hlong, breakAt?_eq_none hopen]
  dsimp only
  rw [hhead, hallowed, hname, hmany, hafter, parameter.name.2, List.dropLast_concat]
  simp [parsed]

theorem part : Part parameter.tokens parameter.parsed where
  nonempty := List.cons_ne_nil _ _
  inseparable := by
    have hends (n : Nat) : Inseparable (brackets n) := by
      induction n with
      | zero => exact .nil
      | succ n ih => exact ih.brackets
    rw [tokens_eq]
    exact (Inseparable.of_specifiers fun _ hm => parameter.mem_head hm).append (hends _)
  unmarked := by
    have hall : ∀ c ∈ strangers, c ∉ ("[" : Text) ∧ c ∉ ("]" : Text) := forall_mem_of_all (by decide)
    intro token hm c hc
    rw [tokens_eq] at hm
    rcases List.mem_append.mp hm with hm | hm
    · obtain ⟨specifier, rfl⟩ := parameter.mem_head hm
      exact specifier.unmarked c hc
    · rcases mem_brackets hm with rfl | rfl
      · exact (hall c hc).1
      · exact (hall c hc).2
  noPointer := fun he => parameter.first.ne (by decide) (by decide) (Option.some.inj he)
  read := parameter.ofTokens?_tokens

end AnsiParameter

/-- The list of the parameters. -/
inductive AnsiParameters where
  | none
  | void
  | listed (first : AnsiParameter) (others : List AnsiParameter) (variadic : Bool)

namespace AnsiParameters

/-- The parameters with a name. -/
def named : AnsiParameters → List AnsiParameter
  | none | void => []
  | listed first others _ => first :: others

def variadic : AnsiParameters → Bool
  | listed _ _ variadic => variadic
  | none | void => false

/-- The tokens of each part of the list. -/
def parts : AnsiParameters → List (List Text)
  | none => []
  | void => [[("void" : Text)]]
  | listed first others variadic =>
    (first :: others).map AnsiParameter.tokens ++ if variadic then [[("..." : Text)]] else []

def parsed : AnsiParameters → List Parameter
  | none => []
  | void => [.void]
  | listed first others variadic => (first :: others).map AnsiParameter.parsed ++ if variadic then [.varargs] else []

theorem parts_parsed (list : AnsiParameters) : List.Forall₂ Part list.parts list.parsed := by
  have halone {token : Text} {parameter : Parameter} (ht : token = "void" ∨ token = "...")
      (hread : Parameter.ofTokens? [token] = some parameter) : Part [token] parameter := by
    constructor
    · exact List.cons_ne_nil _ _
    · refine .cons ?_ .nil
      rcases ht with rfl | rfl <;> decide
    · intro token hm
      rw [List.mem_singleton.mp hm]
      rcases ht with rfl | rfl
      · exact forall_mem_of_all (by decide)
      · exact forall_mem_of_all (by decide)
    · rcases ht with rfl | rfl <;> decide
    · exact hread
  cases list with
  | none => exact .nil
  | void => exact .cons (halone (.inl rfl) rfl) .nil
  | listed first others variadic =>
    refine List.rel_append ?_ ?_
    · exact List.forall₂_map_left_iff.mpr (List.forall₂_map_right_iff.mpr (List.forall₂_same.mpr fun p _ => p.part))
    · cases variadic with
      | false => exact .nil
      | true => exact .cons (halone (.inr rfl) rfl) .nil

theorem filterMap_name? (list : AnsiParameters) :
    list.parsed.filterMap Parameter.name? = list.named.map (·.name.1) := by
  have hall (parameters : List AnsiParameter) :
      (parameters.map AnsiParameter.parsed).filterMap Parameter.name? = parameters.map (·.name.1) := by
    have hname : Parameter.name? ∘ AnsiParameter.parsed = some ∘ (·.name.1) := rfl
    rw [List.filterMap_map, hname, List.filterMap_eq_map]
  cases list with
  | none => rfl
  | void => rfl
  | listed first others variadic =>
    have hlast : (if variadic then [Parameter.varargs] else []).filterMap Parameter.name? = [] := by
      cases variadic <;> rfl
    rw [parsed, List.filterMap_append, hall, hlast, List.append_nil]
    rfl

theorem varargs_mem_parsed (list : AnsiParameters) : .varargs ∈ list.parsed ↔ list.variadic = true := by
  cases list with
  | none => simp [parsed, variadic]
  | void => simp [parsed, variadic]
  | listed first others variadic => cases variadic <;> simp [parsed, AnsiParameters.variadic, AnsiParameter.parsed]

theorem void_mem_parsed (list : AnsiParameters) :
    list.parsed = [] ∨ .void ∈ list.parsed ↔ list = .none ∨ list = .void := by
  cases list with
  | none => simp [parsed]
  | void => simp [parsed]
  | listed first others variadic => cases variadic <;> simp [parsed, AnsiParameter.parsed]

end AnsiParameters

/-- A function head with its parameters declared in the list. -/
structure AnsiPrototype where
  specifiers : List Specifier
  name : Identifier
  parameters : AnsiParameters

theorem Identifier.escape_eq (word : Identifier) : escape word.1 = word.1 := by
  have hall : ∀ c ∈ Markup.marks, c.isAlphanum = false ∧ c ≠ '_' := forall_mem_of_all (by decide)
  exact escape_of_forall fun c hm hc => word.notMem (hall c hc).1 (hall c hc).2 hm

namespace AnsiPrototype
variable (prototype : AnsiPrototype)

/-- What a function head is read as. -/
def parsed : Prototype where
  returnType := joinTokens (prototype.specifiers.map (·.1))
  name := prototype.name.1
  parameters := prototype.parameters.parsed

/-- Ways to print a function head up to its semicolon. -/
abbrev Layout :=
  Synopsis.Layout prototype.specifiers prototype.name prototype.parameters.parts

variable {prototype} (layout : prototype.Layout) {first : Text} {others : List Text}

theorem parse_lines (hlines : layout.lines ";" = first :: others)
    (hlead : Function.tellsToCompile first = false) (hbrackets : contains first "] [" = false) :
    ∃ after, Function.parse (.ofLines (layout.lines ";")) =
      (.parsed (prototype.parsed.parts.flatMap tagged, [prototype.name.1]), after) ∧ after.lines = [] := by
  have h := prototype.parameters.parts_parsed
  have hsemicolon : ∀ c ∈ (";" : Text), c = ';' := forall_mem_of_all (by decide)
  obtain ⟨after, hread, hafter⟩ := layout.readPrototype_closed h (.ofLines (layout.lines ";")) []
    (List.append_nil _).symm
  have hinformation : Function.isInformation first = false :=
    (layout.isInformation_first h hsemicolon hlines).trans hlead
  rw [Function.parse_alone hlines (layout.begins h hsemicolon hlines hbrackets) hinformation hread
    hafter]
  exact ⟨after, by rw [Prototype.markup_eq]; rfl, hafter⟩

/-- A function head is recovered from every text that it is printed as. -/
theorem parse_recovers (hlines : layout.lines ";" = first :: others)
    (hlead : Function.tellsToCompile first = false) (hbrackets : contains first "] [" = false) :
    ∃ markup after, Function.parse (.ofLines (layout.lines ";")) = (.parsed (markup, [prototype.name.1]), after) ∧
      after.lines = [] ∧
      Shows markup prototype.name.1 (prototype.parameters.named.map (·.name.1)) (prototype.parameters.variadic = true)
        (prototype.parameters = .none ∨ prototype.parameters = .void) := by
  obtain ⟨after, hparse, hafter⟩ := parse_lines layout hlines hlead hbrackets
  have hshows := prototype.parsed.shows
  have hnames : (prototype.parameters.named.map (·.name.1)).map escape = prototype.parameters.named.map (·.name.1) := by
    rw [List.map_map]
    exact List.map_congr_left fun parameter _ => parameter.name.escape_eq
  have hname : escape prototype.parsed.name = prototype.name.1 := prototype.name.escape_eq
  have hparameters : prototype.parsed.parameters = prototype.parameters.parsed := rfl
  rw [hname, hparameters, prototype.parameters.filterMap_name?, hnames, prototype.parameters.varargs_mem_parsed,
    prototype.parameters.void_mem_parsed] at hshows
  exact ⟨_, after, hparse, hafter, hshows⟩

/-- `char *read_all(FILE *stream, char *const lines[], ...);`, with a line for each parameter. -/
private def readAll : AnsiPrototype where
  specifiers := [⟨"char", .inl rfl⟩, ⟨"*", .inr rfl⟩]
  name := ⟨"read_all", rfl⟩
  parameters := .listed ⟨⟨"FILE", rfl⟩, [⟨"*", .inr rfl⟩], ⟨"stream", rfl⟩, 0⟩
    [⟨⟨"char", rfl⟩, [⟨"*", .inr rfl⟩, ⟨"const", .inl rfl⟩], ⟨"lines", rfl⟩, 1⟩] true

private def readAllLayout : readAll.Layout where
  before := " char *read_all"
  inside := "FILE * stream,\n  char *const lines[ ]\n,... "
  spells_before := .of_spelled (by decide)
  spells_inside := .of_spelled (by decide)
  one_line := by decide

theorem parse_recovers_readAll :
    ∃ markup after,
      Function.parse (.ofLines [" char *read_all(FILE * stream,", "  char *const lines[ ]", ",... );"]) =
        (.parsed (markup, ["read_all"]), after) ∧
      after.lines = [] ∧ Shows markup "read_all" ["stream", "lines"] True False := by
  have hlines : readAllLayout.lines ";" = [" char *read_all(FILE * stream,", "  char *const lines[ ]", ",... );"] := by
    decide
  obtain ⟨markup, after, hparse, hafter, hshows⟩ := parse_recovers readAllLayout hlines (by decide) (by decide)
  rw [hlines] at hparse
  have hvariadic : readAll.parameters.variadic = true ↔ True := by decide
  have hlisted : readAll.parameters = .none ∨ readAll.parameters = .void ↔ False := by simp [readAll]
  exact ⟨markup, after, hparse, hafter, hshows.once, hshows.function, hshows.parameters,
    hshows.varargs.trans hvariadic, hshows.void.trans hlisted⟩

end AnsiPrototype

end RoffDocBook.Synopsis
