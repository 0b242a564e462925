import Mathlib.Data.List.Forall2
import RoffDocBook.Proofs.Markup.Escape
import RoffDocBook.Proofs.Synopsis.Prototypes
import RoffDocBook.Proofs.Synopsis.Tokens

/-! Function heads in every way to write them: the lines that one goes over are put together again, and what its tokens
tell is read from them. -/
namespace RoffDocBook.Synopsis
open Text Markup TokenReader

/-- Characters that stand in no part of a parameter list here. -/
def strangers : Text :=
  "()&|#\x7b"

theorem Identifier.unmarked (word : Identifier) : ∀ c ∈ strangers, c ∉ word.1 := by
  have hall : ∀ c ∈ strangers, c.isAlphanum = false ∧ c ≠ '_' := forall_mem_of_all (by decide)
  exact fun c hc => word.notMem (hall c hc).1 (hall c hc).2

theorem Specifier.unmarked (token : Specifier) : ∀ c ∈ strangers, c ∉ token.1 := by
  have hall : ∀ c ∈ strangers, c.isAlphanum = false ∧ c ≠ '_' ∧ c ≠ '*' := forall_mem_of_all (by decide)
  exact fun c hc => token.notMem (hall c hc).1 (hall c hc).2.1 (hall c hc).2.2

/-- A part of a parameter list, and the parameter that it is read as. -/
structure Part (ts : List Text) (parameter : Parameter) : Prop where
  nonempty : ts ≠ []
  inseparable : Inseparable ts
  unmarked : ∀ token ∈ ts, ∀ c ∈ strangers, c ∉ token
  noPointer : ts.head? ≠ some ("*" : Text)
  read : Parameter.ofTokens? ts = some parameter

/-- The name of a parameter that may be declared after the head. -/
def Parameter.bare? : Parameter → Option Text
  | .unnamed type => if isIdentifier type then some type else none
  | _ => none

section
variable {α β : Type} {l : List α} {m : List β}

theorem mapM_of_forall₂ {f : α → Option β} (h : List.Forall₂ (fun a b => f a = some b) l m) : l.mapM f = some m := by
  induction h with
  | nil => rfl
  | cons hread _ ih =>
    rw [List.mapM_cons, hread, ih]
    rfl

theorem exists_of_forall₂ {R : α → β → Prop} (h : List.Forall₂ R l m) {a : α} (hm : a ∈ l) : ∃ b, R a b := by
  induction h with
  | nil => cases hm
  | cons hfirst _ ih =>
    rcases List.mem_cons.mp hm with rfl | hm
    · exact ⟨_, hfirst⟩
    · exact ih hm

end

section
variable {specifiers : List Specifier} {name : Identifier} {parts : List (List Text)} {parameters : List Parameter}
  {trailer : List Text} {t : Text}

theorem head?_separated (h : List.Forall₂ Part parts parameters) :
    (separated parts).head? ≠ some ("*" : Text) ∧ ((separated parts).isEmpty = true ↔ parts = []) := by
  cases parts with
  | nil => exact ⟨fun h => (by cases h), by simp [separated]⟩
  | cons part parts =>
    obtain ⟨parameter, others, hpart, _, _⟩ := List.forall₂_cons_left_iff.mp h
    obtain ⟨token, more, rfl⟩ := List.exists_cons_of_ne_nil hpart.nonempty
    have hpointer := hpart.noPointer
    cases parts with
    | nil => exact ⟨hpointer, by simp [separated]⟩
    | cons => exact ⟨hpointer, by simp [separated]⟩

theorem unmarked_separated (h : List.Forall₂ Part parts parameters) :
    ∀ token ∈ separated parts, ∀ c ∈ strangers, c ∉ token := by
  intro token hm
  rcases mem_separated hm with rfl | ⟨part, hin, hm⟩
  · exact forall_mem_of_all (by decide)
  · obtain ⟨_, hpart⟩ := exists_of_forall₂ h hin
    exact hpart.unmarked token hm

/-- The name is what stands last before the list. -/
theorem breakAt?_head (specifiers : List Specifier) (name : Identifier) (rest : List Text) :
    breakAt? "(" (specifiers.map (·.1) ++ name.1 :: ("(" : Text) :: rest) =
      some (specifiers.map (·.1) ++ [name.1], rest) := by
  have hopen : ("(" : Text) ∉ specifiers.map (·.1) ++ [name.1] := by
    intro hm
    rcases List.mem_append.mp hm with hm | hm
    · obtain ⟨specifier, _, he⟩ := List.mem_map.mp hm
      exact specifier.ne (by decide) (by decide) (by decide) he
    · exact name.ne (by decide) (by decide) (List.mem_singleton.mp hm).symm
  rw [← breakAt?_append hopen, List.append_assoc]
  rfl

/-- Parameters are declared after the head only if nothing ends it. -/
theorem filterMap_bare? (parameters : List Parameter) (trailer : List Text) :
    parameters.filterMap (fun parameter =>
      match parameter with
      | .unnamed type => if isIdentifier type && trailer.isEmpty then some type else none
      | _ => none) = if trailer.isEmpty then parameters.filterMap Parameter.bare? else [] := by
  cases trailer with
  | nil =>
    refine List.filterMap_congr fun parameter _ => ?_
    cases parameter <;> simp [Parameter.bare?]
  | cons token more =>
    refine List.filterMap_eq_nil_iff.mpr fun parameter _ => ?_
    cases parameter <;> simp

theorem parse?_of_tokens
    (ht : tokens t = specifiers.map (·.1) ++ name.1 :: ("(" : Text) :: (separated parts ++ (")" : Text) :: trailer))
    (h : List.Forall₂ Part parts parameters) (htrailer : trailer = [] ∨ trailer = [(";" : Text)]) :
    Prototype.parse? t =
      some ({ returnType := joinTokens (specifiers.map (·.1)), name := name.1, parameters },
        if trailer.isEmpty then parameters.filterMap Parameter.bare? else []) := by
  have hbreak := breakAt?_head specifiers name (separated parts ++ (")" : Text) :: trailer)
  rw [← ht] at hbreak
  have hlast : (specifiers.map (·.1) ++ [name.1]).getLast? = some name.1 := List.getLast?_concat
  have hspecifiers : (specifiers.map (·.1)).all (fun token => isIdentifier token || token == ("*" : Text)) = true := by
    rw [List.all_map, List.all_eq_true]
    intro specifier _
    rcases specifier.2 with hs | hs
    · simp [hs]
    · simp [hs]
  have hnoOpen : ("(" : Text) ∉ separated parts := fun hm =>
    unmarked_separated h _ hm '(' (by decide) List.mem_cons_self
  have hnoClose : (")" : Text) ∉ separated parts := fun hm =>
    unmarked_separated h _ hm ')' (by decide) List.mem_cons_self
  obtain ⟨hpointer, hempty⟩ := head?_separated h
  have hfirst : (separated parts ++ (")" : Text) :: trailer).head? ≠ some ("*" : Text) := by
    cases hs : separated parts with
    | nil => exact fun he => by cases he
    | cons token more =>
      rw [hs] at hpointer
      exact hpointer
  have htrailer : (trailer.isEmpty || trailer == [(";" : Text)]) = true := by
    rcases htrailer with rfl | rfl <;> rfl
  simp only [Prototype.parse?, hbreak, Option.bind_eq_bind, Option.bind_some, hlast, closing?_append hnoOpen hnoClose,
    List.dropLast_concat, hspecifiers, name.2, htrailer, beq_eq_false_iff_ne.mpr hfirst, Bool.not_true, Bool.or_false,
    Bool.false_eq_true, if_false]
  split
  · rename_i hnone
    have hnil := hempty.mp hnone
    rw [hnil, List.forall₂_nil_left_iff] at h
    rw [h]
    exact congrArg (fun names => some (_, names)) (filterMap_bare? [] trailer)
  · rename_i hsome
    rw [splitCommas_separated (fun hnone => hsome (hempty.mpr hnone))
      (fun part hm => (exists_of_forall₂ h hm).choose_spec.inseparable),
      mapM_of_forall₂ (h.imp fun _ _ hpart => hpart.read), Option.bind_some]
    exact congrArg (fun names => some (_, names)) (filterMap_bare? parameters trailer)

end

namespace Function

/-- The text that the lines of a declaration are put together as. -/
def glued (lines : List Text) : Text :=
  lines.flatMap fun line => trim line ++ " "

theorem tokens_glued (lines : List Text) : tokens (glued lines) = lines.flatMap tokens := by
  induction lines with
  | nil => rfl
  | cons line lines ih =>
    have happend : glued (line :: lines) = trim line ++ ' ' :: glued lines := List.append_assoc _ _ _
    rw [happend, tokens_append_blank (by decide), tokens_trim, ih, List.flatMap_cons]

theorem count_glued {c : Char} (h : isBlank c = false) (lines : List Text) :
    (glued lines).count c = lines.flatten.count c := by
  induction lines with
  | nil => rfl
  | cons line lines ih =>
    have happend : glued (line :: lines) = trim line ++ ' ' :: glued lines := List.append_assoc _ _ _
    have hne : ' ' ≠ c := by
      rintro rfl
      cases h
    rw [happend, List.count_append, List.count_cons_of_ne hne, count_trim h, ih, List.flatten_cons, List.count_append]

theorem popLine_cons {reader : TokenReader} {line : Text} {lines : List Text} (h : reader.lines = line :: lines) :
    ∃ after, reader.popLine = (some line, after) ∧ after.lines = lines := by
  unfold popLine
  rw [h]
  exact ⟨_, rfl, rfl⟩

/-- Whether a line begins as one that tells how to compile. -/
def tellsToCompile (line : Text) : Bool :=
  compileLeads.any (startsWith (trimStart line) ·)

theorem tellsToCompile_append (t rest : Text) : tellsToCompile (t ++ '(' :: rest) = tellsToCompile t := by
  have hleads : ∀ lead ∈ compileLeads, '(' ∉ lead := by decide
  rw [tellsToCompile, tellsToCompile, trimStart_append_cons (by decide), Bool.eq_iff_iff, List.any_eq_true,
    List.any_eq_true]
  refine exists_congr fun lead => and_congr_right fun hm => ?_
  rw [startsWith_append_of_notMem (hleads lead hm)]

theorem readDeclaration_line {fuel : Nat} {before line : Text} {reader next : TokenReader}
    (hpop : reader.popLine = (some line, next)) (hplain : '&' ∉ line) :
    readDeclaration (fuel + 1) before reader =
      if 0 < (before ++ trim line ++ " ").count '(' &&
          (before ++ trim line ++ " ").count '(' == (before ++ trim line ++ " ").count ')' then
        (some (before ++ trim line ++ " "), next)
      else if (before ++ trim line ++ " ").count '(' < (before ++ trim line ++ " ").count ')' then (none, next)
      else readDeclaration fuel (before ++ trim line ++ " ") next := by
  rw [readDeclaration, hpop]
  dsimp only
  rw [unescape_of_notMem fun hm => hplain ((trim_sublist line).subset hm)]

/-- A declaration goes on to the first line that closes a parenthesis. -/
theorem readDeclaration_glued (fuel : Nat) (before : Text) {last : Text} {init rest : List Text} {reader : TokenReader}
    (hlines : reader.lines = init ++ last :: rest) (hfuel : init.length < fuel)
    (hplain : ∀ line ∈ init ++ [last], '&' ∉ line) (hbefore : ')' ∉ before) (hinit : ∀ line ∈ init, ')' ∉ line)
    (hopened : '(' ∈ before ++ glued (init ++ [last]))
    (hclosed : (before ++ glued (init ++ [last])).count '(' = (before ++ glued (init ++ [last])).count ')') :
    ∃ after, readDeclaration fuel before reader = (some (before ++ glued (init ++ [last])), after) ∧
      after.lines = rest := by
  induction init generalizing fuel before reader with
  | nil =>
    obtain ⟨fuel, rfl⟩ := Nat.exists_eq_succ_of_ne_zero (Nat.ne_of_gt hfuel)
    obtain ⟨after, hpop, hafter⟩ := popLine_cons hlines
    have hline : before ++ trim last ++ " " = before ++ glued ([] ++ [last]) := by simp [glued]
    have hends : (decide (0 < (before ++ glued ([] ++ [last])).count '(') &&
        (before ++ glued ([] ++ [last])).count '(' == (before ++ glued ([] ++ [last])).count ')') = true := by
      rw [hclosed, beq_self_eq_true, Bool.and_true, decide_eq_true_eq, ← hclosed]
      exact List.count_pos_iff.mpr hopened
    rw [readDeclaration_line hpop (hplain last (by simp)), hline, if_pos hends]
    exact ⟨after, rfl, hafter⟩
  | cons line init ih =>
    obtain ⟨fuel, rfl⟩ := Nat.exists_eq_succ_of_ne_zero (Nat.ne_zero_of_lt hfuel)
    obtain ⟨next, hpop, hnext⟩ := popLine_cons hlines
    have hnone : ')' ∉ before ++ trim line ++ " " := by
      simp only [List.mem_append, not_or]
      exact ⟨⟨hbefore, fun hm => hinit line (by simp) ((trim_sublist line).subset hm)⟩, by decide⟩
    have happend : before ++ trim line ++ " " ++ glued (init ++ [last]) = before ++ glued (line :: init ++ [last]) := by
      simp [glued]
    have hgoes {opened : Nat} : (decide (0 < opened) && opened == 0) = false ∧ ¬ opened < 0 := by
      cases opened <;> simp
    rw [readDeclaration_line hpop (hplain line (by simp)), List.count_eq_zero.mpr hnone, hgoes.1, if_neg hgoes.2,
      ← happend]
    exact ih fuel _ hnext (Nat.lt_of_succ_lt_succ hfuel) (fun l hl => hplain l (List.mem_cons_of_mem _ hl)) hnone
      (fun l hl => hinit l (List.mem_cons_of_mem _ hl)) (happend ▸ hopened) (happend ▸ hclosed)

/-- A line that begins a function head and holds nothing that comes before one. -/
structure Begins (first : Text) : Prop where
  opened : '(' ∈ first
  unbraced : '\x7b' ∉ first
  native : isForeign first = false

theorem Begins.opensPrototype {first : Text} (h : Begins first) : opensPrototype first = true := by
  rw [Function.opensPrototype, h.native, List.elem_eq_mem, decide_eq_true h.opened]
  rfl

theorem Begins.readInformation {first : Text} (h : Begins first) {reader : TokenReader} {others : List Text}
    (hlines : reader.lines = first :: others) (fuel : Nat) :
    readInformation (fuel + 1) reader =
      if isInformation first then
        (first :: (readInformation fuel reader.popLine.2).1, (readInformation fuel reader.popLine.2).2)
      else ([], reader) := by
  have hpeek : reader.peekLine? = some first := by rw [peekLine?, hlines, List.head?_cons]
  have hblank : isAllBlank first = false := by
    rw [isAllBlank, List.all_eq_false]
    exact ⟨'(', h.opened, by decide⟩
  rw [Function.readInformation, hpeek]
  dsimp only
  rw [hblank, List.elem_eq_mem, decide_eq_false h.unbraced]
  rfl

theorem readEntries_of_empty {reader : TokenReader} (h : reader.lines = []) (fuel : Nat) :
    readEntries fuel reader = ([], reader) := by
  cases fuel with
  | zero => rfl
  | succ fuel =>
    have hpeek : reader.peekLine? = none := by rw [peekLine?, h, List.head?_nil]
    have hnone : Function.readInformation reader.lines.length reader = ([], reader) := by
      rw [h]
      rfl
    rw [readEntries, hnone]
    dsimp only
    rw [hpeek, (Advances.refl reader).restore_mark]
    rfl

/-- A function head on lines of its own is all that is read. -/
theorem parse_alone {reader after : TokenReader} {first : Text} {others : List Text} {prototype : Prototype}
    (hlines : reader.lines = first :: others) (h : Begins first) (hfirst : isInformation first = false)
    (hread : readPrototype reader = (some prototype, after)) (hafter : after.lines = []) :
    parse reader =
      (.parsed ("<funcsynopsis>\n" ++ (prototype.markup ++ "\n") ++ "</funcsynopsis>", [prototype.name]), after) := by
  have hpeek : reader.peekLine? = some first := by rw [peekLine?, hlines, List.head?_cons]
  have hnone : Function.readInformation reader.lines.length reader = ([], reader) := by
    have hinformation := h.readInformation hlines others.length
    rw [hlines, List.length_cons, hinformation, hfirst]
    rfl
  have hopens : (some first).any Function.opensPrototype = true := h.opensPrototype
  have hentries : readEntries (reader.lines.length + 1) reader = ([{ information := [], prototype }], after) := by
    rw [readEntries, hnone]
    dsimp only
    rw [hpeek, hopens, hread, Bool.not_true, if_neg Bool.false_ne_true]
    dsimp only
    rw [readEntries_of_empty hafter]
  unfold parse
  rw [hpeek]
  dsimp only
  rw [h.native, hentries]
  simp [Entry.markup]

/-- Where the first line tells how to compile, no function head is found after it. -/
theorem parse_of_isInformation {reader : TokenReader} {first : Text} {others : List Text}
    (hlines : reader.lines = first :: others) (h : Begins first) (hfirst : isInformation first = true)
    (hothers : ∀ line ∈ others, '(' ∉ line) : (parse reader).1 = .declined := by
  have hpeek : reader.peekLine? = some first := by rw [peekLine?, hlines, List.head?_cons]
  obtain ⟨next, hpop, hnext⟩ := popLine_cons hlines
  have hentries : (readEntries (reader.lines.length + 1) reader).1 = [] := by
    have hinformation := h.readInformation hlines others.length
    obtain ⟨⟨taken, htaken, _⟩, _⟩ := (lineStep_readInformation others.length next).advances
    have hclosed : (Function.readInformation others.length next).2.peekLine?.any Function.opensPrototype = false := by
      cases hline : (Function.readInformation others.length next).2.peekLine? with
      | none => rfl
      | some line =>
        have hm : line ∈ others := by
          rw [← hnext, htaken]
          exact List.mem_append_right _ (List.mem_of_mem_head? hline)
        rw [Option.any_some, Function.opensPrototype, List.elem_eq_mem, decide_eq_false (hothers line hm)]
        rfl
    rw [readEntries, hlines, List.length_cons, hinformation, hfirst, if_pos rfl, hpop]
    dsimp only
    rw [hclosed]
    rfl
  unfold parse
  rw [hpeek]
  dsimp only
  rw [h.native]
  generalize readEntries (reader.lines.length + 1) reader = found at hentries
  obtain ⟨entries, after⟩ := found
  obtain rfl : entries = [] := hentries
  rfl

end Function

/-- How a function head is written up to its closing parenthesis: with any white space, and with line breaks after the
opening parenthesis only. -/
structure Layout (specifiers : List Specifier) (name : Identifier) (parts : List (List Text)) where
  before : Text
  inside : Text
  spells_before : Spells (specifiers.map (·.1) ++ [name.1]) before
  spells_inside : Spells (separated parts) inside
  one_line : '\n' ∉ before

namespace Layout
variable {specifiers : List Specifier} {name : Identifier} {parts : List (List Text)} {parameters : List Parameter}
  (layout : Layout specifiers name parts) (trailer : Text)

def text : Text :=
  layout.before ++ '(' :: (layout.inside ++ ')' :: trailer)

def lines : List Text :=
  splitOn '\n' (layout.text trailer)

theorem tokens_text : tokens (layout.text trailer) =
    specifiers.map (·.1) ++ name.1 :: ("(" : Text) :: (separated parts ++ (")" : Text) :: tokens trailer) := by
  rw [text, tokens_append_mark (by decide) (by decide) (by decide),
    tokens_append_mark (by decide) (by decide) (by decide), layout.spells_before.tokens, layout.spells_inside.tokens,
    List.append_assoc]
  rfl

theorem notMem_before {c : Char} (h : c ∈ ']' :: strangers) : c ∉ layout.before := by
  have hall : ∀ c ∈ ']' :: strangers, isBlank c = false ∧ c.isAlphanum = false ∧ c ≠ '_' ∧ c ≠ '*' :=
    forall_mem_of_all (by decide)
  obtain ⟨hblank, hletter, hunderscore, hstar⟩ := hall c h
  refine layout.spells_before.notMem hblank fun token hm => ?_
  rcases List.mem_append.mp hm with hm | hm
  · obtain ⟨specifier, _, rfl⟩ := List.mem_map.mp hm
    exact specifier.notMem hletter hunderscore hstar
  · rw [List.mem_singleton.mp hm]
    exact name.notMem hletter hunderscore

section
variable {trailer} (h : List.Forall₂ Part parts parameters) (ht : ∀ c ∈ trailer, c = ';')
include h

theorem notMem_inside {c : Char} (hc : c ∈ strangers) : c ∉ layout.inside := by
  have hall : ∀ c ∈ strangers, isBlank c = false := forall_mem_of_all (by decide)
  exact layout.spells_inside.notMem (hall c hc) fun token hm => unmarked_separated h token hm c hc

include ht

theorem count_text : (layout.text trailer).count '(' = 1 ∧ (layout.text trailer).count ')' = 1 := by
  have hbefore {c : Char} (hc : c ∈ strangers) : layout.before.count c = 0 :=
    List.count_eq_zero.mpr (layout.notMem_before (List.mem_cons_of_mem _ hc))
  have hinside {c : Char} (hc : c ∈ strangers) : layout.inside.count c = 0 :=
    List.count_eq_zero.mpr (layout.notMem_inside h hc)
  have htrailer {c : Char} (hc : c ≠ ';') : trailer.count c = 0 :=
    List.count_eq_zero.mpr fun hm => hc (ht c hm)
  have hopen : '(' ∈ strangers ∧ ')' ∈ strangers := by decide
  simp [text, hbefore hopen.1, hbefore hopen.2, hinside hopen.1, hinside hopen.2,
    htrailer (c := '(') (by decide), htrailer (c := ')') (by decide)]

theorem notMem_text {c : Char} (hc : c ∈ strangers) (hne : c ≠ '(' ∧ c ≠ ')') : c ∉ layout.text trailer := by
  have hall : ∀ c ∈ strangers, c ≠ ';' := forall_mem_of_all (by decide)
  simp only [text, List.mem_append, List.mem_cons, not_or]
  exact ⟨layout.notMem_before (List.mem_cons_of_mem _ hc), hne.1, layout.notMem_inside h hc, hne.2,
    fun hm => hall c hc (ht c hm)⟩

/-- The first line of a function head opens the list. -/
theorem exists_first : ∃ first others, layout.lines trailer = (layout.before ++ '(' :: first) :: others ∧
    ∀ line ∈ others, '(' ∉ line := by
  obtain ⟨first, others, hfirst, hopened⟩ := splitBy_cons (· == '\n') '(' (layout.inside ++ ')' :: trailer)
  have hbefore : ∀ c ∈ layout.before, (c == '\n') = false := fun c hc =>
    beq_eq_false_iff_ne.mpr fun he => layout.one_line (he ▸ hc)
  refine ⟨first, others, splitBy_append_of_free hbefore hopened, fun line hm hc => ?_⟩
  have hrest := mem_of_mem_splitBy (hfirst ▸ List.mem_cons_of_mem first hm) hc
  rcases List.mem_append.mp hrest with hin | hin
  · exact layout.notMem_inside h (by decide) hin
  · rcases List.mem_cons.mp hin with he | hin
    · cases he
    · exact absurd (ht _ hin) (by decide)

/-- The last line of a function head closes the list, and no other line does. -/
theorem exists_last : ∃ init last, layout.lines trailer = init ++ [last ++ ')' :: trailer] ∧
    (∀ line ∈ init, ')' ∉ line) ∧ ')' ∉ last := by
  have hend : ∀ c ∈ ')' :: trailer, (c == '\n') = false := by
    intro c hc
    rcases List.mem_cons.mp hc with rfl | hc
    · decide
    · rw [ht c hc]
      decide
  have htext : layout.text trailer = (layout.before ++ '(' :: layout.inside) ++ ')' :: trailer := by simp [text]
  obtain ⟨init, last, hopen, hlines⟩ := splitBy_append_free hend (layout.before ++ '(' :: layout.inside)
  have hnone {line : Text} (hm : line ∈ init ++ [last]) : ')' ∉ line := by
    intro hc
    rcases List.mem_append.mp (mem_of_mem_splitBy (hopen ▸ hm) hc) with hin | hin
    · exact layout.notMem_before (by decide) hin
    · rcases List.mem_cons.mp hin with he | hin
      · cases he
      · exact layout.notMem_inside h (by decide) hin
  exact ⟨init, last, (congrArg (splitOn '\n') htext).trans hlines, fun line hm => hnone (List.mem_append_left _ hm),
    hnone (List.mem_append_right _ (List.mem_singleton_self last))⟩

/-- The lines of a function head are put together again, and its tokens are the same. -/
theorem readDeclaration_lines {reader : TokenReader} {rest : List Text}
    (hlines : reader.lines = layout.lines trailer ++ rest) :
    ∃ t after, Function.readDeclaration reader.lines.length [] reader = (some t, after) ∧ after.lines = rest ∧
      tokens t = tokens (layout.text trailer) := by
  obtain ⟨init, last, hends, hinit, _⟩ := layout.exists_last h ht
  have hcount {c : Char} (hb : isBlank c = false) : (Function.glued (layout.lines trailer)).count c =
      (layout.text trailer).count c := by
    have hc : c ≠ '\n' := by
      rintro rfl
      cases hb
    rw [Function.count_glued hb, lines, count_flatten_splitOn hc]
  obtain ⟨hopened, hclosed⟩ := layout.count_text h ht
  have hplain : ∀ line ∈ layout.lines trailer, '&' ∉ line := fun line hm hc =>
    layout.notMem_text h ht (by decide) (by decide) (mem_of_mem_splitBy hm hc)
  have htokens : tokens (Function.glued (layout.lines trailer)) = tokens (layout.text trailer) :=
    (Function.tokens_glued _).trans (tokens_splitOn _)
  rw [hends] at hlines hcount hplain htokens
  rw [List.append_assoc] at hlines
  obtain ⟨after, hread, hafter⟩ := Function.readDeclaration_glued reader.lines.length [] hlines
    (by
      rw [hlines, List.length_append, List.length_append, List.length_singleton]
      omega)
    hplain List.not_mem_nil hinit
    (by
      rw [List.nil_append, ← List.count_pos_iff, hcount (by decide), hopened]
      decide)
    (by rw [List.nil_append, hcount (by decide), hcount (by decide), hopened, hclosed])
  exact ⟨_, after, hread, hafter, htokens⟩

/-- The first line begins a function head if it has no brackets as in a list of options. -/
theorem begins {first : Text} {others : List Text} (hlines : layout.lines trailer = first :: others)
    (hbrackets : contains first "] [" = false) : Function.Begins first where
  opened := by
    obtain ⟨more, _, hfirst, _⟩ := layout.exists_first h ht
    rw [(List.cons.inj (hlines.symm.trans hfirst)).1]
    simp
  unbraced := fun hc =>
    layout.notMem_text h ht (by decide) (by decide) (mem_of_mem_splitBy (hlines ▸ List.mem_cons_self) hc)
  native := by
    have hbar : '|' ∉ first := fun hc =>
      layout.notMem_text h ht (by decide) (by decide) (mem_of_mem_splitBy (hlines ▸ List.mem_cons_self) hc)
    have hreopened : contains first ") (" = false := by
      obtain ⟨init, last, hends, hinit, hlast⟩ := layout.exists_last h ht
      cases init with
      | nil =>
        have hend : contains (')' :: trailer) ") (" = false := by
          rw [Bool.eq_false_iff]
          intro hcontains
          rcases List.mem_cons.mp (mem_of_contains hcontains (c := ' ') (by decide)) with he | hm
          · cases he
          · exact absurd (ht _ hm) (by decide)
        rw [(List.cons.inj (hlines.symm.trans hends)).1]
        exact (contains_append hlast).trans hend
      | cons line init =>
        rw [(List.cons.inj (hlines.symm.trans hends)).1, Bool.eq_false_iff]
        exact fun hcontains => hinit line List.mem_cons_self (mem_of_contains hcontains (by decide))
    rw [Function.isForeign, hreopened, hbrackets, List.elem_eq_mem, decide_eq_false hbar]
    rfl

theorem isInformation_first {first : Text} {others : List Text} (hlines : layout.lines trailer = first :: others) :
    Function.isInformation first = Function.tellsToCompile first := by
  have hopened : '(' ∈ first := by
    obtain ⟨more, _, hfirst, _⟩ := layout.exists_first h ht
    rw [(List.cons.inj (hlines.symm.trans hfirst)).1]
    simp
  have hdirective : startsWith (trimStart first) "#" = false := by
    rw [Bool.eq_false_iff]
    intro hstarts
    have hm : '#' ∈ trimStart first := ((dropStart?_isSome_iff _ _).mp hstarts).subset List.mem_cons_self
    exact layout.notMem_text h ht (by decide) (by decide)
      (mem_of_mem_splitBy (hlines ▸ List.mem_cons_self) ((List.dropWhile_sublist _).subset hm))
  rw [Function.isInformation, hdirective, List.elem_eq_mem, decide_eq_true hopened, Bool.not_true, Bool.and_false,
    Bool.or_false, Bool.false_or]
  rfl

end

/-- A function head that a semicolon ends is read from its list alone. -/
theorem readPrototype_closed (h : List.Forall₂ Part parts parameters) (reader : TokenReader) (rest : List Text)
    (hlines : reader.lines = layout.lines ";" ++ rest) :
    ∃ after, Function.readPrototype reader =
      (some { returnType := joinTokens (specifiers.map (·.1)), name := name.1, parameters }, after) ∧
        after.lines = rest := by
  obtain ⟨t, after, hread, hafter, htokens⟩ := layout.readDeclaration_lines h
    (forall_mem_of_all (by decide)) hlines
  have hsemicolon : tokens ";" = [(";" : Text)] := rfl
  have hparse := parse?_of_tokens (htokens.trans (layout.tokens_text ";")) h (.inr hsemicolon)
  unfold Function.readPrototype
  rw [hread]
  dsimp only
  rw [hparse]
  exact ⟨after, rfl, hafter⟩

end Layout

end RoffDocBook.Synopsis
