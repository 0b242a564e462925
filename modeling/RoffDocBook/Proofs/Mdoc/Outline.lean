import RoffDocBook.Mdoc.Synopsis

/-! The synopsis of a command as an outline of elements and brackets. An ellipsis belongs to the element or the bracket
right before it, and the markup of that one shows it; only the group of a bracket with alternatives does not. -/
namespace RoffDocBook.Mdoc
open Text

/-- What the tokens of a synopsis come down to. -/
inductive Symbol where
  | element (markup : Text)
  | opening
  | closing
  /-- The bar between alternatives. -/
  | bar
  | ellipsis
  deriving DecidableEq

/-- A synopsis in which each bracket that is opened is closed: its first symbol, what is inside the bracket if it opens
one, and what comes after that. -/
inductive Outline where
  | nil
  | element (markup : Text) (rest : Outline)
  | bracket (inside rest : Outline)
  | bar (rest : Outline)
  | ellipsis (rest : Outline)

/-- An element or a bracket, and whether an ellipsis follows it. -/
inductive Item where
  | element (markup : Text) (repeats : Bool)
  | bracket (alternatives : List (List Item)) (repeats : Bool)

namespace Outline

/-- The symbols of a synopsis in order. -/
def symbols : Outline → List Symbol
  | nil => []
  | element markup rest => .element markup :: rest.symbols
  | bracket inside rest => .opening :: inside.symbols ++ .closing :: rest.symbols
  | bar rest => .bar :: rest.symbols
  | ellipsis rest => .ellipsis :: rest.symbols

/-- Whether an ellipsis comes next. -/
def repeats : Outline → Bool
  | ellipsis _ => true
  | _ => false

def append : Outline → Outline → Outline
  | nil, other => other
  | element markup rest, other => .element markup (rest.append other)
  | bracket inside rest, other => .bracket inside (rest.append other)
  | bar rest, other => .bar (rest.append other)
  | ellipsis rest, other => .ellipsis (rest.append other)

/-- The items between the bars. An item repeats if an ellipsis comes right after it. -/
def alternatives : Outline → List (List Item)
  | nil => [[]]
  | element markup rest => rest.alternatives.modifyHead (.element markup rest.repeats :: ·)
  | bracket inside rest => rest.alternatives.modifyHead (.bracket inside.alternatives rest.repeats :: ·)
  | bar rest => [] :: rest.alternatives
  | ellipsis rest => rest.alternatives

/-- The outline up to a bracket's end that belongs to no bracket of the symbols, and those up to the further ones. A
bracket without an end is closed by the end of the symbols. -/
def read : List Symbol → Outline × List Outline
  | [] => (nil, [])
  | .element markup :: rest => ((read rest).1.element markup, (read rest).2)
  | .opening :: rest =>
    match read rest with
    | (inside, []) => (bracket inside nil, [])
    | (inside, next :: later) => (bracket inside next, later)
  | .closing :: rest => (nil, (read rest).1 :: (read rest).2)
  | .bar :: rest => ((read rest).1.bar, (read rest).2)
  | .ellipsis :: rest => ((read rest).1.ellipsis, (read rest).2)

/-- The outline of any symbols, where an end without a bracket stands for nothing. -/
def ofSymbols (symbols : List Symbol) : Outline :=
  (read symbols).2.foldl append (read symbols).1

end Outline

/-! The markup of an outline. -/

/-- An element of the markup for one argument. -/
def argumentMarkup (choice : Text) (repeats : Bool) (markup : Text) : Text :=
  "<arg choice='" ++ choice ++ "'" ++ (if repeats then " rep='repeat'" else "" : Text) ++ ">" ++ markup ++ "</arg>"

/-- The markup of a bracket without alternatives, where an element alone in it needs no markup of its own. -/
def bracketMarkup (items : List Item) (texts : List Text) (repeats : Bool) : Text :=
  match items with
  | [.element markup own] => argumentMarkup "opt" (own || repeats) markup
  | _ => argumentMarkup "opt" repeats (join " " texts)

/-- The markup of a bracket with alternatives, which does not show whether the bracket repeats. -/
def groupMarkup (texts : List (List Text)) : Text :=
  "<group choice='opt'>" ++ texts.flatMap (fun each => argumentMarkup "plain" false (join " " each)) ++ "</group>"

namespace Item

mutual

/-- The markup of an item inside a bracket, where an element that does not repeat needs no markup of its own. -/
def inner : Item → Text
  | element markup false => markup
  | element markup true => argumentMarkup "plain" true markup
  | bracket [items] repeats => bracketMarkup items (innerEach items) repeats
  | bracket alternatives _ => groupMarkup (innerAlternatives alternatives)

def innerEach : List Item → List Text
  | [] => []
  | item :: items => item.inner :: innerEach items

def innerAlternatives : List (List Item) → List (List Text)
  | [] => []
  | items :: others => innerEach items :: innerAlternatives others

end

/-- The markup of an item outside all brackets. -/
def outer : Item → Text
  | element markup repeats => argumentMarkup "plain" repeats markup
  | bracket alternatives repeats => (bracket alternatives repeats).inner

end Item

/-- The markup of the synopsis of a command, in which bars outside brackets count for nothing. -/
def Outline.markup (outline : Outline) (name : Text) : Text :=
  "<cmdsynopsis>\n<command>" ++ name ++ "</command>" ++
    outline.alternatives.flatten.flatMap (fun item => '\n' :: item.outer) ++ "\n</cmdsynopsis>"

/-! The pieces that a command collects. -/

/-- What a symbol does to the synopsis that is being collected. -/
def Command.add (command : Command) : Symbol → Command
  | .element markup => command.push (.argument markup false false)
  | .opening => command.openBracket
  | .closing => command.closeBracket
  | .bar => command.push .separator
  | .ellipsis => command.markRepeated

namespace Piece

theorem repeated_repeated (piece : Piece) : piece.repeated.repeated = piece.repeated := by
  cases piece <;> rfl

/-- The innermost pieces, most recent first, after all brackets are closed in which they are. -/
def closeAll : List Piece → List (List Piece) → List Piece
  | pieces, [] => pieces
  | pieces, before :: outer => closeAll (bracket pieces.reverse :: before) outer

end Piece

theorem Command.closed_pieces (command : Command) :
    (command.outer.foldl (fun command _ => command.closeBracket) command).pieces =
      Piece.closeAll command.pieces command.outer := by
  obtain ⟨name, pieces, outer⟩ := command
  induction outer generalizing pieces with
  | nil => rfl
  | cons before outer ih => exact ih (Piece.bracket pieces.reverse :: before)

namespace Outline

/-- The pieces of an outline in order. -/
def pieces : Outline → List Piece
  | nil => []
  | element markup rest => .argument markup false rest.repeats :: rest.pieces
  | bracket inside rest =>
    (if rest.repeats then (Piece.bracket inside.pieces).repeated else Piece.bracket inside.pieces) :: rest.pieces
  | bar rest => .separator :: rest.pieces
  | ellipsis rest => rest.pieces

/-- Pieces, most recent first, with those of an outline after them. -/
def onto (outline : Outline) (before : List Piece) : List Piece :=
  outline.pieces.reverse ++ if outline.repeats then before.modifyHead Piece.repeated else before

variable (rest : Outline) (before : List Piece)

theorem onto_nil : nil.onto before = before :=
  rfl

theorem onto_empty (outline : Outline) : outline.onto [] = outline.pieces.reverse := by
  rw [onto, List.modifyHead_nil, ite_self, List.append_nil]

/-- The first piece of an outline is marked by what comes after it. -/
theorem onto_cons {outline : Outline} {first : Piece} (single : outline.repeats = false)
    (list : outline.pieces = (if rest.repeats then first.repeated else first) :: rest.pieces) :
    outline.onto before = rest.onto (first :: before) := by
  rw [onto, onto, single, list, List.reverse_cons, List.append_assoc]
  cases rest.repeats <;> rfl

theorem onto_element (markup : Text) :
    (element markup rest).onto before = rest.onto (.argument markup false false :: before) := by
  refine onto_cons rest before rfl ?_
  rw [pieces]
  cases rest.repeats <;> rfl

theorem onto_bracket (inside : Outline) :
    (bracket inside rest).onto before = rest.onto (Piece.bracket inside.pieces :: before) :=
  onto_cons rest before rfl rfl

theorem onto_bar : (bar rest).onto before = rest.onto (.separator :: before) :=
  onto_cons rest before rfl (congrArg (· :: rest.pieces) (ite_self _).symm)

/-- An ellipsis marks the last piece, and one mark is as good as two. -/
theorem onto_ellipsis : (ellipsis rest).onto before = rest.onto (before.modifyHead Piece.repeated) := by
  have twice : (before.modifyHead Piece.repeated).modifyHead Piece.repeated = before.modifyHead Piece.repeated := by
    cases before with
    | nil => rfl
    | cons piece before => exact congrArg (· :: before) piece.repeated_repeated
  rw [onto, onto, twice, ite_self]
  rfl

theorem onto_append (first second : Outline) (before : List Piece) :
    (first.append second).onto before = second.onto (first.onto before) := by
  induction first generalizing before with
  | nil => rfl
  | element markup rest ih => rw [append, onto_element, onto_element, ih]
  | bracket inside rest _ ih => rw [append, onto_bracket, onto_bracket, ih]
  | bar rest ih => rw [append, onto_bar, onto_bar, ih]
  | ellipsis rest ih => rw [append, onto_ellipsis, onto_ellipsis, ih]

/-- Pieces with those of outlines after them, where a bracket ends before each of the outlines. -/
def ontoEach : List Outline → List Piece → List (List Piece) → List Piece
  | [], pieces, outer => Piece.closeAll pieces outer
  | next :: later, pieces, [] => ontoEach later (next.onto pieces) []
  | next :: later, pieces, before :: outer =>
    ontoEach later (next.onto (Piece.bracket pieces.reverse :: before)) outer

/-- Without an open bracket the ends stand for nothing. -/
theorem ontoEach_nil (later : List Outline) (outline : Outline) :
    ontoEach later (outline.onto []) [] = (later.foldl append outline).onto [] := by
  induction later generalizing outline with
  | nil => rfl
  | cons next later ih => rw [ontoEach, ← onto_append, ih, List.foldl_cons]

/-- What a command holds after some symbols is what their outlines put into it. -/
theorem closeAll_foldl_add (symbols : List Symbol) (command : Command) :
    Piece.closeAll (symbols.foldl Command.add command).pieces (symbols.foldl Command.add command).outer =
      ontoEach (read symbols).2 ((read symbols).1.onto command.pieces) command.outer := by
  -- Brackets may stay open, so the pieces are compared after all of them are closed, and for any command.
  induction symbols generalizing command with
  | nil => rfl
  | cons symbol symbols ih =>
    rw [List.foldl_cons, ih]
    cases symbol with
    | element markup => rw [read, onto_element]; rfl
    | opening =>
      rw [read]
      split
      · rename_i inside same
        rw [same, onto_bracket, onto_nil]
        have closed := congrArg List.reverse inside.onto_empty
        rw [List.reverse_reverse] at closed
        exact congrArg (fun pieces => Piece.closeAll (Piece.bracket pieces :: command.pieces) command.outer) closed
      · rename_i inside next later same
        rw [same, onto_bracket]
        have closed := congrArg List.reverse inside.onto_empty
        rw [List.reverse_reverse] at closed
        exact congrArg (fun pieces => ontoEach later (next.onto (Piece.bracket pieces :: command.pieces)) command.outer)
          closed
    | closing =>
      obtain ⟨name, pieces, outer⟩ := command
      cases outer with
      | nil => rfl
      | cons before outer => rfl
    | bar => rw [read, onto_bar]; rfl
    | ellipsis =>
      have marked : (command.add .ellipsis).pieces = command.pieces.modifyHead Piece.repeated ∧
          (command.add .ellipsis).outer = command.outer := by
        obtain ⟨name, pieces, outer⟩ := command
        cases pieces <;> exact ⟨rfl, rfl⟩
      rw [read, onto_ellipsis, marked.1, marked.2]

theorem append_nil (outline : Outline) : outline.append nil = outline := by
  induction outline with
  | nil => rfl
  | element markup rest ih => rw [append, ih]
  | bracket inside rest _ ih => rw [append, ih]
  | bar rest ih => rw [append, ih]
  | ellipsis rest ih => rw [append, ih]

theorem read_symbols_append (outline : Outline) (after : List Symbol) :
    read (outline.symbols ++ after) = (outline.append (read after).1, (read after).2) := by
  induction outline generalizing after with
  | nil => rfl
  | element markup rest ih => rw [symbols, List.cons_append, read, ih, append]
  | bracket inside rest ihInside ih =>
    rw [symbols, List.cons_append, List.cons_append, List.append_assoc, List.cons_append, read, ihInside, read,
      append_nil, ih, append]
  | bar rest ih => rw [symbols, List.cons_append, read, ih, append]
  | ellipsis rest ih => rw [symbols, List.cons_append, read, ih, append]

/-- The outline of the symbols of an outline is that outline. -/
theorem ofSymbols_symbols (outline : Outline) : ofSymbols outline.symbols = outline := by
  have whole := read_symbols_append outline []
  rw [List.append_nil, read, append_nil] at whole
  rw [ofSymbols, whole]
  rfl

end Outline

/-! The markup of the pieces. -/

namespace Piece

theorem alternatives_ne_nil (pieces : List Piece) : alternatives pieces ≠ [] := by
  cases pieces with
  | nil => exact List.cons_ne_nil _ _
  | cons piece pieces =>
    rw [alternatives]
    split
    · exact List.cons_ne_nil _ _
    · split <;> exact List.cons_ne_nil _ _

theorem alternatives_separator (pieces : List Piece) :
    alternatives (.separator :: pieces) = [] :: alternatives pieces := by
  obtain ⟨first, others, same⟩ := List.exists_cons_of_ne_nil (alternatives_ne_nil pieces)
  rw [alternatives, same]
  rfl

theorem alternatives_cons {piece : Piece} (h : piece ≠ .separator) (pieces : List Piece) :
    alternatives (piece :: pieces) = (alternatives pieces).modifyHead (piece :: ·) := by
  obtain ⟨first, others, same⟩ := List.exists_cons_of_ne_nil (alternatives_ne_nil pieces)
  rw [alternatives, same]
  exact if_neg (by simpa using h)

theorem flatten_alternatives (pieces : List Piece) :
    (alternatives pieces).flatten = pieces.filter fun piece => piece != .separator := by
  induction pieces with
  | nil => rfl
  | cons piece pieces ih =>
    by_cases h : piece = .separator
    · rw [h, alternatives_separator, List.flatten_cons, ih]
      rfl
    · obtain ⟨first, others, same⟩ := List.exists_cons_of_ne_nil (alternatives_ne_nil pieces)
      have kept : (piece != .separator) = true := by simpa using h
      rw [alternatives_cons h, List.filter_cons, if_pos kept, ← ih, same]
      rfl

/-- Without a bar the pieces are the only alternative. -/
theorem eq_of_alternatives {pieces only : List Piece} (h : alternatives pieces = [only]) : pieces = only := by
  induction pieces generalizing only with
  | nil => exact (List.cons.inj h).1
  | cons piece pieces ih =>
    by_cases bar : piece = .separator
    · rw [bar, alternatives_separator] at h
      exact absurd (List.cons.inj h).2 (alternatives_ne_nil pieces)
    · obtain ⟨first, others, same⟩ := List.exists_cons_of_ne_nil (alternatives_ne_nil pieces)
      rw [alternatives_cons bar, same] at h
      obtain ⟨rfl, rfl⟩ := List.cons.inj h
      rw [ih same]

theorem bracket_group {pieces first second : List Piece} {others : List (List Piece)}
    (h : alternatives pieces = first :: second :: others) :
    bracket pieces = group
      ("<group choice='opt'>" ++
        (first :: second :: others).flatMap
          (fun pieces => ("<arg choice='plain'>" ++ joinInner pieces ++ "</arg>" : Text)) ++
        "</group>") := by
  unfold bracket
  rw [h]

end Piece

namespace Item

theorem innerEach_eq (items : List Item) : innerEach items = items.map inner := by
  induction items with
  | nil => rfl
  | cons item items ih => rw [innerEach, ih, List.map_cons]

theorem innerAlternatives_eq (alternatives : List (List Item)) :
    innerAlternatives alternatives = alternatives.map innerEach := by
  induction alternatives with
  | nil => rfl
  | cons items others ih => rw [innerAlternatives, ih, List.map_cons]

/-- The piece that a bracket without alternatives is collected as. -/
def bracketPiece (items : List Item) (texts : List Text) (repeats : Bool) : Piece :=
  match items with
  | [element markup own] => .argument markup true (own || repeats)
  | _ => .argument (join " " texts) true repeats

/-- The piece that an item is collected as. -/
def piece : Item → Piece
  | element markup repeats => .argument markup false repeats
  | bracket [items] repeats => bracketPiece items (innerEach items) repeats
  | bracket alternatives _ => .group (groupMarkup (innerAlternatives alternatives))

/-- A bracket is collected as an argument that can be left out, or as a group. -/
theorem piece_bracket (alternatives : List (List Item)) (repeats : Bool) :
    (∃ markup mark, (bracket alternatives repeats).piece = .argument markup true mark ∧
        (bracket alternatives repeats).inner = argumentMarkup "opt" mark markup) ∨
      ∃ markup, (bracket alternatives repeats).piece = .group markup ∧
        (bracket alternatives repeats).inner = markup := by
  match alternatives with
  | [] | _ :: _ :: _ => exact .inr ⟨_, rfl, rfl⟩
  | [items] =>
    refine .inl ?_
    rw [piece, inner]
    unfold bracketPiece bracketMarkup
    split <;> exact ⟨_, _, rfl, rfl⟩

theorem inner_piece (item : Item) : item.piece.inner = item.inner := by
  cases item with
  | element markup repeats => cases repeats <;> rfl
  | bracket alternatives repeats =>
    rcases piece_bracket alternatives repeats with ⟨markup, mark, collected, written⟩ | ⟨markup, collected, written⟩
    · rw [collected, written]
      rfl
    · rw [collected, written]
      rfl

theorem outer_piece (item : Item) : item.piece.outer = item.outer := by
  cases item with
  | element markup repeats => rfl
  | bracket alternatives repeats =>
    rw [outer, ← inner_piece]
    rcases piece_bracket alternatives repeats with ⟨markup, mark, collected, _⟩ | ⟨markup, collected, _⟩
    · rw [collected]
      rfl
    · rw [collected]
      rfl

theorem piece_ne_separator (item : Item) : item.piece ≠ .separator := by
  cases item with
  | element markup repeats => exact Piece.noConfusion
  | bracket alternatives repeats =>
    rcases piece_bracket alternatives repeats with ⟨markup, mark, collected, _⟩ | ⟨markup, collected, _⟩
    · rw [collected]
      exact Piece.noConfusion
    · rw [collected]
      exact Piece.noConfusion

/-- Only an element is collected as an argument that has to be given. -/
theorem eq_element_of_piece {item : Item} {markup : Text} {repeats : Bool}
    (h : item.piece = .argument markup false repeats) : item = element markup repeats := by
  cases item with
  | element markup repeats =>
    cases h
    rfl
  | bracket alternatives own =>
    rcases piece_bracket alternatives own with ⟨text, mark, collected, _⟩ | ⟨text, collected, _⟩
    · rw [collected] at h
      cases h
    · rw [collected] at h
      cases h

theorem joinInner_pieces (items : List Item) : Piece.joinInner (items.map piece) = join " " (innerEach items) := by
  rw [Piece.joinInner, List.map_map, innerEach_eq]
  exact congrArg (join " ") (List.map_congr_left fun item _ => item.inner_piece)

/-- The pieces of a bracket without alternatives come to its piece. -/
theorem bracket_pieces_only {items : List Item} (single : Piece.alternatives (items.map piece) = [items.map piece]) :
    Piece.bracket (items.map piece) = (bracket [items] false).piece := by
  rw [piece]
  unfold bracketPiece
  split
  · rename_i markup own
    rw [Bool.or_false]
    rfl
  · rename_i several
    unfold Piece.bracket
    rw [single, joinInner_pieces]
    dsimp only
    split
    · rename_i markup own alone
      obtain ⟨item, rfl, same⟩ := List.map_eq_singleton_iff.mp alone
      exact absurd (congrArg ([·]) (eq_element_of_piece same)) (several markup own)
    · rfl

/-- The pieces of a bracket with alternatives come to a group. -/
theorem bracket_pieces_group {inside : List Piece} {first second : List Item} {others : List (List Item)}
    (same : Piece.alternatives inside = (first :: second :: others).map (List.map piece)) :
    Piece.bracket inside = (bracket (first :: second :: others) false).piece := by
  have each (items : List Item) : ("<arg choice='plain'>" ++ Piece.joinInner (items.map piece) ++ "</arg>" : Text) =
      argumentMarkup "plain" false (join " " (innerEach items)) := by
    rw [joinInner_pieces]
    rfl
  have texts : ((first :: second :: others).map (List.map piece)).flatMap
        (fun pieces => ("<arg choice='plain'>" ++ Piece.joinInner pieces ++ "</arg>" : Text)) =
      (innerAlternatives (first :: second :: others)).flatMap
        fun each => argumentMarkup "plain" false (join " " each) := by
    rw [innerAlternatives_eq, List.flatMap_map, List.flatMap_map]
    exact congrArg (List.flatMap · (first :: second :: others)) (funext each)
  rw [List.map_cons, List.map_cons] at same texts
  rw [Piece.bracket_group same, texts]
  rfl

/-- A bracket that repeats is collected as its piece with a mark. -/
theorem repeated_piece (alternatives : List (List Item)) :
    (bracket alternatives false).piece.repeated = (bracket alternatives true).piece := by
  match alternatives with
  | [] | _ :: _ :: _ => rfl
  | [items] =>
    rw [piece, piece]
    unfold bracketPiece
    split
    · rw [Bool.or_true]
      rfl
    · rfl

theorem bracket_pieces {inside : List Piece} {alternatives : List (List Item)}
    (same : Piece.alternatives inside = alternatives.map (List.map piece)) (repeats : Bool) :
    (if repeats then (Piece.bracket inside).repeated else Piece.bracket inside) =
      (bracket alternatives repeats).piece := by
  have plain : Piece.bracket inside = (bracket alternatives false).piece := by
    match alternatives with
    | [] => exact absurd same (Piece.alternatives_ne_nil inside)
    | [items] =>
      obtain rfl := Piece.eq_of_alternatives same
      exact bracket_pieces_only same
    | first :: second :: others => exact bracket_pieces_group same
  cases repeats with
  | false => exact plain
  | true => exact (congrArg Piece.repeated plain).trans (repeated_piece alternatives)

end Item

namespace Outline

/-- The items of an outline are collected as its pieces. -/
theorem alternatives_pieces (outline : Outline) :
    Piece.alternatives outline.pieces = outline.alternatives.map (List.map Item.piece) := by
  have first (item : Item) (rest : Outline)
      (ih : Piece.alternatives rest.pieces = rest.alternatives.map (List.map Item.piece)) :
      Piece.alternatives (item.piece :: rest.pieces) =
        (rest.alternatives.modifyHead (item :: ·)).map (List.map Item.piece) := by
    rw [Piece.alternatives_cons item.piece_ne_separator, ih]
    cases rest.alternatives <;> rfl
  induction outline with
  | nil => rfl
  | element markup rest ih => exact first (.element markup rest.repeats) rest ih
  | bracket inside rest ihInside ih =>
    rw [pieces, Item.bracket_pieces ihInside]
    exact first (.bracket inside.alternatives rest.repeats) rest ih
  | bar rest ih => rw [pieces, Piece.alternatives_separator, ih, alternatives, List.map_cons, List.map_nil]
  | ellipsis rest ih => exact ih

theorem flatMap_outer_pieces (outline : Outline) :
    (outline.pieces.filter fun piece => piece != .separator).flatMap (fun piece => '\n' :: piece.outer) =
      outline.alternatives.flatten.flatMap fun item => '\n' :: item.outer := by
  rw [← Piece.flatten_alternatives, alternatives_pieces, ← List.map_flatten, List.flatMap_map]
  exact congrArg (List.flatMap · outline.alternatives.flatten)
    (funext fun item => congrArg ('\n' :: ·) item.outer_piece)

end Outline

namespace Command

theorem name_add (command : Command) (symbol : Symbol) : (command.add symbol).name = command.name := by
  obtain ⟨name, pieces, outer⟩ := command
  cases symbol with
  | closing => cases outer <;> rfl
  | ellipsis => cases pieces <;> rfl
  | element | opening | bar => rfl

theorem name_foldl_add (symbols : List Symbol) (command : Command) :
    (symbols.foldl add command).name = command.name := by
  induction symbols generalizing command with
  | nil => rfl
  | cons symbol symbols ih => rw [List.foldl_cons, ih, name_add]

/-- A command that some symbols have been added to is written as their outline. -/
theorem markup_foldl_add (name : Text) (symbols : List Symbol) :
    (symbols.foldl add { name }).markup = (Outline.ofSymbols symbols).markup name := by
  have collected := Outline.closeAll_foldl_add symbols { name }
  rw [Outline.ontoEach_nil, Outline.onto_empty] at collected
  unfold markup Outline.markup
  dsimp only
  rw [closed_pieces, collected, List.reverse_reverse, Outline.flatMap_outer_pieces, name_foldl_add]
  rfl

end Command

end RoffDocBook.Mdoc
