import RoffDocBook.Mdoc.Synopsis
import RoffDocBook.Proofs.Mdoc.Outline

/-! The tokens on a line of a command's synopsis. Each of them stands for symbols of the outline, by what it is and by
the request it follows, and the synopsis that is being collected takes up these symbols and nothing else. -/
namespace RoffDocBook.Document
open Text

/-! The markup of a text does not depend on what the package keeps between requests, and leaves it alone. -/

/-- A document with another state of the package. -/
def withMdoc (doc : Document) (state : Mdoc.State) : Document :=
  { doc with mdoc := state }

section
variable (doc : Document) (state : Mdoc.State)

theorem recordEntity_withMdoc (name : String) :
    (doc.withMdoc state).recordEntity name = (doc.recordEntity name).withMdoc state := by
  have entities : (doc.withMdoc state).entities = doc.entities := rfl
  unfold recordEntity
  rw [entities]
  split <;> rfl

theorem namedGlyph_withMdoc (name : Text) :
    (doc.withMdoc state).namedGlyph name =
      ((doc.namedGlyph name).1, (doc.namedGlyph name).2.withMdoc state) := by
  have formatter : (doc.withMdoc state).formatter = doc.formatter := rfl
  unfold namedGlyph
  rw [formatter]
  split
  · rfl
  · split
    · split
      · rw [recordEntity_withMdoc]
      · rfl
    · split <;> rfl

theorem glyphMarkup_withMdoc (name : Text) :
    (doc.withMdoc state).glyphMarkup name =
      ((doc.glyphMarkup name).1, (doc.glyphMarkup name).2.withMdoc state) := by
  unfold glyphMarkup
  split
  · split
    · rfl
    · exact namedGlyph_withMdoc doc state _
  · exact namedGlyph_withMdoc doc state _

theorem renderPiece_withMdoc (piece : Inline.Piece) :
    (doc.withMdoc state).renderPiece piece =
      ((doc.renderPiece piece).1, (doc.renderPiece piece).2.withMdoc state) := by
  cases piece with
  | plain text => rfl
  | font name =>
    have fonts : (doc.withMdoc state).fonts = doc.fonts := rfl
    rw [renderPiece, renderPiece, fonts]
    split <;> rfl
  | glyph name => exact glyphMarkup_withMdoc doc state name
  | numbered number =>
    rw [renderPiece, renderPiece]
    split
    · split <;> rfl
    · rfl
  | width text => rfl

theorem renderPieces_withMdoc (pieces : List Inline.Piece) :
    (doc.withMdoc state).renderPieces pieces =
      ((doc.renderPieces pieces).1, (doc.renderPieces pieces).2.withMdoc state) := by
  induction pieces generalizing doc with
  | nil => rfl
  | cons piece pieces ih => simp only [renderPieces, renderPiece_withMdoc, ih]

theorem renderInline_withMdoc (text : Text) :
    (doc.withMdoc state).renderInline text =
      ((doc.renderInline text).1, (doc.renderInline text).2.withMdoc state) := by
  have fonts : (doc.withMdoc state).fonts = doc.fonts := rfl
  unfold renderInline
  rw [fonts]
  dsimp only
  split
  · exact congrArg (fun result : Text × Document => (_ ++ result.1, result.2))
      (renderPieces_withMdoc { doc with fonts := { doc.fonts with opened := true } } state _)
  · exact congrArg (fun result : Text × Document => (_ ++ result.1, result.2))
      (renderPieces_withMdoc doc state _)

theorem renderIsolated_withMdoc (text : Text) :
    (doc.withMdoc state).renderIsolated text =
      ((doc.renderIsolated text).1, (doc.renderIsolated text).2.withMdoc state) := by
  have rendered := renderInline_withMdoc { doc with fonts := {} } state text
  unfold renderIsolated
  dsimp only
  exact congrArg (fun rendered : Text × Document =>
    let result := { rendered.2 with fonts := doc.fonts }.interpolate (rendered.1 ++ rendered.2.fonts.closing)
    (Inline.stripMotions result.1, result.2)) rendered

theorem renderIsolated_mdoc (text : Text) : (doc.renderIsolated text).2.mdoc = doc.mdoc :=
  congrArg (fun result : Text × Document => result.2.mdoc) (renderIsolated_withMdoc doc doc.mdoc text)

end

/-- A document with another synopsis of a command. -/
def withCommand (doc : Document) (command : Mdoc.Command) : Document :=
  doc.withMdoc { doc.mdoc with command := some command }

theorem renderIsolated_withCommand (doc : Document) (command : Mdoc.Command) (text : Text) :
    (doc.withCommand command).renderIsolated text =
      ((doc.renderIsolated text).1, (doc.renderIsolated text).2.withCommand command) := by
  unfold withCommand
  rw [renderIsolated_withMdoc, renderIsolated_mdoc]

end RoffDocBook.Document

/-! The words and the clauses of a synopsis, and what they stand for. -/
namespace RoffDocBook.Mdoc
open Text Markup

theorem isCallable_of_isPunctuation {token : Text} (h : isPunctuation token = true) : isCallable token = false := by
  have long : ∀ name ∈ callable, name.length ≠ 1 := by decide
  have short : token.length = 1 := by
    unfold isPunctuation isClosing isOpening at h
    split at h
    · rfl
    · rename_i several
      have known (c : Char) : (token == [c]) = false := beq_eq_false_iff_ne.mpr (several c)
      simp [known] at h
  refine Bool.eq_false_iff.mpr fun called => ?_
  exact long token (List.contains_iff_mem.mp called) short

/-- Whether a token stands for itself, as the text of an element. -/
abbrev IsText (token : Text) : Prop :=
  isCallable token = false ∧ isPunctuation token = false ∧ token ≠ "...".toList

/-- Whether a token is punctuation that counts for nothing in a synopsis. -/
abbrev IsMark (token : Text) : Prop :=
  isPunctuation token = true ∧ token ≠ ['|']

/-- A token that calls no request. -/
inductive Word where
  | text (token : Text) (plain : IsText token)
  | punctuation (token : Text) (mark : IsMark token)
  | bar
  | ellipsis

/-- The symbols that tokens stand for, as a document renders them. The state of the package has no part in it. -/
@[ext]
structure Reading where
  read : Document → List Symbol × Document
  read_mdoc (doc : Document) : (read doc).2.mdoc = doc.mdoc

namespace Reading

/-- Symbols for which nothing has to be rendered. -/
def of (symbols : List Symbol) : Reading :=
  ⟨fun doc => (symbols, doc), fun _ => rfl⟩

/-- A text as an element. -/
def text (enclose : Text → Text) (token : Text) : Reading :=
  ⟨fun doc => ([.element (enclose (doc.renderIsolated token).1)], (doc.renderIsolated token).2),
    fun doc => doc.renderIsolated_mdoc token⟩

def andThen (first second : Reading) : Reading :=
  ⟨fun doc => ((first.read doc).1 ++ (second.read (first.read doc).2).1, (second.read (first.read doc).2).2),
    fun doc => (second.read_mdoc (first.read doc).2).trans (first.read_mdoc doc)⟩

theorem andThen_assoc (first second third : Reading) :
    (first.andThen second).andThen third = first.andThen (second.andThen third) :=
  Reading.ext (funext fun doc => congrArg (·, (third.read (second.read (first.read doc).2).2).2)
    (List.append_assoc _ _ _))

theorem andThen_nothing (reading : Reading) : reading.andThen (of []) = reading :=
  Reading.ext (funext fun doc => congrArg (·, (reading.read doc).2) (List.append_nil _))

/-- The readings of a list one after the other. -/
def each {α : Type} (reading : α → Reading) : List α → Reading
  | [] => of []
  | first :: rest => (reading first).andThen (each reading rest)

end Reading

namespace Word

def token : Word → Text
  | text token _ => token
  | punctuation token _ => token
  | bar => ['|']
  | ellipsis => "...".toList

def isText : Word → Bool
  | text _ _ => true
  | _ => false

/-- A text is an element of the synopsis, and punctuation counts for nothing. -/
def reading (enclose : Text → Text) : Word → Reading
  | text token _ => .text enclose token
  | punctuation _ _ => .of []
  | bar => .of [.bar]
  | ellipsis => .of [.ellipsis]

theorem isCallable_token (word : Word) : isCallable word.token = false := by
  cases word with
  | text token plain => exact plain.1
  | punctuation token mark => exact isCallable_of_isPunctuation mark.1
  | bar => decide
  | ellipsis => decide

end Word

/-- The names of requests that keep words together or set the spacing. They cannot be called, yet they do not count as
words where no request takes them for its arguments. -/
def spacingWords : List Text :=
  ["Bk".toList, "Ek".toList, "Sm".toList]

/-- A word that can stand where no request takes it for its argument. -/
def LooseWord :=
  { word : Word // word.token ∉ spacingWords }

namespace LooseWord

def token (word : LooseWord) : Text :=
  word.1.token

def reading (word : LooseWord) : Reading :=
  word.1.reading stripTags

end LooseWord

/-- The requests whose arguments are elements of a synopsis. -/
inductive Kind where
  | flag
  | argument
  | command
  | internal

namespace Kind

def name : Kind → Text
  | flag => "Fl".toList
  | argument => "Ar".toList
  | command => "Cm".toList
  | internal => "Ic".toList

def tags : Kind → Text × Text
  | flag => ("<option>-", "</option>")
  | argument => ("<replaceable>", "</replaceable>")
  | command | internal => ("<option>", "</option>")

def enclose (kind : Kind) (markup : Text) : Text :=
  kind.tags.1 ++ markup ++ kind.tags.2

/-- What a request without a text stands for. -/
def fallback : Kind → List Symbol
  | flag => [.element "<option>-</option>"]
  | argument => [.element "<replaceable>file</replaceable>", .ellipsis]
  | command | internal => []

end Kind

/-- A request, also one that is called within a line, with the words before the next call. -/
inductive Clause where
  | elements (kind : Kind) (words : List Word)
  | opening (words : List LooseWord)
  | closing (words : List LooseWord)
  /-- A bracket around the rest of the line. -/
  | option (words : List LooseWord)

namespace Clause

def tokens : Clause → List Text
  | elements kind words => kind.name :: words.map Word.token
  | opening words => "Oo".toList :: words.map LooseWord.token
  | closing words => "Oc".toList :: words.map LooseWord.token
  | option words => "Op".toList :: words.map LooseWord.token

/-- What a clause and its words stand for. -/
def reading : Clause → Reading
  | elements kind words =>
    (Reading.each (Word.reading kind.enclose) words).andThen (.of (if words.any Word.isText then [] else kind.fallback))
  | opening words => (Reading.of [.opening]).andThen (.each LooseWord.reading words)
  | closing words => (Reading.of [.closing]).andThen (.each LooseWord.reading words)
  | option words => (Reading.of [.opening]).andThen (.each LooseWord.reading words)

/-- What a clause puts at the end of its line. -/
def ending : Clause → List Symbol
  | elements _ _ | opening _ | closing _ => []
  | option _ => [.closing]

/-- What a line of clauses stands for. -/
def line : List Clause → Reading
  | [] => .of []
  | clause :: clauses => (clause.reading.andThen (line clauses)).andThen (.of clause.ending)

end Clause

end RoffDocBook.Mdoc

/-! A synopsis collects what its tokens stand for. -/
namespace RoffDocBook.Document
open Text Mdoc

/-- A change of a document that adds the symbols of a reading to the synopsis. -/
def Collects (change : Document → Document) (reading : Reading) : Prop :=
  ∀ doc command, change (doc.withCommand command) =
    (reading.read doc).2.withCommand ((reading.read doc).1.foldl Command.add command)

namespace Collects

theorem nothing : Collects id (.of []) :=
  fun _ _ => rfl

theorem symbol (symbol : Symbol) : Collects (fun doc => doc.mapCommand (Command.add · symbol)) (.of [symbol]) :=
  fun _ _ => rfl

theorem andThen {change next : Document → Document} {reading second : Reading} (h : Collects change reading)
    (hnext : Collects next second) : Collects (fun doc => next (change doc)) (reading.andThen second) := by
  intro doc command
  dsimp only
  rw [h, hnext, Reading.andThen, List.foldl_append]

/-- A rendered text as an element. -/
theorem text (enclose : Text → Text) (token : Text) :
    Collects (fun doc => (doc.renderIsolated token).2.mapCommand
        (·.push (.argument (enclose (doc.renderIsolated token).1) false false)))
      (.text enclose token) := by
  intro doc command
  dsimp only
  rw [renderIsolated_withCommand]
  rfl

end Collects

section
variable (doc : Document) (tags : Text × Text)

theorem synopsisArgument_text {token : Text} (plain : IsText token) :
    doc.synopsisArgument tags token =
      (true, (doc.renderIsolated token).2.mapCommand
        (·.push (.argument (tags.1 ++ (doc.renderIsolated token).1 ++ tags.2) false false))) := by
  have bar : token ≠ ['|'] := fun same => Bool.noConfusion (plain.2.1.symm.trans (congrArg isPunctuation same))
  rw [synopsisArgument, if_neg (by simpa using bar), if_neg (by simpa using plain.2.2), plain.2.1]
  rfl

theorem synopsisArgument_punctuation {token : Text} (mark : IsMark token) :
    doc.synopsisArgument tags token = (false, doc) := by
  have other : token ≠ "...".toList := fun same => Bool.noConfusion ((congrArg isPunctuation same).symm.trans mark.1)
  rw [synopsisArgument, if_neg (by simpa using mark.2), if_neg (by simpa using other), if_pos mark.1]

theorem synopsisArgument_fst (word : Word) : (doc.synopsisArgument tags word.token).1 = word.isText := by
  cases word with
  | text token plain => exact congrArg Prod.fst (synopsisArgument_text doc tags plain)
  | punctuation token mark => exact congrArg Prod.fst (synopsisArgument_punctuation doc tags mark)
  | bar => rfl
  | ellipsis => rfl

theorem synopsisArguments_cons (argument : Text) (arguments : List Text) :
    doc.synopsisArguments tags (argument :: arguments) =
      let first := doc.synopsisArgument tags argument
      let others := first.2.synopsisArguments tags arguments
      (first.1 || others.1, others.2) := by
  have started (added : Bool) (doc : Document) : arguments.foldl
        (fun result argument =>
          (result.1 || (result.2.synopsisArgument tags argument).1, (result.2.synopsisArgument tags argument).2))
        (added, doc) =
      (added || (doc.synopsisArguments tags arguments).1, (doc.synopsisArguments tags arguments).2) := by
    unfold synopsisArguments
    induction arguments generalizing added doc with
    | nil => exact Prod.ext (Bool.or_false added).symm rfl
    | cons argument arguments ih =>
      rw [List.foldl_cons, List.foldl_cons, ih, ih (_ || _)]
      exact Prod.ext (by rw [Bool.false_or, Bool.or_assoc]) rfl
  exact started _ _

theorem synopsisArguments_fst (words : List Word) :
    (doc.synopsisArguments tags (words.map Word.token)).1 = words.any Word.isText := by
  induction words generalizing doc with
  | nil => rfl
  | cons word words ih =>
    rw [List.map_cons, synopsisArguments_cons]
    dsimp only
    rw [synopsisArgument_fst, ih, List.any_cons]

end

namespace Collects

theorem argument (kind : Kind) (word : Word) :
    Collects (fun doc => (doc.synopsisArgument kind.tags word.token).2) (word.reading kind.enclose) := by
  cases word with
  | text token plain =>
    intro doc command
    dsimp only
    rw [Word.token, synopsisArgument_text _ _ plain]
    exact text kind.enclose token doc command
  | punctuation token mark =>
    intro doc command
    dsimp only
    rw [Word.token, synopsisArgument_punctuation _ _ mark]
    rfl
  | bar => exact symbol .bar
  | ellipsis => exact symbol .ellipsis

theorem arguments (kind : Kind) (words : List Word) :
    Collects (fun doc => (doc.synopsisArguments kind.tags (words.map Word.token)).2)
      (.each (Word.reading kind.enclose) words) := by
  induction words with
  | nil => exact nothing
  | cons word words ih =>
    intro doc command
    dsimp only
    rw [List.map_cons, synopsisArguments_cons]
    exact (argument kind word).andThen ih doc command

theorem fallback (kind : Kind) : Collects (fun doc => doc.synopsisFallback kind.name) (.of kind.fallback) := by
  cases kind <;> exact fun _ _ => rfl

end Collects

theorem ownArguments_words (words : List Word) (clauses : List Clause) :
    ownArguments (words.map Word.token ++ clauses.flatMap Clause.tokens) = words.map Word.token := by
  have own : ∀ token ∈ words.map Word.token, (!isCallable token) = true := by
    intro token known
    obtain ⟨word, _, rfl⟩ := List.mem_map.mp known
    rw [word.isCallable_token]
    rfl
  have next : (clauses.flatMap Clause.tokens).takeWhile (fun token => !isCallable token) = [] := by
    cases clauses with
    | nil => rfl
    | cons clause clauses =>
      cases clause with
      | elements kind words => cases kind <;> rfl
      | opening | closing | option => rfl
  rw [ownArguments, List.takeWhile_append_of_pos own, next, List.append_nil]

/-- The arguments that a request takes for itself are elements, and the rest goes on as before. -/
theorem synopsisTokens_elements (doc : Document) (kind : Kind) (words : List Word) (clauses : List Clause) :
    doc.synopsisTokens (kind.name :: (words.map Word.token ++ clauses.flatMap Clause.tokens)) =
      let collected := (doc.synopsisArguments kind.tags (words.map Word.token)).2
      (if words.any Word.isText then collected else collected.synopsisFallback kind.name).synopsisTokens
        (clauses.flatMap Clause.tokens) := by
  have other : (kind.name == "Op".toList) = false := by cases kind <;> rfl
  have tags : synopsisTags? kind.name = some kind.tags := by cases kind <;> rfl
  rw [synopsisTokens, other, if_neg Bool.false_ne_true, synopsisToken, ownArguments_words, tags]
  dsimp only
  rw [synopsisArguments_fst, List.drop_left]

theorem synopsisTags?_of_isCallable {token : Text} (h : isCallable token = false) : synopsisTags? token = none := by
  have other {name : String} (called : isCallable name.toList = true) : String.ofList token ≠ name := by
    rintro rfl
    rw [String.toList_ofList, h] at called
    exact Bool.false_ne_true called
  unfold synopsisTags?
  split <;> first | rfl | exact absurd ‹String.ofList token = _› (other rfl)

theorem synopsisToken_of_isCallable (doc : Document) {token : Text} (rest : List Text)
    (h : isCallable token = false) (other : token ∉ ['|'] :: "...".toList :: spacingWords) :
    doc.synopsisToken token rest =
      if isPunctuation token then (doc, 0)
      else
        ((doc.renderIsolated token).2.mapCommand
          (·.push (.argument (Markup.stripTags (doc.renderIsolated token).1) false false)), 0) := by
  have unknown {name : String}
      (known : isCallable name.toList = true ∨ name.toList ∈ ['|'] :: "...".toList :: spacingWords) :
      String.ofList token ≠ name := by
    rintro rfl
    rw [String.toList_ofList, h] at known
    exact known.elim Bool.false_ne_true other
  unfold synopsisToken
  rw [synopsisTags?_of_isCallable h]
  dsimp only
  split <;> first | exact absurd ‹String.ofList token = _› (unknown (by decide)) | rw [h, if_neg Bool.false_ne_true]

namespace Collects

/-- A word that no request takes for its argument. -/
theorem loose (word : LooseWord) (rest : List Text) :
    Collects (fun doc => (doc.synopsisToken word.token rest).1) word.reading ∧
      ∀ doc : Document, (doc.synopsisToken word.token rest).2 = 0 := by
  obtain ⟨word, free⟩ := word
  cases word with
  | text token plain =>
    have other : token ∉ ['|'] :: "...".toList :: spacingWords := by
      rw [List.mem_cons, List.mem_cons]
      rintro (rfl | same | known)
      · exact Bool.false_ne_true plain.2.1.symm
      · exact plain.2.2 same
      · exact free known
    have token_eq (doc : Document) := synopsisToken_of_isCallable doc rest plain.1 other
    simp only [plain.2.1, if_neg Bool.false_ne_true] at token_eq
    refine ⟨fun doc command => ?_, fun doc => congrArg Prod.snd (token_eq doc)⟩
    exact (congrArg Prod.fst (token_eq _)).trans (text Markup.stripTags token doc command)
  | punctuation token mark =>
    have other : token ∉ ['|'] :: "...".toList :: spacingWords := by
      rw [List.mem_cons, List.mem_cons]
      rintro (same | rfl | known)
      · exact mark.2 same
      · exact Bool.false_ne_true mark.1
      · exact free known
    have token_eq (doc : Document) := synopsisToken_of_isCallable doc rest (isCallable_of_isPunctuation mark.1) other
    simp only [mark.1, if_true] at token_eq
    exact ⟨fun doc command => congrArg Prod.fst (token_eq _), fun doc => congrArg Prod.snd (token_eq doc)⟩
  | bar => exact ⟨symbol .bar, fun _ => rfl⟩
  | ellipsis => exact ⟨symbol .ellipsis, fun _ => rfl⟩

theorem loose_tokens {rest : List Text} {reading : Reading} (h : Collects (·.synopsisTokens rest) reading)
    (words : List LooseWord) :
    Collects (·.synopsisTokens (words.map LooseWord.token ++ rest))
      ((Reading.each LooseWord.reading words).andThen reading) := by
  induction words with
  | nil => exact nothing.andThen h
  | cons word words ih =>
    have unfolded (doc : Document) : doc.synopsisTokens ((word :: words).map LooseWord.token ++ rest) =
        (doc.synopsisToken word.token (words.map LooseWord.token ++ rest)).1.synopsisTokens
          (words.map LooseWord.token ++ rest) := by
      have other : word.token ≠ "Op".toList := fun same =>
        Bool.false_ne_true (word.1.isCallable_token.symm.trans (congrArg isCallable same))
      rw [List.map_cons, List.cons_append, synopsisTokens, if_neg (by simpa using other)]
      dsimp only
      rw [(loose word _).2, List.drop_zero]
    intro doc command
    dsimp only
    rw [unfolded, Reading.each, Reading.andThen_assoc]
    exact (loose word _).1.andThen ih doc command

/-- The arguments of a request, or what stands for it without a text. -/
theorem elements (kind : Kind) (words : List Word) :
    Collects (fun doc =>
        let collected := (doc.synopsisArguments kind.tags (words.map Word.token)).2
        if words.any Word.isText then collected else collected.synopsisFallback kind.name)
      (Clause.elements kind words).reading := by
  rw [Clause.reading]
  cases words.any Word.isText with
  | true => exact (arguments kind words).andThen nothing
  | false => exact (arguments kind words).andThen (fallback kind)

/-- A token that opens or closes a bracket. -/
theorem bracket {token : Text} {rest : List Text} {reading : Reading} {own : Symbol}
    (h : Collects (·.synopsisTokens rest) reading)
    (unfolded : ∀ doc : Document, doc.synopsisTokens (token :: rest) =
      (doc.mapCommand (Command.add · own)).synopsisTokens rest) :
    Collects (·.synopsisTokens (token :: rest)) ((Reading.of [own]).andThen reading) := by
  intro doc command
  dsimp only
  rw [unfolded]
  exact (symbol own).andThen h doc command

/-- A line of clauses collects what it stands for. -/
theorem line (clauses : List Clause) :
    Collects (·.synopsisTokens (clauses.flatMap Clause.tokens)) (Clause.line clauses) := by
  induction clauses with
  | nil =>
    intro doc command
    dsimp only
    rw [List.flatMap_nil, synopsisTokens]
    rfl
  | cons clause clauses ih =>
    cases clause with
    | elements kind words =>
      rw [Clause.line, Clause.ending, Reading.andThen_nothing]
      intro doc command
      dsimp only
      rw [List.flatMap_cons, Clause.tokens, List.cons_append, synopsisTokens_elements]
      exact (elements kind words).andThen ih doc command
    | opening words =>
      rw [Clause.line, Clause.ending, Reading.andThen_nothing, Clause.reading, Reading.andThen_assoc]
      refine (ih.loose_tokens words).bracket fun doc => ?_
      rw [synopsisTokens]
      rfl
    | closing words =>
      rw [Clause.line, Clause.ending, Reading.andThen_nothing, Clause.reading, Reading.andThen_assoc]
      refine (ih.loose_tokens words).bracket fun doc => ?_
      rw [synopsisTokens]
      rfl
    | option words =>
      -- The bracket is closed after the rest of the line, whatever brackets are left open there.
      rw [Clause.line, Clause.ending, Clause.reading, Reading.andThen_assoc (.of _)]
      intro doc command
      dsimp only
      rw [List.flatMap_cons, Clause.tokens, List.cons_append, synopsisTokens]
      exact ((symbol .opening).andThen (ih.loose_tokens words)).andThen (symbol .closing) doc command

end Collects

end RoffDocBook.Document
