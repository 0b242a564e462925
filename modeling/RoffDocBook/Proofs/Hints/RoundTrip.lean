import Mathlib.Data.List.Basic
import RoffDocBook.Proofs.Hints.Table
import RoffDocBook.Proofs.Text.Search
import RoffDocBook.Proofs.Text.Words

/-! What the comments that hints are written as say when they are read again. A comment tells its token from the words
around it by white space, so that a hint reads back exactly if its token is one word. -/
namespace RoffDocBook.Hints
open Text HintTable

/-- What can happen to the hints of a run. -/
inductive Operation where
  | set (scope : HintScope) (token tag : Text)
  | read (scope : HintScope) (t : Text)
  | beginDocument
  | endDocument

/-- The hints after an operation; a hint with an unknown tag is not recorded. -/
def perform (hints : Hints) : Operation → Hints
  | .set scope token tag =>
    match HintTag.ofName? tag with
    | some tag => hints.set scope token tag
    | none => hints
  | .read scope t => (hints.read scope t).1
  | .beginDocument => hints.beginDocument
  | .endDocument => hints.endDocument

/-! The order of the tokens. -/

/-- Both tables are in ascending order. -/
def Ascending (hints : Hints) : Prop :=
  hints.global.Ascending ∧ hints.document.Ascending

theorem ascending_set {hints : Hints} (h : hints.Ascending) (scope : HintScope) (token : Text) (tag : HintTag) :
    (hints.set scope token tag).Ascending := by
  unfold Hints.set
  split
  · exact h
  · cases scope with
    | global => exact ⟨ascending_put token tag h.1, h.2⟩
    | document => exact ⟨h.1, ascending_put token tag h.2⟩

theorem readLine_cases (hints : Hints) (scope : HintScope) (line : Text) :
    hints.readLine scope line = (hints, false) ∨
      ∃ token name tag, parseComment? line = some (token, name) ∧ HintTag.ofName? name = some tag ∧
        hints.readLine scope line = (hints.set scope token tag, true) := by
  unfold readLine
  cases hp : parseComment? line with
  | none => exact .inl rfl
  | some found =>
    obtain ⟨token, name⟩ := found
    dsimp only
    cases ht : HintTag.ofName? name with
    | none => exact .inl rfl
    | some tag => exact .inr ⟨token, name, tag, rfl, ht, rfl⟩

/-- What holds of the hints before the comments of a text are read holds after them, if every hint that a comment can
record keeps it. -/
theorem read_induction {p : Hints → Prop} {hints : Hints} (scope : HintScope) (t : Text)
    (hset : ∀ hints line token name tag, p hints → parseComment? line = some (token, name) →
      HintTag.ofName? name = some tag → p (hints.set scope token tag)) (h : p hints) : p (hints.read scope t).1 := by
  unfold Hints.read
  generalize 0 = count
  induction lines t generalizing hints count with
  | nil => exact h
  | cons line rest ih =>
    rw [List.foldl_cons]
    refine ih ?_ _
    obtain hsame | ⟨token, name, tag, hparse, htag, hread⟩ := readLine_cases hints scope line
    · rw [hsame]
      exact h
    · rw [hread]
      exact hset hints line token name tag h hparse htag

theorem ascending_perform {hints : Hints} (h : hints.Ascending) (operation : Operation) :
    (hints.perform operation).Ascending := by
  cases operation with
  | set scope token tag =>
    rw [perform]
    split
    · exact ascending_set h scope token _
    · exact h
  | read scope t => exact read_induction scope t (fun _ _ token _ tag h _ _ => ascending_set h scope token tag) h
  | beginDocument => exact ⟨h.1, List.Pairwise.nil⟩
  | endDocument => exact ⟨ascending_override h.1 _, List.Pairwise.nil⟩

theorem ascending_performs (operations : List Operation) : (operations.foldl perform {}).Ascending := by
  have h (hints : Hints) (ha : hints.Ascending) : (operations.foldl perform hints).Ascending := by
    induction operations generalizing hints with
    | nil => exact ha
    | cons operation operations ih => exact ih _ (ascending_perform ha operation)
  exact h {} ⟨List.Pairwise.nil, List.Pairwise.nil⟩

/-! One comment. -/

/-- The hint that reads back for one that is written. -/
def readBack? (entry : Text × HintTag) : Option (Text × HintTag) :=
  match words entry.1 with
  | [word] => some (word, entry.2)
  | _ => none

theorem ofName?_name (tag : HintTag) : HintTag.ofName? tag.name.toList = some tag := by
  cases tag <;> decide

theorem words_name (tag : HintTag) : words tag.name.toList = [tag.name.toList] := by
  cases tag <;> decide

theorem parseComment?_word {line token name : Text} (h : parseComment? line = some (token, name)) :
    words token = [token] := by
  unfold parseComment? at h
  obtain ⟨body, -, h⟩ := Option.bind_eq_some_iff.mp h
  obtain ⟨body, -, h⟩ := Option.bind_eq_some_iff.mp h
  split at h
  · rename_i mark found as tag hwords
    split at h
    · obtain ⟨rfl, -⟩ := Prod.mk.inj (Option.some.inj h)
      exact words_of_word (t := body) (by rw [hwords]; simp)
    · cases h
  · cases h

/-- The words of a comment after its leader. -/
theorem words_formatted (token : Text) (tag : HintTag) :
    words (" mark ".toList ++ (token ++ (" as ".toList ++ tag.name.toList))) =
      "mark".toList :: (words token ++ ["as".toList, tag.name.toList]) :=
  calc words (" mark ".toList ++ (token ++ (" as ".toList ++ tag.name.toList)))
      = words (" mark".toList ++ ' ' :: (token ++ ' ' :: ("as".toList ++ ' ' :: tag.name.toList))) := rfl
    _ = words " mark".toList ++ (words token ++ (words "as".toList ++ words tag.name.toList)) := by
      rw [words_append_blank (by decide), words_append_blank (by decide), words_append_blank (by decide)]
    _ = "mark".toList :: (words token ++ ["as".toList, tag.name.toList]) := by
      rw [words_name]
      rfl

theorem parseComment?_leader (body : Text) :
    parseComment? (".\\\" |".toList ++ body) =
      match words body with
      | [mark, token, as, tag] => if mark == "mark" && as == "as" then some (token, tag) else none
      | _ => none :=
  rfl

theorem formatComment_eq (token tag : Text) :
    formatComment token tag =
      ".\\\" |".toList ++ (" mark ".toList ++ (token ++ (" as ".toList ++ tag))) := by
  unfold formatComment
  simp

theorem parseComment?_formatComment (token : Text) (tag : HintTag) :
    parseComment? (formatComment token tag.name) =
      (readBack? (token, tag)).map fun entry => (entry.1, tag.name.toList) := by
  rw [formatComment_eq, parseComment?_leader, words_formatted]
  unfold readBack?
  generalize words token = found
  match found with
  | [] => rfl
  | [word] => rfl
  | [first, second] => rfl
  | first :: second :: third :: rest => cases rest <;> rfl

theorem readLine_formatComment (hints : Hints) (token : Text) (tag : HintTag) :
    hints.readLine .global (formatComment token tag.name) =
      match readBack? (token, tag) with
      | some entry => ({ hints with global := HintTable.put entry.1 entry.2 hints.global }, true)
      | none => (hints, false) := by
  unfold readLine
  rw [parseComment?_formatComment]
  cases hr : readBack? (token, tag) with
  | none => rfl
  | some entry =>
    have hentry : words token = [entry.1] ∧ entry.2 = tag := by
      unfold readBack? at hr
      split at hr
      · rename_i word hwords
        rw [← Option.some.inj hr]
        exact ⟨hwords, rfl⟩
      · cases hr
    have hne : entry.1.isEmpty = false := by
      refine List.isEmpty_eq_false_iff.mpr (word_ne_nil (t := token) ?_)
      rw [hentry.1]
      exact List.mem_singleton_self _
    dsimp only [Option.map_some]
    rw [ofName?_name, hentry.2]
    dsimp only
    rw [Hints.set, hne]
    rfl

/-! The whole table. -/

/-- The comment of a hint. -/
def comment (entry : Text × HintTag) : Text :=
  formatComment entry.1 entry.2.name

theorem comment_one_line {entry : Text × HintTag} (h : '\n' ∉ entry.1) :
    '\n' ∉ comment entry ∧ (comment entry).getLast? ≠ some '\r' := by
  obtain ⟨token, tag⟩ := entry
  have hname : '\n' ∉ tag.name.toList := by
    cases tag <;> decide
  have hend : ∃ c, tag.name.toList.getLast? = some c ∧ some c ≠ some '\r' := by
    cases tag <;> exact ⟨_, rfl, by decide⟩
  rw [comment, formatComment_eq]
  constructor
  · have hplain : '\n' ∉ ".\\\" |".toList ∧ '\n' ∉ " mark ".toList ∧ '\n' ∉ " as ".toList := by decide
    simp only [List.mem_append, not_or]
    exact ⟨hplain.1, hplain.2.1, h, hplain.2.2, hname⟩
  · obtain ⟨c, hc, hne⟩ := hend
    rwa [← List.append_assoc, ← List.append_assoc, ← List.append_assoc, List.getLast?_append, hc, Option.some_or]

theorem lines_dump {hints : Hints} (h : ∀ entry ∈ hints.global, '\n' ∉ entry.1) :
    lines hints.dump = hints.global.map comment := by
  unfold dump
  generalize hints.global = table at h
  induction table with
  | nil => rfl
  | cons entry rest ih =>
    obtain ⟨hentry, hrest⟩ := List.forall_mem_cons.mp h
    obtain ⟨hfeed, hreturn⟩ := comment_one_line hentry
    rw [List.flatMap_cons, List.append_assoc]
    refine (lines_append_feed hfeed _).trans ?_
    rw [dropReturn_of_getLast? hreturn]
    exact congrArg _ (ih hrest)

/-- The comments of a table record what reads back of it, over what is there. -/
theorem read_comments (table : HintTable) (hints : Hints) (count : Nat) :
    (table.map comment).foldl
        (fun state line =>
          let result := state.1.readLine .global line
          (result.1, if result.2 then state.2 + 1 else state.2))
        (hints, count) =
      ({ hints with global := hints.global.override (table.filterMap readBack?) },
        count + (table.filterMap readBack?).length) := by
  induction table generalizing hints count with
  | nil => rfl
  | cons entry rest ih =>
    rw [List.map_cons, List.foldl_cons, comment, readLine_formatComment, List.filterMap_cons]
    cases readBack? entry with
    | none => exact ih hints count
    | some found =>
      refine (ih _ _).trans ?_
      rw [List.length_cons, if_pos rfl, Nat.add_assoc, Nat.add_comm 1]
      rfl

theorem read_dump {hints : Hints} (h : ∀ entry ∈ hints.global, '\n' ∉ entry.1) :
    ({} : Hints).read .global hints.dump =
      ({ global := HintTable.override [] (hints.global.filterMap readBack?) },
        (hints.global.filterMap readBack?).length) := by
  rw [Hints.read, lines_dump h]
  refine (read_comments hints.global {} 0).trans ?_
  rw [Nat.zero_add]

/-- Whatever is read, each token recorded is one word. -/
theorem words_of_read (t : Text) {entry : Text × HintTag} (h : entry ∈ (({} : Hints).read .global t).1.global) :
    words entry.1 = [entry.1] := by
  refine read_induction (p := fun hints => ∀ entry ∈ hints.global, words entry.1 = [entry.1]) .global t ?_ ?_ entry h
  · intro hints line token name tag hall hparse _ entry he
    unfold Hints.set at he
    split at he
    · exact hall entry he
    · rcases mem_put he with rfl | he
      · exact parseComment?_word hparse
      · exact hall entry he
  · intro entry he
    cases he

/-- For every sequence of operations on the hints of a run, the table that is read from what is written of it is the same
table exactly if every token is one word. In that case each hint is accepted, and the same text is written again. If no
token holds a line feed, a hint whose token holds one word among white space is read as that word, and any other one that
is not a single word is lost. -/
theorem read_dump_performed (operations : List Operation) :
    let hints := operations.foldl perform {}
    let again := ({} : Hints).read .global hints.dump
    (again.1.global = hints.global ↔ ∀ entry ∈ hints.global, words entry.1 = [entry.1]) ∧
      (again.1.global = hints.global → again.2 = hints.global.length ∧ again.1.dump = hints.dump) ∧
      ((∀ entry ∈ hints.global, '\n' ∉ entry.1) →
        again = ({ global := HintTable.override [] (hints.global.filterMap readBack?) },
          (hints.global.filterMap readBack?).length)) := by
  intro hints again
  have hsame (h : ∀ entry ∈ hints.global, words entry.1 = [entry.1]) :
      again = ({ global := hints.global }, hints.global.length) := by
    have hfeed : ∀ entry ∈ hints.global, '\n' ∉ entry.1 := by
      intro entry he hn
      have hword : entry.1 ∈ words entry.1 := by
        rw [h entry he]
        exact List.mem_singleton_self _
      exact absurd (word_not_blank hword '\n' hn) (by decide)
    have hback : hints.global.filterMap readBack? = hints.global := by
      refine (List.filterMap_congr fun entry he => ?_).trans List.filterMap_some
      rw [readBack?, h entry he]
    refine (read_dump hfeed).trans ?_
    rw [hback, override_nil_of_ascending (ascending_performs operations).1]
  have hiff : again.1.global = hints.global ↔ ∀ entry ∈ hints.global, words entry.1 = [entry.1] := by
    constructor
    · intro heq entry he
      rw [← heq] at he
      exact words_of_read _ he
    · intro h
      rw [hsame h]
  refine ⟨hiff, fun heq => ?_, read_dump⟩
  rw [hsame (hiff.mp heq)]
  exact ⟨rfl, rfl⟩

/-- A name of two words, as the section with the names of a page may give one, is lost. -/
theorem read_dump_performed_two_words :
    let hints := [Operation.set .document "git log".toList "command".toList, .endDocument].foldl perform {}
    hints.global = [("git log".toList, .command)] ∧ ({} : Hints).read .global hints.dump = ({}, 0) := by
  intro hints
  have hglobal : hints.global = [("git log".toList, .command)] := by decide
  have hfeed : ∀ entry ∈ hints.global, '\n' ∉ entry.1 := by
    rw [hglobal]
    decide
  refine ⟨hglobal, ((read_dump_performed _).2.2 hfeed).trans ?_⟩
  rw [hglobal]
  rfl

end RoffDocBook.Hints
