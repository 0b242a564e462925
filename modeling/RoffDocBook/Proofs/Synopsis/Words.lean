import RoffDocBook.Proofs.Markup.Nesting
import RoffDocBook.Proofs.Synopsis.Phrase
import RoffDocBook.Proofs.Text.Search

/-! The words of a command synopsis and those of its markup. The tree of parts has the words of the source for its
leaves, and the markup of a part holds its leaves in order. -/
namespace RoffDocBook.Synopsis
open Text TokenReader Markup

/-- A word of character data, as the tokens of lines are that have no tags in them. -/
def IsWord (token : Text) : Prop :=
  '<' ∉ token ∧ ∀ c ∈ token, isBlank c = false

theorem yields_word {token : Text} (h : IsWord token) : Yields token token := by
  have hy := yields_text h.1
  rwa [List.filter_eq_self.mpr fun c hc => by simp [h.2 c hc]] at hy

namespace Node

mutual

/-- The words in a part. -/
def leaves : Node → List Text
  | word _ token _ => [token]
  | arg _ _ children => allLeaves children
  | group _ _ children => allLeaves children

/-- The words in some parts. -/
def allLeaves : List Node → List Text
  | [] => []
  | node :: rest => leaves node ++ allLeaves rest

end

theorem allLeaves_append (a b : List Node) : allLeaves (a ++ b) = allLeaves a ++ allLeaves b := by
  induction a with
  | nil => rfl
  | cons node rest ih => rw [List.cons_append, allLeaves, allLeaves, ih, List.append_assoc]

theorem allLeaves_singleton (node : Node) : allLeaves [node] = leaves node := by
  rw [allLeaves, allLeaves, List.append_nil]

theorem leaves_repeated (node : Node) : leaves node.repeated = leaves node := by
  cases node <;> rfl

theorem leaves_ofAlternative (nodes : List Node) : leaves (ofAlternative nodes) = allLeaves nodes := by
  unfold ofAlternative
  split
  · simp only [leaves, allLeaves]
  · rw [allLeaves_singleton]
  · rw [leaves]

/-- Alternatives without parts have no leaves either. -/
theorem allLeaves_alternatives (alternatives : List (List Node)) :
    allLeaves ((alternatives.filter fun nodes => !nodes.isEmpty).map ofAlternative) =
      alternatives.flatMap allLeaves := by
  induction alternatives with
  | nil => rfl
  | cons nodes rest ih =>
    cases nodes with
    | nil =>
      rw [List.filter_cons_of_neg (by simp), ih]
      rfl
    | cons node more =>
      rw [List.filter_cons_of_pos (by rfl), List.map_cons, allLeaves, leaves_ofAlternative, ih, List.flatMap_cons]

/-- The part that bracketed alternatives make has their leaves, whether it unwraps a single one or not. -/
theorem leaves_ofAlternatives (choice : Choice) (alternatives : List (List Node)) :
    leaves (ofAlternatives choice alternatives) = alternatives.flatMap allLeaves := by
  have single (nodes : List Node) : [nodes].flatMap allLeaves = allLeaves nodes := by simp
  unfold ofAlternatives
  split
  · rw [single, leaves]
  · rw [single, allLeaves_singleton]
    split
    · rw [leaves, allLeaves_singleton]
    · rw [leaves, leaves]
  · rw [single, allLeaves_singleton]
    split
    · rw [leaves, allLeaves_singleton]
    · rw [leaves, leaves]
  · rw [single, leaves]
  · rw [leaves, allLeaves_alternatives]

/-- The value of an option is set apart from its name, and both are kept. -/
theorem yields_wordMarkup {token : Text} (h : IsWord token) (kind : WordKind) :
    Yields (wordMarkup kind token) token := by
  have tagged {start stop : Text} (hs : Yields start []) (he : Yields stop []) :
      Yields (start ++ token ++ stop) token :=
    (hs.behind (yields_word h)).before he
  have option : Yields "<option>".toList [] := yields_tag (show '>' ∉ "option".toList by decide)
  have optionEnd : Yields "</option>".toList [] := yields_tag (show '>' ∉ "/option".toList by decide)
  have value : Yields "<replaceable>".toList [] := yields_tag (show '>' ∉ "replaceable".toList by decide)
  have valueEnd : Yields "</replaceable>".toList [] := yields_tag (show '>' ∉ "/replaceable".toList by decide)
  unfold wordMarkup
  split
  · split
    · rename_i name c rest hb
      have htoken := breakOn?_eq_some hb
      have hname : IsWord name :=
        ⟨fun hm => h.1 (by simp [htoken, hm]), fun d hd => h.2 d (by simp [htoken, hd])⟩
      have hrest : IsWord (c :: rest) :=
        ⟨fun hm => h.1 (by rw [htoken]; exact List.mem_append_right _ hm),
          fun d hd => h.2 d (by rw [htoken]; exact List.mem_append_right _ hd)⟩
      have hsign : Yields "=</option><replaceable>".toList "=".toList :=
        (yields_text (show '<' ∉ "=".toList by decide)).before (optionEnd.append value)
      have hall := (((option.behind (yields_word hname)).append hsign).append (yields_word hrest)).before valueEnd
      rw [htoken]
      exact hall
    · exact tagged option optionEnd
  · exact tagged value valueEnd
  · exact yields_word h
  · exact yields_word h

/-- A start tag with or without the attribute for repetition. -/
theorem yields_start {start : Text} (h : '>' ∉ start) (repeats : Bool) :
    Yields ('<' :: start ++ repeatAttribute repeats ++ ['>']) [] := by
  have hinner : '>' ∉ start ++ repeatAttribute repeats :=
    List.not_mem_append h (by cases repeats <;> decide)
  have hshape : '<' :: start ++ repeatAttribute repeats ++ ['>'] = tag (start ++ repeatAttribute repeats) := rfl
  rw [hshape]
  exact yields_tag hinner

mutual

/-- The markup of a part holds its leaves. -/
theorem yields_markup : (node : Node) → (∀ token ∈ leaves node, IsWord token) →
    Yields (markup node) (leaves node).flatten
  | word kind token repeats, h => by
    have hword : IsWord token := h token (by simp [leaves])
    have hstart := yields_start (show '>' ∉ "arg choice='plain'".toList by decide) repeats
    have hstop : Yields "</arg>".toList [] := yields_tag (show '>' ∉ "/arg".toList by decide)
    rw [markup, leaves, List.flatten_singleton]
    exact (hstart.behind (yields_wordMarkup hword kind)).before hstop
  | arg choice repeats children, h => by
    have hattribute : '>' ∉ "arg choice='".toList ++ choice.attribute ++ "'".toList := by cases choice <;> decide
    have hstop : Yields "</arg>".toList [] := yields_tag (show '>' ∉ "/arg".toList by decide)
    rw [leaves] at h
    rw [markup, leaves]
    exact ((yields_start hattribute repeats).behind (yields_inlineMarkups children h)).before hstop
  | group choice repeats children, h => by
    have hattribute : '>' ∉ "group choice='".toList ++ choice.attribute ++ "'".toList := by cases choice <;> decide
    have hstop : Yields "</group>".toList [] := yields_tag (show '>' ∉ "/group".toList by decide)
    rw [leaves] at h
    rw [markup, leaves]
    exact ((yields_start hattribute repeats).behind (yields_markups children h)).before hstop

theorem yields_markups : (nodes : List Node) → (∀ token ∈ allLeaves nodes, IsWord token) →
    Yields (markups nodes).flatten (allLeaves nodes).flatten
  | [], _ => by
    rw [markups, allLeaves]
    exact yields_nil
  | node :: rest, h => by
    rw [allLeaves, List.forall_mem_append] at h
    rw [markups, allLeaves, List.flatten_cons, List.flatten_append]
    exact (yields_markup node h.1).append (yields_markups rest h.2)

theorem yields_inlineMarkups : (nodes : List Node) → (∀ token ∈ allLeaves nodes, IsWord token) →
    Yields (join " " ((inlineMarkups nodes).filter fun markup => !markup.isEmpty)) (allLeaves nodes).flatten
  | [], _ => by
    rw [inlineMarkups, allLeaves]
    exact yields_nil
  | node :: rest, h => by
    rw [allLeaves, List.forall_mem_append] at h
    rw [inlineMarkups, allLeaves, List.flatten_append]
    refine yields_join_cons ?_ (yields_inlineMarkups rest h.2)
    cases node with
    | word kind token repeats =>
      rw [inlineMarkup, leaves, List.flatten_singleton]
      exact yields_wordMarkup (h.1 token (by simp [leaves])) kind
    | arg choice repeats children =>
      rw [inlineMarkup]
      exact yields_markup (arg choice repeats children) h.1
    | group choice repeats children =>
      rw [inlineMarkup]
      exact yields_markup (group choice repeats children) h.1

end

end Node

namespace Command

/-- A bracket, a bar or an ellipsis. -/
def isGrouping (token : Text) : Bool :=
  ([['['], [']'], ['{'], ['}'], ['|'], ellipsis] : List Text).contains token

/-- The tokens that are words. -/
def wordsAmong (ts : List Text) : List Text :=
  ts.filter (!isGrouping ·)

theorem wordsAmong_append (a b : List Text) : wordsAmong (a ++ b) = wordsAmong a ++ wordsAmong b :=
  List.filter_append ..

theorem wordsAmong_grouping {token : Text} (h : isGrouping token = true) : wordsAmong [token] = [] := by
  simp [wordsAmong, h]

theorem wordsAmong_target {token : Text} (h : isTarget token = true) : wordsAmong [token] = [token] := by
  have hg : isGrouping token = false := by
    rw [← Bool.not_eq_true]
    intro hg
    simp only [isGrouping, List.contains_iff_mem, List.mem_cons, List.not_mem_nil, or_false] at hg
    rcases hg with rfl | rfl | rfl | rfl | rfl | rfl <;> revert h <;> decide
  simp [wordsAmong, hg]

namespace Sequence

/-- The words in all alternatives of a sequence. -/
def leaves (sequence : Sequence) : List Text :=
  sequence.alternatives.flatMap Node.allLeaves

theorem leaves_push (sequence : Sequence) (node : Node) :
    (sequence.push node).leaves = sequence.leaves ++ node.leaves := by
  simp [leaves, alternatives, push, Node.allLeaves_append, Node.allLeaves_singleton]

theorem leaves_bar (sequence : Sequence) : sequence.bar.leaves = sequence.leaves := by
  simp [leaves, alternatives, bar, Node.allLeaves]

theorem leaves_repeatLast (sequence : Sequence) : sequence.repeatLast.leaves = sequence.leaves := by
  obtain ⟨finished, nodes⟩ := sequence
  cases nodes with
  | nil => rfl
  | cons node nodes =>
    simp [leaves, alternatives, repeatLast, Node.allLeaves_append, Node.allLeaves_singleton, Node.leaves_repeated]

end Sequence

/-- The parts of a phrase have the words of its source. -/
theorem Phrase.leaves_sequence {phrase : Phrase} (h : phrase.WellFormed) :
    phrase.sequence.leaves = wordsAmong phrase.tokens := by
  induction phrase with
  | nil => rfl
  | word before token ih =>
    rw [sequence, Sequence.leaves_push, ih h.1, tokens, wordsAmong_append, wordsAmong_target h.2]
    rfl
  | redirection before sign target ih =>
    have htokens : tokens (redirection before sign target) = before.tokens ++ [sign] ++ [target] := by simp [tokens]
    rw [sequence, Sequence.leaves_push, ih h.1, htokens, wordsAmong_append, wordsAmong_append, wordsAmong_target h.2.1,
      wordsAmong_target h.2.2, List.append_assoc]
    rfl
  | group before bracket inner ihb ihi =>
    have hopening : isGrouping bracket.opening = true := by cases bracket <;> decide
    have hclosing : isGrouping bracket.closing = true := by cases bracket <;> decide
    have htokens : tokens (group before bracket inner) =
        before.tokens ++ ([bracket.opening] ++ (inner.tokens ++ [bracket.closing])) := by simp [tokens]
    rw [sequence, Sequence.leaves_push, Node.leaves_ofAlternatives, ihb h.1, htokens, wordsAmong_append,
      wordsAmong_append, wordsAmong_append, wordsAmong_grouping hopening, wordsAmong_grouping hclosing,
      List.append_nil, List.nil_append, ← ihi h.2]
    rfl
  | bar before ih =>
    rw [sequence, Sequence.leaves_bar, ih h, tokens, wordsAmong_append, wordsAmong_grouping (by decide),
      List.append_nil]
  | repeated before ih =>
    rw [sequence, Sequence.leaves_repeatLast, ih h.1, tokens, wordsAmong_append, wordsAmong_grouping (by decide),
      List.append_nil]

/-- Tokens are made of the characters of their lines. -/
theorem isWord_of_mem_blockTokens {lines : List Text} {token : Text} (h : ∀ line ∈ lines, '<' ∉ line)
    (ht : token ∈ blockTokens lines) : IsWord token := by
  obtain ⟨line, hline, hw⟩ := List.mem_flatMap.mp ht
  refine ⟨fun hc => ?_, word_not_blank hw⟩
  have hm : '<' ∈ (words (space line)).flatten := List.mem_flatten_of_mem hw hc
  rw [flatten_words, space_nonblank] at hm
  exact h line hline (List.mem_filter.mp hm).1

theorem yields_parts {nodes : List Node} (h : ∀ token ∈ Node.allLeaves nodes, IsWord token) :
    Yields (((nodes.map Node.markup).filter fun markup => !markup.isEmpty).flatMap (· ++ ['\n']))
      (Node.allLeaves nodes).flatten := by
  have newline : Yields ['\n'] [] := yields_text (by decide)
  induction nodes with
  | nil => exact yields_nil
  | cons node rest ih =>
    rw [Node.allLeaves, List.forall_mem_append] at h
    have hnode := Node.yields_markup node h.1
    rw [Node.allLeaves, List.flatten_append, List.map_cons, List.filter_cons]
    split
    · rw [List.flatMap_cons]
      exact (hnode.before newline).append (ih h.2)
    · rename_i hempty
      rw [show node.markup = [] by simpa using hempty] at hnode
      rw [hnode.eq_nil]
      exact ih h.2

theorem yields_markup {name : Text} {nodes : List Node} (hn : IsWord name)
    (h : ∀ token ∈ Node.allLeaves nodes, IsWord token) :
    Yields (markup name nodes) (name ++ (Node.allLeaves nodes).flatten) := by
  have newline : Yields ['\n'] [] := yields_text (by decide)
  have synopsis : Yields "<cmdsynopsis>".toList [] := yields_tag (show '>' ∉ "cmdsynopsis".toList by decide)
  have synopsisEnd : Yields "</cmdsynopsis>".toList [] := yields_tag (show '>' ∉ "/cmdsynopsis".toList by decide)
  have command : Yields "<command>".toList [] := yields_tag (show '>' ∉ "command".toList by decide)
  have commandEnd : Yields "</command>".toList [] := yields_tag (show '>' ∉ "/command".toList by decide)
  have hstart : Yields "<cmdsynopsis>\n<command>".toList [] := synopsis.behind (newline.behind command)
  have hmiddle : Yields "</command>\n".toList [] := commandEnd.behind newline
  exact (((hstart.behind (yields_word hn)).before hmiddle).append (yields_parts h)).before synopsisEnd

/-- Of lines of character data, in which no tag begins, the markup holds the name of the command and then every word, in
order. -/
theorem parse_keepsWords {reader after : TokenReader} {context : CommandContext} {result name : Text}
    (ht : reader.tokens = []) (hp : parse reader context = (.parsed (result, name), after)) {lines : List Text}
    (hl : reader.lines = lines ++ after.lines) (he : ∀ line ∈ lines, '<' ∉ line) :
    ∃ ts, blockTokens lines = name :: ts ∧
      (stripTags result).filter (!isBlank ·) = name ++ (wordsAmong ts).flatten := by
  obtain ⟨taken, phrase, nodes, htaken, hts, hw, hn, rfl⟩ := parse_phrase ht hp
  obtain rfl : lines = taken := List.append_cancel_right (hl.symm.trans htaken)
  have hwords : ∀ token ∈ name :: phrase.tokens, IsWord token :=
    fun token hm => isWord_of_mem_blockTokens he (hts ▸ hm)
  obtain ⟨hname, hphrase⟩ := List.forall_mem_cons.mp hwords
  have hleaves : Node.allLeaves nodes = wordsAmong phrase.tokens := by
    rw [← Phrase.leaves_sequence hw, Sequence.leaves, hn]
    simp
  have hy : Yields (markup name nodes) (name ++ (wordsAmong phrase.tokens).flatten) := by
    rw [← hleaves]
    refine yields_markup hname fun token hm => hphrase token ?_
    rw [hleaves] at hm
    exact List.mem_of_mem_filter hm
  exact ⟨phrase.tokens, hts, hy.content_eq⟩

/-- The option is taken apart at its sign, the redirection binds its target, and one bracket is unwrapped. -/
theorem parse_keepsWords_sort :
    ∃ result after, parse (ofLines ["sort \x7b[--key=n | -r...]\x7d &lt; in", "[[file]...]", "Text"]) { names := [], hints := {} } =
        (.parsed (result, "sort"), after) ∧ after.lines = ["Text".toList] ∧
      ∃ ts, blockTokens ["sort \x7b[--key=n | -r...]\x7d &lt; in", "[[file]...]"] = "sort".toList :: ts ∧
        (stripTags result).filter (!isBlank ·) = "sort".toList ++ (wordsAmong ts).flatten ∧
        wordsAmong ts = ["--key=n".toList, "-r".toList, "&lt;".toList, "in".toList, "file".toList] := by
  obtain ⟨result, after, hp, hrest⟩ : ∃ result after,
      parse (ofLines ["sort \x7b[--key=n | -r...]\x7d &lt; in", "[[file]...]", "Text"]) { names := [], hints := {} } =
        (.parsed (result, "sort"), after) ∧ after.lines = ["Text".toList] := ⟨_, _, rfl, rfl⟩
  have hl : (ofLines ["sort \x7b[--key=n | -r...]\x7d &lt; in", "[[file]...]", "Text"]).lines =
      ["sort \x7b[--key=n | -r...]\x7d &lt; in".toList, "[[file]...]".toList] ++ after.lines := by rw [hrest]; rfl
  obtain ⟨ts, hts, htext⟩ := parse_keepsWords rfl hp hl (by decide)
  refine ⟨result, after, hp, hrest, ts, hts, htext, ?_⟩
  obtain rfl : (blockTokens ["sort \x7b[--key=n | -r...]\x7d &lt; in", "[[file]...]"]).tail = ts := by rw [hts]; rfl
  decide

end Command

end RoffDocBook.Synopsis
