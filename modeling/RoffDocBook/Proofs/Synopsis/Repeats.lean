import Mathlib.Algebra.GroupWithZero.Nat
import RoffDocBook.Proofs.Synopsis.Phrase
import RoffDocBook.Proofs.Text.Search

/-! The ellipses of a command synopsis and the attributes that its markup has for them. The markup of a part has one
for every mark on it and in it, but for those on words that stand in an `arg`, and a group that is made of a single
marked one takes over its mark. -/
namespace RoffDocBook.Synopsis
open Text TokenReader

/-- The attribute of a part that can be repeated, without the space before it. -/
def repeatAttributeText : Text := "rep='repeat'"

theorem mem_redirections_of_redirect {token : Text} (h : WordKind.ofToken token = .redirect) :
    token ∈ redirections := by
  unfold WordKind.ofToken at h
  dsimp only at h
  split_ifs at h with hr
  exact List.contains_iff_mem.mp hr

theorem no_letterOrNumber_of_generic {token : Text} (h : WordKind.ofToken token = .generic) :
    ∀ c ∈ token, isLetterOrNumber c = false := by
  unfold WordKind.ofToken at h
  dsimp only at h
  split_ifs at h with _ _ hg
  simpa using hg

namespace Node

def isRepeated : Node → Bool
  | word _ _ repeats => repeats
  | arg _ repeats _ => repeats
  | group _ repeats _ => repeats

def isWord : Node → Bool
  | word .. => true
  | _ => false

mutual

/-- The marks in a part that its markup shows. -/
def marks : Node → Nat
  | word _ _ repeats => repeats.toNat
  | arg _ repeats children => repeats.toNat + innerMarks children
  | group _ repeats children => repeats.toNat + allMarks children

/-- The marks in parts that stand on their own. -/
def allMarks : List Node → Nat
  | [] => 0
  | node :: rest => marks node + allMarks rest

/-- The marks in parts that stand in an `arg`, where a word has no element to show its own. -/
def innerMarks : List Node → Nat
  | [] => 0
  | node :: rest => (if isWord node then 0 else marks node) + innerMarks rest

end

/-- The marked words among some parts. -/
def markedWords (nodes : List Node) : Nat :=
  nodes.countP fun node => isWord node && isRepeated node

theorem innerMarks_add_markedWords (nodes : List Node) : innerMarks nodes + markedWords nodes = allMarks nodes := by
  induction nodes with
  | nil => rfl
  | cons node rest ih =>
    rw [innerMarks, allMarks, ← ih, markedWords, List.countP_cons, ← markedWords]
    cases node with
    | word kind token repeats =>
      cases repeats <;> simp [isWord, isRepeated, marks]
      omega
    | arg choice repeats children => simp [isWord]; omega
    | group choice repeats children => simp [isWord]; omega

theorem allMarks_append (a b : List Node) : allMarks (a ++ b) = allMarks a + allMarks b := by
  induction a with
  | nil => exact (Nat.zero_add _).symm
  | cons node rest ih => rw [List.cons_append, allMarks, allMarks, ih, Nat.add_assoc]

theorem allMarks_reverse (nodes : List Node) : allMarks nodes.reverse = allMarks nodes := by
  induction nodes with
  | nil => rfl
  | cons node rest ih =>
    rw [List.reverse_cons, allMarks_append, ih]
    simp only [allMarks]
    omega

/-- A mark adds to those of a part, unless it has been set before. -/
theorem marks_repeated (node : Node) : marks node.repeated + node.isRepeated.toNat = marks node + 1 := by
  cases node <;> rename_i repeats _ <;> cases repeats <;> simp [repeated, marks, isRepeated] <;> omega

@[simp] theorem isRepeated_repeated (node : Node) : node.repeated.isRepeated = true := by
  cases node <;> rfl

/-- The marks on words that are lost where bracketed alternatives become a part: a single alternative, or one of
several words and groups, is the content of an `arg`. -/
def lostMarks : List (List Node) → Nat
  | [nodes] => markedWords nodes
  | alternatives => (alternatives.map fun nodes => if nodes.length = 1 then 0 else markedWords nodes).sum

theorem marks_ofAlternative {nodes : List Node} (h : nodes ≠ []) :
    marks (ofAlternative nodes) + (if nodes.length = 1 then 0 else markedWords nodes) = allMarks nodes := by
  match nodes, h with
  | [word kind token repeats], _ => simp [ofAlternative, marks, innerMarks, allMarks, isWord]
  | [arg choice repeats children], _ => simp [ofAlternative, allMarks]
  | [group choice repeats children], _ => simp [ofAlternative, allMarks]
  | first :: second :: rest, _ =>
    rw [← innerMarks_add_markedWords]
    simp [ofAlternative, marks]

theorem allMarks_alternatives (alternatives : List (List Node)) :
    allMarks ((alternatives.filter fun nodes => !nodes.isEmpty).map ofAlternative) +
        (alternatives.map fun nodes => if nodes.length = 1 then 0 else markedWords nodes).sum =
      (alternatives.map allMarks).sum := by
  induction alternatives with
  | nil => rfl
  | cons nodes rest ih =>
    cases nodes with
    | nil => simpa [allMarks, markedWords] using ih
    | cons node more =>
      have hn := marks_ofAlternative (List.cons_ne_nil node more)
      simp only [List.isEmpty_cons, Bool.not_false, List.filter_cons_of_pos, List.map_cons, List.sum_cons, allMarks]
        at hn ⊢
      omega

/-- The part that bracketed alternatives make shows their marks but those on words in it. -/
theorem marks_ofAlternatives (choice : Choice) (alternatives : List (List Node)) :
    marks (ofAlternatives choice alternatives) + lostMarks alternatives = (alternatives.map allMarks).sum := by
  have content (nodes : List Node) :
      marks (arg choice false nodes) + lostMarks [nodes] = ([nodes].map allMarks).sum := by
    simpa [marks, lostMarks] using innerMarks_add_markedWords nodes
  -- one group keeps its mark, whether the bracket takes its place or stands around it
  have only {node : Node} (hw : isWord node = false) {part : Node} (hp : marks part = marks node) :
      marks part + lostMarks [[node]] = ([[node]].map allMarks).sum := by
    simp [lostMarks, markedWords, hw, hp, allMarks]
  have several (h : ∀ nodes, alternatives ≠ [nodes]) :
      marks (group choice false ((alternatives.filter fun nodes => !nodes.isEmpty).map ofAlternative)) +
        lostMarks alternatives = (alternatives.map allMarks).sum := by
    rw [← allMarks_alternatives, marks, Bool.toNat_false, Nat.zero_add]
    congr 1
    unfold lostMarks
    split
    · exact absurd rfl (h _)
    · rfl
  match alternatives, several with
  | [], several => exact several (by simp)
  | [[]], _ => exact content []
  | [[word kind token repeats]], _ => exact content _
  | [[arg inner repeats children]], _ =>
    rw [ofAlternatives]
    split
    · exact content _
    · exact only rfl rfl
  | [[group inner repeats children]], _ =>
    rw [ofAlternatives]
    split
    · exact content _
    · exact only rfl rfl
  | [first :: second :: rest], _ =>
    rw [show ofAlternatives choice [first :: second :: rest] = arg choice false (first :: second :: rest) by
      simp [ofAlternatives]]
    exact content _
  | first :: second :: rest, several =>
    rw [show ofAlternatives choice (first :: second :: rest) = group choice false
      (((first :: second :: rest).filter fun nodes => !nodes.isEmpty).map ofAlternative) by simp only [ofAlternatives]]
    exact several (by simp)

/-- Words without a space in them, each of the kind that its token tells. -/
inductive Spaceless : Node → Prop where
  | word {token : Text} (h : ' ' ∉ token) (repeats : Bool) : Spaceless (word (WordKind.ofToken token) token repeats)
  | arg {children : List Node} (h : ∀ node ∈ children, Spaceless node) (choice : Choice) (repeats : Bool) :
      Spaceless (arg choice repeats children)
  | group {children : List Node} (h : ∀ node ∈ children, Spaceless node) (choice : Choice) (repeats : Bool) :
      Spaceless (group choice repeats children)

namespace Spaceless

theorem ofToken {token : Text} (h : ' ' ∉ token) : Spaceless (Node.ofToken token) :=
  word h false

theorem repeated {node : Node} (h : Spaceless node) : Spaceless node.repeated := by
  cases h with
  | word h _ => exact word h true
  | arg h choice _ => exact arg h choice true
  | group h choice _ => exact group h choice true

theorem ofAlternative {nodes : List Node} (h : ∀ node ∈ nodes, Spaceless node) :
    Spaceless (Node.ofAlternative nodes) := by
  unfold Node.ofAlternative
  split
  · rename_i kind token repeats
    cases h _ List.mem_cons_self with
    | word ht _ => exact arg (by simpa using word ht false) _ _
  · exact h _ List.mem_cons_self
  · exact arg h _ _

theorem ofAlternatives (choice : Choice) {alternatives : List (List Node)}
    (h : ∀ nodes ∈ alternatives, ∀ node ∈ nodes, Spaceless node) :
    Spaceless (Node.ofAlternatives choice alternatives) := by
  unfold Node.ofAlternatives
  split
  · exact arg (h _ List.mem_cons_self) _ _
  · have hnode := h _ List.mem_cons_self _ List.mem_cons_self
    split
    · exact arg (by simpa using hnode) _ _
    · cases hnode with
      | arg hc _ _ => exact arg hc _ _
  · have hnode := h _ List.mem_cons_self _ List.mem_cons_self
    split
    · exact arg (by simpa using hnode) _ _
    · cases hnode with
      | group hc _ _ => exact group hc _ _
  · exact arg (h _ List.mem_cons_self) _ _
  · refine group (fun node hm => ?_) _ _
    obtain ⟨nodes, hn, rfl⟩ := List.mem_map.mp hm
    exact ofAlternative (h nodes (List.mem_of_mem_filter hn))

end Spaceless

theorem space_notMem_wordMarkup {token : Text} (h : ' ' ∉ token) (kind : WordKind) : ' ' ∉ wordMarkup kind token := by
  have wrap {a t b : Text} (ha : ' ' ∉ a) (ht : ' ' ∉ t) (hb : ' ' ∉ b) : ' ' ∉ a ++ t ++ b :=
    List.not_mem_append (List.not_mem_append ha ht) hb
  unfold wordMarkup
  split
  · split
    · rename_i option c value hb
      rw [breakOn?_eq_some hb, List.mem_append, List.mem_append, not_or, not_or] at h
      exact wrap (wrap (by decide) h.1.1 (by decide)) h.2 (by decide)
    · exact wrap (by decide) h (by decide)
  · exact wrap (by decide) h (by decide)
  · exact h
  · exact h

/-- A word that opens like the name of the attribute is in an element wherever it stands. -/
theorem wordMarkup_head (token : Text) : (wordMarkup (WordKind.ofToken token) token).head? ≠ some 'r' := by
  generalize hk : WordKind.ofToken token = kind
  unfold wordMarkup
  split
  · split <;> simp
  · simp
  · have hall : ∀ sign ∈ redirections, sign.head? ≠ some 'r' := by decide
    exact hall token (mem_redirections_of_redirect hk)
  · intro h
    have hr : isLetterOrNumber 'r' = true := by decide
    simp [no_letterOrNumber_of_generic hk 'r' (List.mem_of_head? h)] at hr

/-- The number of attributes for repetition in some markup. -/
def shown (markup : Text) : Nat :=
  occurrences markup (' ' :: repeatAttributeText)

/-- Markup may be cut before a tag, at its end, and before a space. -/
theorem shown_split {x : Char} (hx : x = '<' ∨ x = '>' ∨ x = ' ') (a b : Text) :
    shown (a ++ x :: b) = shown a + shown (x :: b) :=
  occurrences_split (by rcases hx with rfl | rfl | rfl <;> decide) a b

theorem shown_append_newline (t u : Text) : shown (t ++ '\n' :: u) = shown t + shown u := by
  have hnewline : ' ' ∉ ['\n'] := by decide
  exact (occurrences_split (by decide) t u).trans (congrArg (shown t + ·) (occurrences_append hnewline))

theorem shown_of_spaceless {t : Text} (h : ' ' ∉ t) : shown t = 0 :=
  occurrences_of_notMem h

theorem shown_append {t : Text} (h : ' ' ∉ t) (u : Text) : shown (t ++ u) = shown u :=
  occurrences_append h

theorem shown_space {t : Text} (h : t.head? ≠ some 'r') : shown (' ' :: t) = shown t := by
  have hs : startsWith (' ' :: t) (' ' :: repeatAttributeText) = false := by
    rw [startsWith_cons]
    cases t with
    | nil => rfl
    | cons c cs => exact startsWith_of_ne (by rintro rfl; exact h rfl) _ _
  rw [shown, occurrences_cons, hs]
  rfl

theorem shown_repeatAttribute (start : Text) (repeats : Bool) :
    shown (start ++ repeatAttribute repeats) = shown start + repeats.toNat := by
  cases repeats with
  | false => exact congrArg shown (List.append_nil start)
  | true => exact shown_split (x := ' ') (by decide) start repeatAttributeText

/-- An element shows the mark in its start tag and those in its content. -/
theorem shown_element (start stop : Text) (hs : shown start = 0) (hc : shown ('<' :: stop) = 0) (repeats : Bool)
    (body : Text) :
    shown (start ++ repeatAttribute repeats ++ ['>'] ++ body ++ '<' :: stop) = repeats.toNat + shown body := by
  have hbody : shown ('>' :: body) = shown body := shown_append (t := ['>']) (by decide) body
  rw [shown_split (by decide), hc, Nat.add_zero, List.append_assoc, List.singleton_append, shown_split (by decide),
    shown_repeatAttribute, hs, hbody, Nat.zero_add]

/-- Pieces with spaces between them show what they show on their own. -/
theorem shown_join {pieces : List Text} (h : ∀ piece ∈ pieces, piece ≠ [] ∧ piece.head? ≠ some 'r') :
    shown (join " " pieces) = (pieces.map shown).sum := by
  induction pieces with
  | nil => rfl
  | cons piece rest ih =>
    obtain ⟨_, hr⟩ := List.forall_mem_cons.mp h
    cases rest with
    | nil => exact congrArg shown (List.append_nil piece)
    | cons next more =>
      obtain ⟨hn, hhead⟩ := hr next List.mem_cons_self
      have hnext : (join " " (next :: more)).head? ≠ some 'r' := by
        obtain ⟨c, cs, rfl⟩ := List.exists_cons_of_ne_nil hn
        cases more <;> exact hhead
      change shown (piece ++ ' ' :: join " " (next :: more)) = _
      rw [shown_split (by decide), shown_space hnext, ih hr, List.map_cons (l := next :: more), List.sum_cons]

theorem markup_head (node : Node) : ∃ rest, markup node = '<' :: rest := by
  cases node <;> rw [markup] <;> exact ⟨_, rfl⟩

theorem inlineMarkup_head {node : Node} (h : Spaceless node) : (inlineMarkup node).head? ≠ some 'r' := by
  have element (other : Node) : (markup other).head? ≠ some 'r' := by
    obtain ⟨rest, hm⟩ := markup_head other
    rw [hm]
    exact (by decide : some '<' ≠ some 'r')
  cases h <;> rw [inlineMarkup]
  · exact wordMarkup_head _
  · exact element _
  · exact element _

theorem sum_shown_nonempty (pieces : List Text) :
    ((pieces.filter fun piece => !piece.isEmpty).map shown).sum = (pieces.map shown).sum := by
  induction pieces with
  | nil => rfl
  | cons piece rest ih =>
    cases piece with
    | nil => exact ih.trans (Nat.zero_add _).symm
    | cons c cs =>
      rw [List.filter_cons_of_pos rfl, List.map_cons, List.map_cons, List.sum_cons, List.sum_cons, ih]

theorem shown_flatten_markups (nodes : List Node) :
    shown (markups nodes).flatten = ((markups nodes).map shown).sum := by
  induction nodes with
  | nil => rw [markups]; rfl
  | cons node rest ih =>
    rw [markups, List.flatten_cons, List.map_cons, List.sum_cons, ← ih]
    cases rest with
    | nil => rw [markups]; exact congrArg shown (List.append_nil _)
    | cons next more =>
      obtain ⟨tail, ht⟩ := markup_head next
      rw [markups, List.flatten_cons, ht, List.cons_append]
      exact shown_split (by decide) _ _

theorem mem_inlineMarkups {nodes : List Node} {piece : Text} (h : piece ∈ inlineMarkups nodes) :
    ∃ node ∈ nodes, piece = inlineMarkup node := by
  induction nodes with
  | nil => rw [inlineMarkups] at h; cases h
  | cons node rest ih =>
    rw [inlineMarkups] at h
    rcases List.mem_cons.mp h with rfl | h
    · exact ⟨node, List.mem_cons_self, rfl⟩
    · obtain ⟨other, ho, he⟩ := ih h
      exact ⟨other, List.mem_cons_of_mem _ ho, he⟩

/-- The content of an `arg` shows what its parts show. -/
theorem shown_content {nodes : List Node} (h : ∀ node ∈ nodes, Spaceless node) :
    shown (join " " ((inlineMarkups nodes).filter fun piece => !piece.isEmpty)) =
      ((inlineMarkups nodes).map shown).sum := by
  rw [shown_join, sum_shown_nonempty]
  intro piece hp
  obtain ⟨hm, hne⟩ := List.mem_filter.mp hp
  obtain ⟨node, hn, rfl⟩ := mem_inlineMarkups hm
  exact ⟨by rintro he; simp [he] at hne, inlineMarkup_head (h node hn)⟩

mutual

/-- The markup of a part shows its marks. -/
theorem shown_markup : (node : Node) → Spaceless node → shown (markup node) = marks node
  | word kind token repeats, h => by
    have ht : ' ' ∉ token := by cases h; assumption
    rw [markup, marks]
    exact (shown_element "<arg choice='plain'" "/arg>" rfl rfl repeats _).trans
      (by rw [shown_of_spaceless (space_notMem_wordMarkup ht kind)]; rfl)
  | arg choice repeats children, h => by
    have hc : ∀ node ∈ children, Spaceless node := by cases h; assumption
    rw [markup, marks, ← sum_shown_inlineMarkups children hc, ← shown_content hc]
    exact shown_element ("<arg choice='".toList ++ choice.attribute ++ "'".toList) "/arg>"
      (by cases choice <;> rfl) rfl repeats _
  | group choice repeats children, h => by
    have hc : ∀ node ∈ children, Spaceless node := by cases h; assumption
    rw [markup, marks, ← sum_shown_markups children hc, ← shown_flatten_markups]
    exact shown_element ("<group choice='".toList ++ choice.attribute ++ "'".toList) "/group>"
      (by cases choice <;> rfl) rfl repeats _

theorem sum_shown_markups : (nodes : List Node) → (∀ node ∈ nodes, Spaceless node) →
    ((markups nodes).map shown).sum = allMarks nodes
  | [], _ => by rw [markups, allMarks]; rfl
  | node :: rest, h => by
    obtain ⟨hn, hr⟩ := List.forall_mem_cons.mp h
    rw [markups, List.map_cons, List.sum_cons, shown_markup node hn, sum_shown_markups rest hr, allMarks]

theorem sum_shown_inlineMarkups : (nodes : List Node) → (∀ node ∈ nodes, Spaceless node) →
    ((inlineMarkups nodes).map shown).sum = innerMarks nodes
  | [], _ => by rw [inlineMarkups, innerMarks]; rfl
  | node :: rest, h => by
    obtain ⟨hn, hr⟩ := List.forall_mem_cons.mp h
    rw [inlineMarkups, List.map_cons, List.sum_cons, sum_shown_inlineMarkups rest hr, innerMarks]
    congr 1
    cases node with
    | word kind token repeats =>
      have ht : ' ' ∉ token := by cases hn; assumption
      rw [inlineMarkup]
      exact shown_of_spaceless (space_notMem_wordMarkup ht kind)
    | arg choice repeats children =>
      rw [inlineMarkup]
      exact shown_markup (arg choice repeats children) hn
    | group choice repeats children =>
      rw [inlineMarkup]
      exact shown_markup (group choice repeats children) hn

end

end Node

namespace Command

theorem shown_parts {nodes : List Node} (h : ∀ node ∈ nodes, node.Spaceless) :
    Node.shown (((nodes.map Node.markup).filter fun markup => !markup.isEmpty).flatMap (· ++ ['\n']) ++
      "</cmdsynopsis>".toList) = Node.allMarks nodes := by
  induction nodes with
  | nil => rw [Node.allMarks]; rfl
  | cons node rest ih =>
    obtain ⟨hnode, hrest⟩ := List.forall_mem_cons.mp h
    obtain ⟨tail, ht⟩ := Node.markup_head node
    rw [Node.allMarks, ← ih hrest, ← Node.shown_markup node hnode, ht, List.map_cons, ht,
      List.filter_cons_of_pos (by rfl), List.flatMap_cons, List.append_assoc, List.append_assoc]
    exact Node.shown_append_newline _ _

/-- A synopsis shows the marks in its parts. -/
theorem shown_markup {name : Text} {nodes : List Node} (hn : ' ' ∉ name) (h : ∀ node ∈ nodes, node.Spaceless) :
    Node.shown (markup name nodes) = Node.allMarks nodes := by
  have hhead : ' ' ∉ "<cmdsynopsis>\n<command>".toList ++ name ++ "</command>\n".toList :=
    List.not_mem_append (List.not_mem_append (by decide) hn) (by decide)
  refine Eq.trans ?_ ((Node.shown_append hhead _).trans (shown_parts h))
  unfold markup
  dsimp only
  rw [← List.append_assoc]

/-- An ellipsis repeats the token before it, unless that is one too. -/
def repeatsAt (before token : Text) : Bool :=
  before != ellipsis && token == ellipsis

/-- How many tokens are followed by ellipses: the words that are, and the brackets that close groups that are. -/
def followed : List Text → Nat
  | before :: token :: rest => (repeatsAt before token).toNat + followed (token :: rest)
  | _ => 0

/-- Tokens may be counted up to one of them and from it on. -/
theorem followed_split (a : List Text) (token : Text) (b : List Text) :
    followed (a ++ token :: b) = followed (a ++ [token]) + followed (token :: b) := by
  induction a with
  | nil => exact (Nat.zero_add _).symm
  | cons first rest ih =>
    cases rest with
    | nil => simp [followed]
    | cons second more =>
      simp only [List.cons_append, followed] at ih ⊢
      rw [ih, Nat.add_assoc]

theorem followed_concat {token : Text} (ht : token ≠ ellipsis) (a : List Text) :
    followed (a ++ [token]) = followed a := by
  induction a with
  | nil => rfl
  | cons first rest ih =>
    cases rest with
    | nil => simp [followed, repeatsAt, ht]
    | cons second more =>
      simp only [List.cons_append, followed] at ih ⊢
      rw [ih]

theorem followed_cons {token : Text} {rest : List Text} (h : rest.head? ≠ some ellipsis) :
    followed (token :: rest) = followed rest := by
  cases rest with
  | nil => rfl
  | cons next more =>
    have hn : next ≠ ellipsis := fun he => h (by rw [he]; rfl)
    simp [followed, repeatsAt, hn]

theorem ne_ellipsis_of_isTarget {token : Text} (h : isTarget token = true) : token ≠ ellipsis := by
  rintro rfl
  revert h
  decide

/-- The marks in all alternatives of a sequence. -/
def Sequence.marks (sequence : Sequence) : Nat :=
  Node.allMarks sequence.nodes + (sequence.finished.map Node.allMarks).sum

theorem Sequence.marks_push (sequence : Sequence) (node : Node) :
    (sequence.push node).marks = node.marks + sequence.marks := by
  simp only [Sequence.marks, Sequence.push, Node.allMarks, Nat.add_assoc]

theorem Sequence.sum_alternatives (sequence : Sequence) :
    (sequence.alternatives.map Node.allMarks).sum = sequence.marks := by
  rw [Sequence.alternatives, List.map_reverse, List.sum_reverse, List.map_map]
  have hr : Node.allMarks ∘ List.reverse = Node.allMarks := funext Node.allMarks_reverse
  rw [hr, List.map_cons, List.sum_cons]
  rfl

theorem Sequence.forall_alternatives {sequence : Sequence} {p : Node → Prop} :
    (∀ nodes ∈ sequence.alternatives, ∀ node ∈ nodes, p node) ↔
      (∀ node ∈ sequence.nodes, p node) ∧ ∀ nodes ∈ sequence.finished, ∀ node ∈ nodes, p node := by
  simp only [Sequence.alternatives, List.mem_reverse, List.forall_mem_map, List.forall_mem_cons]

theorem Sequence.forall_alternatives_push {sequence : Sequence} {node : Node} {p : Node → Prop}
    (h : ∀ nodes ∈ sequence.alternatives, ∀ node ∈ nodes, p node) (hn : p node) :
    ∀ nodes ∈ (sequence.push node).alternatives, ∀ node ∈ nodes, p node := by
  rw [Sequence.forall_alternatives] at h ⊢
  exact ⟨List.forall_mem_cons.mpr ⟨hn, h.1⟩, h.2⟩

namespace Phrase

/-- Whether the part made last has taken over the mark of the only part in it, so that an ellipsis adds none. -/
def mergesMark : Phrase → Bool
  | group _ bracket inner => (Node.ofAlternatives bracket.choice inner.sequence.alternatives).isRepeated
  | _ => false

/-- The ellipses that the markup does not show: those of words in brackets, unless the word is one of several
alternatives, and those of groups that are already marked by the only part in them. -/
def lost : Phrase → Nat
  | nil => 0
  | word before _ => before.lost
  | redirection before _ _ => before.lost
  | group before _ inner => before.lost + inner.lost + Node.lostMarks inner.sequence.alternatives
  | bar before => before.lost
  | repeated before => before.lost + before.mergesMark.toNat

theorem tokens_ne_nil {phrase : Phrase} (h : phrase.sequence.nodes ≠ []) : phrase.tokens ≠ [] := by
  cases phrase with
  | nil => exact absurd rfl h
  | _ => simp [tokens]

theorem head_ne_ellipsis {phrase : Phrase} (h : phrase.WellFormed) : phrase.tokens.head? ≠ some ellipsis := by
  have after {ts : List Text} {token : Text} (more : List Text) (ht : ts.head? ≠ some ellipsis)
      (hn : token ≠ ellipsis) : (ts ++ token :: more).head? ≠ some ellipsis := by
    cases ts with
    | nil => simpa using hn
    | cons first rest => exact ht
  induction phrase with
  | nil => simp [tokens]
  | word before token ih => exact after [] (ih h.1) (ne_ellipsis_of_isTarget h.2)
  | redirection before sign target ih => exact after [target] (ih h.1) (ne_ellipsis_of_isTarget h.2.1)
  | group before bracket inner ih _ =>
    rw [tokens, List.append_assoc, List.cons_append]
    exact after _ (ih h.1) (by cases bracket <;> decide)
  | bar before ih => exact after [] (ih h) (by decide)
  | repeated before ih =>
    obtain ⟨first, rest, ht⟩ := List.exists_cons_of_ne_nil (tokens_ne_nil h.2)
    have hb := ih h.1
    rw [tokens, ht] at *
    exact hb

/-- The part made last is marked if an ellipsis was the last token, or if it has taken over a mark. -/
theorem isRepeated_last {phrase : Phrase} (h : phrase.WellFormed) {node : Node} {nodes : List Node}
    (hn : phrase.sequence.nodes = node :: nodes) :
    ∃ front last, phrase.tokens = front ++ [last] ∧
      node.isRepeated.toNat = (last == ellipsis).toNat + phrase.mergesMark.toNat := by
  cases phrase with
  | nil => cases hn
  | word before token =>
    cases hn
    exact ⟨before.tokens, token, rfl, by
      simp [beq_eq_false_iff_ne.mpr (ne_ellipsis_of_isTarget h.2), mergesMark, Node.ofToken, Node.isRepeated]⟩
  | redirection before sign target =>
    cases hn
    exact ⟨before.tokens ++ [sign], target, by simp [tokens],
      by
      simp [beq_eq_false_iff_ne.mpr (ne_ellipsis_of_isTarget h.2.2), mergesMark, Node.isRepeated]⟩
  | group before bracket inner =>
    cases hn
    refine ⟨before.tokens ++ bracket.opening :: inner.tokens, bracket.closing, rfl, ?_⟩
    have hc : (bracket.closing == ellipsis) = false := by cases bracket <;> rfl
    rw [hc, mergesMark, Bool.toNat_false, Nat.zero_add]
  | bar before => cases hn
  | repeated before =>
    refine ⟨before.tokens, ellipsis, rfl, ?_⟩
    obtain ⟨first, rest, hf⟩ := List.exists_cons_of_ne_nil h.2
    simp only [sequence, Sequence.repeatLast, hf, List.cons.injEq] at hn
    rw [← hn.1, Node.isRepeated_repeated]
    rfl

/-- Every ellipsis of a phrase is a mark on a part or in one, or it is lost. -/
theorem marks_add_lost {phrase : Phrase} (h : phrase.WellFormed) :
    phrase.sequence.marks + phrase.lost = followed phrase.tokens := by
  induction phrase with
  | nil => rfl
  | word before token ih =>
    rw [sequence, Sequence.marks_push, tokens, followed_concat (ne_ellipsis_of_isTarget h.2), lost, ← ih h.1]
    simp [Node.ofToken, Node.marks]
  | redirection before sign target ih =>
    have htokens : tokens (redirection before sign target) = before.tokens ++ [sign] ++ [target] := by simp [tokens]
    rw [sequence, Sequence.marks_push, htokens, followed_concat (ne_ellipsis_of_isTarget h.2.2),
      followed_concat (ne_ellipsis_of_isTarget h.2.1), lost, ← ih h.1]
    simp [Node.ofToken, Node.marks, Node.innerMarks, Node.isWord]
  | group before bracket inner ihb ihi =>
    have hopening : bracket.opening ≠ ellipsis := by cases bracket <;> decide
    have hclosing : bracket.closing ≠ ellipsis := by cases bracket <;> decide
    have hgroup := Node.marks_ofAlternatives bracket.choice inner.sequence.alternatives
    rw [Sequence.sum_alternatives] at hgroup
    have hb := ihb h.1
    have hi := ihi h.2
    rw [sequence, Sequence.marks_push, tokens, followed_concat hclosing, followed_split, followed_concat hopening,
      followed_cons (head_ne_ellipsis h.2), lost]
    omega
  | bar before ih =>
    rw [tokens, followed_concat (by decide), ← ih h]
    simp [sequence, Sequence.bar, Sequence.marks, Node.allMarks, lost]
  | repeated before ih =>
    obtain ⟨node, nodes, hn⟩ := List.exists_cons_of_ne_nil h.2
    obtain ⟨front, last, ht, hlast⟩ := isRepeated_last h.1 hn
    have hb := ih h.1
    have hmark := node.marks_repeated
    have hmarks : before.sequence.repeatLast.marks + node.isRepeated.toNat = before.sequence.marks + 1 := by
      simp only [Sequence.marks, Sequence.repeatLast, hn, Node.allMarks]
      omega
    have hfollowed : followed (before.tokens ++ [ellipsis]) = followed before.tokens + (last != ellipsis).toNat := by
      rw [ht, List.append_assoc, List.singleton_append, followed_split]
      simp [followed, repeatsAt]
    have hor : (last != ellipsis).toNat + (last == ellipsis).toNat = 1 := by
      cases h : last == ellipsis <;> simp [bne, h]
    rw [sequence, tokens, lost, hfollowed]
    omega

/-- Tokens without a space make parts without one. -/
theorem spaceless {phrase : Phrase} (h : ∀ token ∈ phrase.tokens, ' ' ∉ token) :
    ∀ nodes ∈ phrase.sequence.alternatives, ∀ node ∈ nodes, node.Spaceless := by
  induction phrase with
  | nil => simp [sequence, Sequence.alternatives]
  | word before token ih =>
    simp only [tokens, List.forall_mem_append, List.forall_mem_singleton] at h
    exact Sequence.forall_alternatives_push (ih h.1) (.ofToken h.2)
  | redirection before sign target ih =>
    simp only [tokens, List.forall_mem_append, List.forall_mem_cons] at h
    exact Sequence.forall_alternatives_push (ih h.1) (.arg (by simpa using ⟨.ofToken h.2.1, .ofToken h.2.2.1⟩) _ _)
  | group before bracket inner ihb ihi =>
    simp only [tokens, List.forall_mem_append, List.forall_mem_cons] at h
    exact Sequence.forall_alternatives_push (ihb h.1.1) (.ofAlternatives _ (ihi h.1.2.2))
  | bar before ih =>
    simp only [tokens, List.forall_mem_append] at h
    rw [Sequence.forall_alternatives]
    exact ⟨by simp [sequence, Sequence.bar], List.forall_mem_cons.mpr (Sequence.forall_alternatives.mp (ih h.1))⟩
  | repeated before ih =>
    simp only [tokens, List.forall_mem_append] at h
    have hb := Sequence.forall_alternatives.mp (ih h.1)
    rw [Sequence.forall_alternatives, sequence, Sequence.repeatLast]
    cases hn : before.sequence.nodes with
    | nil => exact ⟨by simp [hn], hb.2⟩
    | cons node nodes =>
      rw [hn, List.forall_mem_cons] at hb
      exact ⟨List.forall_mem_cons.mpr ⟨hb.1.1.repeated, hb.1.2⟩, hb.2⟩

end Phrase

theorem space_notMem_blockTokens {lines : List Text} {token : Text} (h : token ∈ blockTokens lines) : ' ' ∉ token := by
  obtain ⟨line, _, hw⟩ := List.mem_flatMap.mp h
  intro hs
  have hblank := word_not_blank hw ' ' hs
  revert hblank
  decide

/-- The markup of a synopsis has an attribute for every word and group that ellipses follow, but for those that are
lost. -/
theorem parse_repeats {reader after : TokenReader} {context : CommandContext} {result name : Text}
    (ht : reader.tokens = []) (hp : parse reader context = (.parsed (result, name), after)) :
    ∃ lines phrase nodes, reader.lines = lines ++ after.lines ∧ blockTokens lines = name :: phrase.tokens ∧
      Phrase.WellFormed phrase ∧ phrase.sequence.alternatives = [nodes] ∧ result = markup name nodes ∧
      occurrences result " rep='repeat'" + phrase.lost = followed (blockTokens lines) := by
  obtain ⟨lines, phrase, nodes, hl, hts, hw, hn, hr⟩ := parse_phrase ht hp
  refine ⟨lines, phrase, nodes, hl, hts, hw, hn, hr, ?_⟩
  have htokens : ∀ token ∈ name :: phrase.tokens, ' ' ∉ token := fun token hm => space_notMem_blockTokens (hts ▸ hm)
  obtain ⟨hname, hphrase⟩ := List.forall_mem_cons.mp htokens
  have hsum := phrase.sequence.sum_alternatives
  have hshown := shown_markup hname (Phrase.spaceless hphrase nodes (by rw [hn]; exact List.mem_singleton_self nodes))
  rw [hn, List.map_singleton, List.sum_singleton] at hsum
  rw [hts, followed_cons (Phrase.head_ne_ellipsis hw), ← Phrase.marks_add_lost hw, ← hsum, ← hshown, ← hr]
  rfl

/-- The ellipsis of a word alone in brackets is lost, while that of an alternative is kept. -/
theorem parse_repeats_file :
    ∃ result after,
      parse (ofLines ["foo [file ...] [-a | x ...]"]) { names := ["foo"], hints := {} } =
        (.parsed (result, "foo"), after) ∧
      (∃ lines phrase nodes, (ofLines ["foo [file ...] [-a | x ...]"]).lines = lines ++ after.lines ∧
        blockTokens lines = "foo".toList :: phrase.tokens ∧ Phrase.WellFormed phrase ∧
        phrase.sequence.alternatives = [nodes] ∧ result = markup "foo" nodes ∧
        occurrences result " rep='repeat'" + phrase.lost = followed (blockTokens lines)) ∧
      occurrences result " rep='repeat'" = 1 ∧ followed (blockTokens ["foo [file ...] [-a | x ...]"]) = 2 := by
  let file : Phrase := .group .nil .square (.repeated (.word .nil "file"))
  let alternatives : Phrase := .group file .square (.repeated (.word (.bar (.word .nil "-a")) "x"))
  let nodes := alternatives.sequence.nodes.reverse
  obtain ⟨after, hp⟩ : ∃ after, parse (ofLines ["foo [file ...] [-a | x ...]"]) { names := ["foo"], hints := {} } =
      (.parsed (markup "foo" nodes, "foo"), after) := ⟨_, rfl⟩
  refine ⟨markup "foo" nodes, after, hp, parse_repeats rfl hp, ?_, by decide⟩
  have htokens : ∀ token ∈ alternatives.tokens, ' ' ∉ token := by decide
  have hspaceless := Phrase.spaceless htokens nodes (by exact List.mem_singleton_self nodes)
  exact (shown_markup (by decide) hspaceless).trans rfl

end Command

end RoffDocBook.Synopsis
