import RoffDocBook.Document.Inline

/-! Substituted characters on a line of markup. The state of the substitution does not tell a tag from a reference, so
that the end of a reference within a tag ends the tag as well. -/
namespace RoffDocBook.Document.Substitution

/-- What character data consists of. -/
inductive Atom where
  | char (c : Char) (h : c ≠ '<' ∧ c ≠ '&')
  /-- A reference with its name. -/
  | reference (name : Text) (h : '>' ∉ name ∧ ';' ∉ name)

namespace Atom

def text : Atom → Text
  | char c _ => [c]
  | reference name _ => '&' :: name ++ [';']

/-- Whether a tag is taken for closed behind it. -/
def closes : Atom → Bool
  | char c _ => c == '>' || c == ';'
  | reference .. => true

/-- The text with a character replaced by its entry in the table. -/
def substituted (table : List (Char × Text)) : Atom → Text
  | char c _ => (table.lookup c).getD [c]
  | reference name h => (reference name h).text

end Atom

/-- The end of a tag. -/
def tagEnd : Atom :=
  .char '>' (by decide)

/-- What a line of markup consists of. -/
inductive Item where
  | atom (atom : Atom)
  /-- A tag with what stands between its angle brackets. -/
  | tag (inner : List Atom)

namespace Item

def text : Item → Text
  | atom a => a.text
  | tag inner => '<' :: inner.flatMap Atom.text ++ ['>']

/-- The item as it is to be in the output. -/
def intended (table : List (Char × Text)) : Item → Text
  | atom a => a.substituted table
  | tag inner => (tag inner).text

/-- The item as it is in the output: a tag is left as it is up to the first end of a tag or of a reference. -/
def substituted (table : List (Char × Text)) : Item → Text
  | atom a => a.substituted table
  | tag inner =>
    let atoms := inner ++ [tagEnd]
    let closed := atoms.dropWhile fun a => !a.closes
    '<' :: (atoms.takeWhile fun a => !a.closes).flatMap Atom.text ++ (closed.take 1).flatMap Atom.text ++
      (closed.drop 1).flatMap (Atom.substituted table)

/-- Whether nothing ends in a tag before the tag does. -/
def Unbroken : Item → Prop
  | atom _ => True
  | tag inner => ∀ a ∈ inner, a.closes = false

instance : DecidablePred Unbroken
  | atom _ => isTrue trivial
  | tag inner => inferInstanceAs (Decidable (∀ a ∈ inner, a.closes = false))

end Item

variable (table : List (Char × Text))

theorem substituteChars_open {name : Text} (h : '>' ∉ name ∧ ';' ∉ name) (rest : Text) :
    substituteChars table true (name ++ rest) = name ++ substituteChars table true rest := by
  induction name with
  | nil => rfl
  | cons c name ih =>
    simp only [List.mem_cons, not_or] at h
    obtain ⟨⟨hangle, hname⟩, hend, hmore⟩ := h
    have hkept : (c == '>' || c == ';') = false := by simp [Ne.symm hangle, Ne.symm hend]
    rw [List.cons_append, substituteChars, hkept, Bool.and_false, if_neg Bool.false_ne_true]
    simp [ih ⟨hname, hmore⟩]

theorem substituteChars_reference {name : Text} (h : '>' ∉ name ∧ ';' ∉ name) (inMarkup : Bool) (rest : Text) :
    substituteChars table inMarkup ('&' :: name ++ [';'] ++ rest) =
      '&' :: name ++ [';'] ++ substituteChars table false rest := by
  have hopen : substituteChars table inMarkup ('&' :: (name ++ ';' :: rest)) =
      '&' :: substituteChars table true (name ++ ';' :: rest) := by
    cases inMarkup <;> rfl
  have hclose : substituteChars table true (';' :: rest) = ';' :: substituteChars table false rest := rfl
  simp only [List.cons_append, List.append_assoc, List.nil_append]
  rw [hopen, substituteChars_open table h, hclose]

/-- Outside of tags an atom is replaced by its substitute. -/
theorem substituteChars_atom (a : Atom) (rest : Text) :
    substituteChars table false (a.text ++ rest) = a.substituted table ++ substituteChars table false rest := by
  cases a with
  | char c h =>
    have hplain : (false || c == '<' || c == '&') = false := by simp [h]
    rw [Atom.text, List.singleton_append, substituteChars, Bool.false_and, if_neg Bool.false_ne_true, hplain,
      if_neg Bool.false_ne_true]
    rfl
  | reference name h => exact substituteChars_reference table h false rest

/-- Within a tag an atom stays, and the tag stays open unless the atom closes it. -/
theorem substituteChars_within (a : Atom) (rest : Text) :
    substituteChars table true (a.text ++ rest) = a.text ++ substituteChars table (!a.closes) rest := by
  cases a with
  | char c h =>
    rw [Atom.text, List.singleton_append, substituteChars, Bool.true_and, Atom.closes]
    split
    · rename_i hc
      rw [hc]
      rfl
    · rename_i hc
      rw [eq_false_of_ne_true hc]
      rfl
  | reference name h => exact substituteChars_reference table h true rest

theorem substituteChars_atoms (atoms : List Atom) (rest : Text) :
    substituteChars table false (atoms.flatMap Atom.text ++ rest) =
      atoms.flatMap (Atom.substituted table) ++ substituteChars table false rest := by
  induction atoms with
  | nil => rfl
  | cons a atoms ih =>
    rw [List.flatMap_cons, List.append_assoc, substituteChars_atom, ih, List.flatMap_cons, List.append_assoc]

/-- A tag is left as it is up to the first atom that closes it. -/
theorem substituteChars_inner {atoms : List Atom} (h : ∃ a ∈ atoms, a.closes = true) (rest : Text) :
    let closed := atoms.dropWhile fun a => !a.closes
    substituteChars table true (atoms.flatMap Atom.text ++ rest) =
      (atoms.takeWhile fun a => !a.closes).flatMap Atom.text ++ ((closed.take 1).flatMap Atom.text ++
        ((closed.drop 1).flatMap (Atom.substituted table) ++ substituteChars table false rest)) := by
  intro closed
  induction atoms with
  | nil =>
    obtain ⟨a, ha, -⟩ := h
    cases ha
  | cons a atoms ih =>
    rw [List.flatMap_cons, List.append_assoc, substituteChars_within]
    cases hc : a.closes with
    | true => simp [closed, hc, substituteChars_atoms]
    | false =>
      have hlater : ∃ a ∈ atoms, a.closes = true := by
        obtain ⟨b, hb, hclose⟩ := h
        rcases List.mem_cons.mp hb with rfl | hb
        · rw [hc] at hclose
          cases hclose
        · exact ⟨b, hb, hclose⟩
      have hrest := ih hlater
      simp only [closed, hc, Bool.not_false, List.takeWhile_cons_of_pos, List.dropWhile_cons_of_pos,
        List.flatMap_cons, List.append_assoc]
      rw [hrest]

theorem substituteChars_item (item : Item) (rest : Text) :
    substituteChars table false (item.text ++ rest) = item.substituted table ++ substituteChars table false rest := by
  cases item with
  | atom a => exact substituteChars_atom table a rest
  | tag inner =>
    have hclose : ∃ a ∈ inner ++ [tagEnd], a.closes = true := ⟨tagEnd, by simp, rfl⟩
    have htext : (inner ++ [tagEnd]).flatMap Atom.text = inner.flatMap Atom.text ++ ['>'] := by
      rw [List.flatMap_append]
      rfl
    have hinner := substituteChars_inner table hclose rest
    have hopen : ∀ t, substituteChars table false ('<' :: t) = '<' :: substituteChars table true t := fun _ => rfl
    rw [htext] at hinner
    rw [Item.text, List.cons_append, List.cons_append, hopen, hinner]
    simp [Item.substituted]

theorem substituted_of_unbroken {item : Item} (h : item.Unbroken) : item.substituted table = item.intended table := by
  cases item with
  | atom a => rfl
  | tag inner =>
    have hopen : ∀ a ∈ inner, (!a.closes) = true := fun a ha => by rw [h a ha]; rfl
    have htake : (inner ++ [tagEnd]).takeWhile (fun a => !a.closes) = inner := by
      rw [List.takeWhile_append_of_pos hopen]
      simp [tagEnd, Atom.closes]
    have hdrop : (inner ++ [tagEnd]).dropWhile (fun a => !a.closes) = [tagEnd] := by
      rw [List.dropWhile_append_of_pos hopen]
      rfl
    simp only [Item.substituted, htake, hdrop]
    simp [Item.intended, Item.text, tagEnd, Atom.text]

theorem substituteChars_items (items : List Item) :
    substituteChars table false (items.flatMap Item.text) = items.flatMap (Item.substituted table) := by
  induction items with
  | nil => rfl
  | cons item items ih => rw [List.flatMap_cons, substituteChars_item, ih, List.flatMap_cons]

/-- References are left as they are, and so is each tag up to the first reference or semicolon in it; what comes after
that in the tag, its end included, is replaced as all text is. So the substitution does not touch markup where no tag
has a reference or a semicolon in it. -/
theorem substituteChars_line (items : List Item) :
    substituteChars table false (items.flatMap Item.text) = items.flatMap (Item.substituted table) ∧
      ((∀ item ∈ items, item.Unbroken) →
        substituteChars table false (items.flatMap Item.text) = items.flatMap (Item.intended table)) := by
  refine ⟨substituteChars_items table items, fun h => ?_⟩
  have hsame : items.map (Item.substituted table) = items.map (Item.intended table) := by
    apply List.map_congr_left
    intro item hitem
    exact substituted_of_unbroken table (h item hitem)
  rw [substituteChars_items, List.flatMap_def, hsame, List.flatMap_def]

/-- Character data, without what begins a tag or a reference. -/
private def chars (t : Text) : List Atom :=
  t.filterMap fun c => if h : c ≠ '<' ∧ c ≠ '&' then some (.char c h) else none

/-- The address of a link keeps its characters only before a reference in it. -/
theorem substituteChars_line_link :
    let table : List (Char × Text) := [('b', ['x'])]
    let link := Item.tag (chars "b='b" ++ .reference "amp" (by decide) :: chars "b'")
    let bold := Item.tag (chars "b")
    (∀ item ∈ [bold, .atom (.char 'b' (by decide))], item.Unbroken) ∧
      substituteChars table false "<b>b" = "<b>x".toList ∧
      substituteChars table false "<b='b&amp;b'>" = "<b='b&amp;x'>".toList ∧
      substituteChars table false link.text ≠ link.intended table := by
  intro table link bold
  have hbold : ∀ item ∈ [bold, .atom (.char 'b' (by decide))], item.Unbroken := by decide
  have hlink := (substituteChars_line table [link]).1
  have hbroken : substituteChars table false link.text ≠ link.intended table := by
    have hsingle : [link].flatMap Item.text = link.text := List.append_nil _
    rw [← hsingle, hlink]
    decide
  exact ⟨hbold, (substituteChars_line table [bold, .atom (.char 'b' (by decide))]).2 hbold, hlink, hbroken⟩

end RoffDocBook.Document.Substitution
