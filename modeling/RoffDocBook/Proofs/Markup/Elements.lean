import RoffDocBook.Proofs.Markup.Tags
import RoffDocBook.Proofs.Text.Search

/-! Markup as text with tags and comments in it. A tag or a comment ends where it ends whatever comes after it, so that
markup falls into the same tags and comments when something is put behind it. -/
namespace RoffDocBook.Markup
open Text

/-- A tag or a comment in which no further angle bracket opens anything. -/
inductive Mark : Text → Prop where
  | tag {tag : Tag} (hf : tag.WellFormed) (hi : '<' ∉ tag.written.tail) : Mark tag.written
  | comment {inside : Text} (he : breakOn? "-->" (inside ++ "-->".toList) = some (inside, []))
      (hi : '<' ∉ inside) : Mark ("<!--".toList ++ (inside ++ "-->".toList))

def BeginsTag (t : Text) : Prop :=
  ∃ found, Tag.read? t = some found ∧ '<' ∉ found.1.written.tail

def BeginsComment (t : Text) : Prop :=
  ∃ rest found, dropStart? "<!--" t = some rest ∧ breakOn? "-->" rest = some found ∧ '<' ∉ found.1

/-- Markup in which every angle bracket begins a complete tag or comment without a further one in it. -/
def Marked : Text → Prop
  | [] => True
  | c :: cs => (c = '<' → BeginsTag (c :: cs) ∨ BeginsComment (c :: cs)) ∧ Marked cs

instance (t : Text) : Decidable (BeginsTag t) :=
  match h : Tag.read? t with
  | none => isFalse fun ⟨_, hf, _⟩ => by rw [h] at hf; cases hf
  | some found =>
    decidable_of_iff ('<' ∉ found.1.written.tail)
      ⟨fun hn => ⟨found, h, hn⟩, fun ⟨_, hf, hn⟩ => Option.some.inj (h.symm.trans hf) ▸ hn⟩

instance (t : Text) : Decidable (BeginsComment t) :=
  match hd : dropStart? "<!--" t with
  | none => isFalse fun ⟨_, _, hr, _⟩ => by rw [hd] at hr; cases hr
  | some rest =>
    match hb : breakOn? "-->" rest with
    | none => isFalse fun ⟨_, _, hr, hf, _⟩ => by
        cases hd.symm.trans hr
        rw [hb] at hf
        cases hf
    | some found =>
      decidable_of_iff ('<' ∉ found.1)
        ⟨fun hn => ⟨rest, found, hd, hb, hn⟩, fun ⟨_, _, hr, hf, hn⟩ => by
          cases hd.symm.trans hr
          cases hb.symm.trans hf
          exact hn⟩

instance decidableMarked : (t : Text) → Decidable (Marked t)
  | [] => isTrue trivial
  | c :: cs =>
    have := decidableMarked cs
    inferInstanceAs (Decidable ((c = '<' → BeginsTag (c :: cs) ∨ BeginsComment (c :: cs)) ∧ Marked cs))

/-- What a text begins with where an angle bracket stands. -/
theorem exists_mark {t : Text} (h : BeginsTag t ∨ BeginsComment t) : ∃ m rest, Mark m ∧ t = m ++ rest := by
  rcases h with ⟨⟨tag, length⟩, hread, hi⟩ | ⟨rest, ⟨inside, after⟩, hdrop, hbreak, hi⟩
  · obtain ⟨hf, _, rest, ht⟩ := Tag.wellFormed_of_read hread
    exact ⟨tag.written, rest, .tag hf hi, ht⟩
  · have hrest := breakOn?_eq_some hbreak
    refine ⟨"<!--".toList ++ (inside ++ "-->".toList), after, .comment ?_ hi, ?_⟩
    · rw [hrest] at hbreak
      exact breakOn?_of_append hbreak
    · rw [dropStart?_eq_some hdrop, hrest]
      simp only [List.append_assoc]

theorem marked_of_notMem {t : Text} (h : '<' ∉ t) : Marked t := by
  induction t with
  | nil => trivial
  | cons c t ih =>
    rw [List.mem_cons, not_or] at h
    exact ⟨fun hc => absurd hc.symm h.1, ih h.2⟩

theorem Marked.suffix {t rest : Text} (h : Marked (t ++ rest)) : Marked rest := by
  induction t with
  | nil => exact h
  | cons c t ih => exact ih h.2

namespace Mark
variable {m : Text}

/-- Only the first character is an angle bracket that opens something. -/
theorem eq_cons (h : Mark m) : ∃ tail, m = '<' :: tail ∧ '<' ∉ tail := by
  cases h with
  | @tag tag hf hi =>
    cases hf
    exact ⟨_, rfl, hi⟩
  | @comment inside _ hi =>
    refine ⟨"!--".toList ++ (inside ++ "-->".toList), rfl, ?_⟩
    simp [hi]

theorem ne_nil (h : Mark m) : m ≠ [] := by
  obtain ⟨tail, rfl, _⟩ := h.eq_cons
  exact List.cons_ne_nil _ _

/-- The last character closes what the first one opens. -/
theorem eq_concat (h : Mark m) : ∃ init, m = init ++ ['>'] := by
  cases h with
  | tag hf _ =>
    cases hf
    exact ⟨'<' :: _, rfl⟩
  | @comment inside _ _ => exact ⟨"<!--".toList ++ (inside ++ "--".toList), by simp⟩

theorem begins (h : Mark m) (rest : Text) : BeginsTag (m ++ rest) ∨ BeginsComment (m ++ rest) := by
  cases h with
  | tag hf hi => exact Or.inl ⟨_, hf.read rest, hi⟩
  | @comment inside he hi =>
    refine Or.inr ⟨_, _, ?_, breakOn?_append_of_some he rest, hi⟩
    rw [List.append_assoc]
    exact dropStart?_append _ _

theorem marked (h : Mark m) : Marked m := by
  have hbegins := h.begins []
  rw [List.append_nil] at hbegins
  obtain ⟨tail, rfl, ht⟩ := h.eq_cons
  exact ⟨fun _ => hbegins, marked_of_notMem ht⟩

end Mark

/-- Markup that is put together of two parts has the tags and comments of both. -/
theorem Marked.append {t u : Text} (ht : Marked t) (hu : Marked u) : Marked (t ++ u) := by
  induction t with
  | nil => exact hu
  | cons c t ih =>
    refine ⟨?_, ih ht.2⟩
    intro hc
    obtain ⟨m, rest, hm, hrest⟩ := exists_mark (ht.1 hc)
    change BeginsTag ((c :: t) ++ u) ∨ BeginsComment ((c :: t) ++ u)
    rw [hrest, List.append_assoc]
    exact hm.begins (rest ++ u)

/-- Markup is text up to its first tag or comment, that tag or comment, and more markup. -/
theorem Marked.cases_mark {t : Text} (h : Marked t) :
    '<' ∉ t ∨ ∃ before m rest, '<' ∉ before ∧ Mark m ∧ Marked rest ∧ t = before ++ (m ++ rest) := by
  induction t with
  | nil => exact Or.inl List.not_mem_nil
  | cons c cs ih =>
    by_cases hc : c = '<'
    · obtain ⟨m, rest, hm, hrest⟩ := exists_mark (h.1 hc)
      rw [hrest] at h
      exact Or.inr ⟨[], m, rest, List.not_mem_nil, hm, h.suffix, hrest⟩
    · rcases ih h.2 with hcs | ⟨before, m, rest, hb, hm, hr, rfl⟩
      · exact Or.inl (by simp [Ne.symm hc, hcs])
      · exact Or.inr ⟨c :: before, m, rest, by simp [Ne.symm hc, hb], hm, hr, rfl⟩

/-- Such markup is read as texts with one tag or comment after each. -/
@[elab_as_elim]
theorem Marked.reading {motive : (t : Text) → Marked t → Prop}
    (text : ∀ (t : Text) (_ : '<' ∉ t) (h : Marked t), motive t h)
    (mark : ∀ (before m rest : Text) (_ : '<' ∉ before) (_ : Mark m) (hr : Marked rest)
      (h : Marked (before ++ (m ++ rest))), motive rest hr → motive (before ++ (m ++ rest)) h)
    (t : Text) (h : Marked t) : motive t h := by
  induction hn : t.length using Nat.strong_induction_on generalizing t with
  | _ n ih =>
    rcases h.cases_mark with ht | ⟨before, m, rest, hb, hm, hr, rfl⟩
    · exact text t ht h
    · obtain ⟨tail, hcons, _⟩ := hm.eq_cons
      have hlt : rest.length < n := by
        rw [← hn, hcons]
        simp only [List.length_append, List.length_cons]
        omega
      exact mark before m rest hb hm hr h (ih rest.length hlt rest hr rfl)

section Tags

theorem tags_of_none {c : Char} {rest : Text} (h : Tag.read? (c :: rest) = none) : tags (c :: rest) = tags rest := by
  rw [tags, items, itemsFrom, h]
  rfl

theorem tags_tag {tag : Tag} (h : tag.WellFormed) (rest : Text) : tags (tag.written ++ rest) = tag :: tags rest := by
  rw [tags, items_tag h]
  rfl

theorem tags_text {t : Text} (h : '<' ∉ t) (rest : Text) : tags (t ++ rest) = tags rest := by
  induction t with
  | nil => rfl
  | cons c t ih =>
    rw [List.mem_cons, not_or] at h
    rw [List.cons_append, tags_of_none (by simp [Tag.read?, Ne.symm h.1]), ih h.2]

theorem tags_of_notMem {t : Text} (h : '<' ∉ t) : tags t = [] := by
  have hall := tags_text h []
  rwa [List.append_nil] at hall

/-- A comment has no tags. -/
theorem tags_comment {inside : Text} (h : '<' ∉ inside) (rest : Text) :
    tags ("<!--".toList ++ (inside ++ "-->".toList) ++ rest) = tags rest := by
  have hnone : Tag.read? ('<' :: ("!--".toList ++ (inside ++ "-->".toList) ++ rest)) = none := rfl
  have hinner : '<' ∉ "!--".toList ++ (inside ++ "-->".toList) := by simp [h]
  exact (tags_of_none hnone).trans (tags_text hinner rest)

theorem Mark.tags_append {m : Text} (h : Mark m) (rest : Text) : tags (m ++ rest) = tags m ++ tags rest := by
  cases h with
  | @tag tag hf hi =>
    have hself := tags_tag hf []
    rw [List.append_nil] at hself
    rw [tags_tag hf, hself]
    rfl
  | @comment inside _ hi =>
    have hself := tags_comment hi []
    rw [List.append_nil] at hself
    rw [tags_comment hi, hself]
    rfl

/-- The tags of markup that is put together of two parts are those of one and then those of the other. -/
theorem tags_append {t : Text} (h : Marked t) (rest : Text) : tags (t ++ rest) = tags t ++ tags rest := by
  induction t, h using Marked.reading with
  | text t ht _ => rw [tags_text ht, tags_of_notMem ht, List.nil_append]
  | mark before m inner hb hm _ _ ih =>
    rw [List.append_assoc, List.append_assoc, tags_text hb, tags_text hb, hm.tags_append, hm.tags_append, ih,
      List.append_assoc]

end Tags
/-! The elements that the tags of markup leave open. Markup that closes what it opens can stand anywhere without a
change to what is open around it. -/

/-- The elements open after tags, the innermost first, given those open before them, unless an end tag does not belong
to the innermost one. The tag of an empty element opens and closes nothing. -/
def openAfter : List Text → List Tag → Option (List Text)
  | opened, [] => some opened
  | opened, tag :: rest =>
    if tag.isEmpty then openAfter opened rest
    else if tag.isEnd then if opened.head? = some tag.name then openAfter opened.tail rest else none
    else openAfter (tag.name :: opened) rest

/-- The start and end tags of markup are properly nested. -/
def TagsNest (markup : Text) : Prop :=
  openAfter [] (tags markup) = some []

instance (markup : Text) : Decidable (TagsNest markup) :=
  inferInstanceAs (Decidable (openAfter [] (tags markup) = some []))

theorem openAfter_append (opened : List Text) (a b : List Tag) :
    openAfter opened (a ++ b) = (openAfter opened a).bind fun next => openAfter next b := by
  induction a generalizing opened with
  | nil => rfl
  | cons tag a ih =>
    rw [List.cons_append, openAfter, openAfter]
    split
    · exact ih opened
    · split
      · split
        · exact ih opened.tail
        · rfl
      · exact ih (tag.name :: opened)

/-- Markup that closes all that it opens, and nothing else, whatever is open around it. -/
structure Closed (t : Text) : Prop where
  marked : Marked t
  openAfter_tags : ∀ opened, openAfter opened (tags t) = some opened

namespace Closed
variable {t u : Text}

theorem text (h : '<' ∉ t) : Closed t where
  marked := marked_of_notMem h
  openAfter_tags opened := by
    rw [tags_of_notMem h]
    rfl

theorem append (ht : Closed t) (hu : Closed u) : Closed (t ++ u) where
  marked := ht.marked.append hu.marked
  openAfter_tags opened := by
    rw [tags_append ht.marked, openAfter_append, ht.openAfter_tags]
    exact hu.openAfter_tags opened

/-- What is open after closed markup with more behind it depends on that only. -/
theorem openAfter_append (h : Closed t) (opened : List Text) (rest : Text) :
    openAfter opened (tags (t ++ rest)) = openAfter opened (tags rest) := by
  rw [tags_append h.marked, Markup.openAfter_append, h.openAfter_tags]
  rfl

end Closed

theorem notMem_of_isTagNameChar {name : Text} (hn : ∀ c ∈ name, isTagNameChar c = true) {d : Char}
    (hd : isTagNameChar d = false) : d ∉ name := by
  intro hm
  rw [hn d hm] at hd
  cases hd

/-- An element around closed markup is closed. -/
theorem Closed.element (c : Char) (name : Text) {attributes body : Text} (hc : c.isAlpha = true)
    (hn : ∀ d ∈ c :: name, isTagNameChar d = true) (ha : Tag.Ending attributes false) (hi : '<' ∉ attributes)
    (hb : Closed body) :
    Closed ((Tag.make false (c :: name) attributes false).written ++
      (body ++ (Tag.make true (c :: name) [] false).written)) := by
  have hname : '<' ∉ c :: name := notMem_of_isTagNameChar hn (by decide)
  have hstart : (Tag.make false (c :: name) attributes false).WellFormed := .intro false hc hn ha
  have hfinish : (Tag.make true (c :: name) [] false).WellFormed := .intro true hc hn .bare
  have hstartMark : Mark (Tag.make false (c :: name) attributes false).written :=
    .tag hstart (by simpa [Tag.make, hi] using hname)
  have hfinishMark : Mark (Tag.make true (c :: name) [] false).written :=
    .tag hfinish (by simpa [Tag.make] using hname)
  refine ⟨hstartMark.marked.append (hb.marked.append hfinishMark.marked), ?_⟩
  intro opened
  have hend : tags (Tag.make true (c :: name) [] false).written = [Tag.make true (c :: name) [] false] := by
    have htags := tags_tag hfinish []
    rwa [List.append_nil] at htags
  rw [tags_tag hstart]
  change openAfter ((c :: name) :: opened) _ = _
  rw [hb.openAfter_append, hend]
  simp [openAfter, Tag.make]

end RoffDocBook.Markup
