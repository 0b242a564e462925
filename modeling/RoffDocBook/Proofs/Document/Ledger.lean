import RoffDocBook.Proofs.Document.Balance

/-! Texts that stand in the output in their order, and which lines hold them. A line that may be taken back holds none,
so that taking it back loses nothing. -/
namespace RoffDocBook

namespace Text

/-- A text with blanks in place of some of its tabs. -/
inductive Spaced : Text → Text → Prop where
  | nil : Spaced [] []
  | char (c : Char) {t u : Text} (h : Spaced t u) : Spaced (c :: t) (c :: u)
  | tab (n : Nat) {t u : Text} (h : Spaced t u) : Spaced ('\t' :: t) (List.replicate n ' ' ++ u)

theorem Spaced.refl (t : Text) : Spaced t t := by
  induction t with
  | nil => exact .nil
  | cons c t ih => exact .char c ih

/-- Of two texts put together, each has its tabs replaced. -/
theorem Spaced.append_inv {s t u : Text} (h : Spaced (s ++ t) u) :
    ∃ before after, u = before ++ after ∧ Spaced t after := by
  induction s generalizing u with
  | nil => exact ⟨[], u, rfl, h⟩
  | cons c s ih =>
    cases h with
    | char _ h =>
      obtain ⟨before, after, rfl, hafter⟩ := ih h
      exact ⟨c :: before, after, rfl, hafter⟩
    | tab n h =>
      obtain ⟨before, after, rfl, hafter⟩ := ih h
      exact ⟨List.replicate n ' ' ++ before, after, (List.append_assoc _ _ _).symm, hafter⟩

/-- Blanks for tabs leave a blank text blank, and no other one. -/
theorem Spaced.isAllBlank_eq {t u : Text} (h : Spaced t u) : isAllBlank u = isAllBlank t := by
  unfold isAllBlank
  induction h with
  | nil => rfl
  | char c _ ih => rw [List.all_cons, List.all_cons, ih]
  | tab n _ ih =>
    have htab : isBlank '\t' = true := by decide
    have hblanks : (List.replicate n ' ').all isBlank = true :=
      List.all_eq_true.mpr fun c hc => List.eq_of_mem_replicate hc ▸ (by decide : isBlank ' ' = true)
    rw [List.all_append, List.all_cons, ih, htab, hblanks]

/-- Texts that occur in a text one after the other, with blanks for some of their tabs. -/
inductive InOrder : List Text → Text → Prop where
  | nil (out : Text) : InOrder [] out
  | cons (before : Text) {t u out : Text} {ts : List Text} (h : Spaced t u) (hr : InOrder ts out) :
      InOrder (t :: ts) (before ++ (u ++ out))

namespace InOrder
variable {t u : Text} {ts us : List Text}

theorem after (h : InOrder ts t) (before : Text) : InOrder ts (before ++ t) := by
  cases h with
  | nil => exact .nil _
  | cons earlier hs hr =>
    rw [← List.append_assoc]
    exact .cons (before ++ earlier) hs hr

theorem append (h : InOrder ts t) (k : InOrder us u) : InOrder (ts ++ us) (t ++ u) := by
  induction h with
  | nil out => exact k.after out
  | cons before hs _ ih =>
    rw [List.append_assoc, List.append_assoc]
    exact .cons before hs ih

theorem before (h : InOrder ts t) (rest : Text) : InOrder ts (t ++ rest) := by
  have hall := h.append (.nil rest)
  rwa [List.append_nil] at hall

theorem single (before after : Text) (h : Spaced t u) : InOrder [t] (before ++ (u ++ after)) :=
  .cons before h (.nil after)

theorem self (t : Text) : InOrder [t] t := by
  have h := single [] [] (.refl t)
  rwa [List.nil_append, List.append_nil] at h

/-- Texts may be left out. -/
theorem sublist (h : InOrder ts t) (hs : List.Sublist us ts) : InOrder us t := by
  induction h generalizing us with
  | nil out =>
    rw [List.sublist_nil.mp hs]
    exact .nil out
  | @cons before first u out ts hspaced _ ih =>
    cases hs with
    | cons _ hs =>
      rw [← List.append_assoc]
      exact (ih hs).after (before ++ u)
    | cons_cons _ hs => exact .cons before hspaced (ih hs)

/-- One of the texts is not blank, so the whole is not. -/
theorem isAllBlank_eq_false (h : InOrder ts t) {piece : Text} (hm : piece ∈ ts) (hb : isAllBlank piece = false) :
    isAllBlank t = false := by
  induction h with
  | nil => cases hm
  | @cons before first u out ts hs _ ih =>
    unfold isAllBlank
    rw [List.all_append, List.all_append, Bool.and_eq_false_iff, Bool.and_eq_false_iff]
    rcases List.mem_cons.mp hm with rfl | hm
    · exact Or.inr (Or.inl (hs.isAllBlank_eq.trans hb))
    · exact Or.inr (Or.inr (ih hm))

end InOrder

end Text

namespace Document
open Text

/-- A line that may be taken back, told by the number of lines before it, with the texts that would be lost. -/
structure Provisional where
  line : Nat
  texts : List Text

/-- Lines on top of older ones, each with the texts that it holds, of which some may be taken back. -/
structure Ledger (old : List Text) (starts : List Provisional) (lines texts : List Text)
    (records : List (Text × List Text)) : Prop where
  lines_eq : lines = records.map Prod.fst ++ old
  proper : records = [] → old = []
  holds : ∀ record ∈ records, InOrder record.2 record.1
  texts_eq : records.reverse.flatMap Prod.snd = texts
  inner : starts.Pairwise fun inner outer => outer.line < inner.line
  starts_eq : ∀ start ∈ starts, ∃ k line, start.line = old.length + k ∧ records.reverse[k]? = some (line, start.texts)

/-- The lines on top of older ones hold texts in their order, of which some lines may be taken back. -/
def Recorded (old : List Text) (starts : List Provisional) (lines texts : List Text) : Prop :=
  ∃ records, Ledger old starts lines texts records

section
variable {old lines texts more : List Text} {starts : List Provisional} {start : Provisional}
  {records : List (Text × List Text)} {piece : Text}

theorem Ledger.length_eq (h : Ledger old starts lines texts records) : lines.length = old.length + records.length := by
  rw [h.lines_eq, List.length_append, List.length_map, Nat.add_comm]

theorem Ledger.cons (h : Ledger old starts lines texts records) (hp : InOrder more piece) :
    Ledger old starts (piece :: lines) (texts ++ more) ((piece, more) :: records) where
  lines_eq := by
    rw [h.lines_eq]
    rfl
  proper hn := by cases hn
  holds := List.forall_mem_cons.mpr ⟨hp, h.holds⟩
  texts_eq := by
    rw [List.reverse_cons, List.flatMap_append, h.texts_eq]
    simp
  inner := h.inner
  starts_eq start hm := by
    obtain ⟨k, line, hk, hrecord⟩ := h.starts_eq start hm
    refine ⟨k, line, hk, ?_⟩
    rw [List.reverse_cons, List.getElem?_append_left (List.getElem?_eq_some_iff.mp hrecord).1, hrecord]

/-- A line that may be taken back is the last one or comes before it. -/
theorem Ledger.start_cases {record : Text × List Text}
    (h : Ledger old starts lines texts (record :: records)) (hm : start ∈ starts) :
    (start.line + 1 = lines.length ∧ record.2 = start.texts) ∨
      ∃ k line, start.line = old.length + k ∧ k < records.length ∧ records.reverse[k]? = some (line, start.texts) := by
  obtain ⟨k, line, hk, hrecord⟩ := h.starts_eq start hm
  rw [List.reverse_cons] at hrecord
  rcases Nat.lt_or_ge k records.reverse.length with hlt | hge
  · rw [List.getElem?_append_left hlt] at hrecord
    rw [List.length_reverse] at hlt
    exact Or.inr ⟨k, line, hk, hlt, hrecord⟩
  · have hlt := (List.getElem?_eq_some_iff.mp hrecord).1
    have hlast : k = records.reverse.length := by
      rw [List.length_append, List.length_singleton] at hlt
      omega
    rw [hlast, List.getElem?_concat_length] at hrecord
    refine Or.inl ⟨?_, congrArg Prod.snd (Option.some.inj hrecord)⟩
    rw [h.length_eq, List.length_cons, hk, hlast, List.length_reverse]
    omega

namespace Recorded

theorem nil : Recorded [] [] [] [] :=
  ⟨[], rfl, fun _ => rfl, (fun _ hm => by cases hm), rfl, .nil, fun _ hm => by cases hm⟩

/-- One line on top of older ones, which may be taken back. -/
theorem first (old : List Text) (hp : InOrder more piece) :
    Recorded old [{ line := old.length, texts := more }] (piece :: old) more := by
  refine ⟨[(piece, more)], rfl, (fun hn => by cases hn), List.forall_mem_singleton.mpr hp, ?_,
    List.pairwise_singleton _ _, fun start hm => ⟨0, piece, ?_, ?_⟩⟩
  · simp
  · rw [List.mem_singleton.mp hm]
    rfl
  · rw [List.mem_singleton.mp hm]
    rfl

theorem lt (h : Recorded old starts lines texts) (hm : start ∈ starts) : start.line < lines.length := by
  obtain ⟨records, hl⟩ := h
  obtain ⟨k, line, hk, hrecord⟩ := hl.starts_eq start hm
  obtain ⟨hlt, _⟩ := List.getElem?_eq_some_iff.mp hrecord
  rw [List.length_reverse] at hlt
  rw [hl.length_eq, hk]
  omega

/-- A line that holds some texts. -/
theorem cons (h : Recorded old starts lines texts) (hp : InOrder more piece) :
    Recorded old starts (piece :: lines) (texts ++ more) := by
  obtain ⟨records, hl⟩ := h
  exact ⟨_, hl.cons hp⟩

/-- The last line holds further texts, unless it may be taken back. -/
theorem lengthen (h : Recorded old starts lines texts) (hp : InOrder more piece)
    (hs : more ≠ [] → ∀ start ∈ starts, start.line + 1 < lines.length) :
    Recorded old starts (Document.lengthen piece lines) (texts ++ more) := by
  obtain ⟨records, hl⟩ := h
  cases records with
  | nil =>
    have hnone : lines = [] := by
      rw [hl.lines_eq, hl.proper rfl]
      rfl
    rw [hnone, Document.lengthen, ← hnone]
    exact cons ⟨[], hl⟩ hp
  | cons record records =>
    obtain ⟨last, held⟩ := record
    refine ⟨(last ++ piece, held ++ more) :: records, ?_, (fun hn => by cases hn), ?_, ?_, hl.inner, ?_⟩
    · rw [hl.lines_eq]
      rfl
    · obtain ⟨hlast, hothers⟩ := List.forall_mem_cons.mp hl.holds
      exact List.forall_mem_cons.mpr ⟨hlast.append hp, hothers⟩
    · rw [← hl.texts_eq]
      simp
    · intro start hm
      rw [List.reverse_cons]
      rcases hl.start_cases hm with ⟨hlast, hheld⟩ | ⟨k, line, hk, hlt, hrecord⟩
      · have hmore : more = [] := by
          by_contra hne
          have hearlier := hs hne start hm
          omega
        refine ⟨records.reverse.length, last ++ piece, ?_, ?_⟩
        · rw [hl.length_eq, List.length_cons] at hlast
          rw [List.length_reverse]
          omega
        · rw [List.getElem?_concat_length, hmore, List.append_nil, ← hheld]
      · refine ⟨k, line, hk, ?_⟩
        rw [List.getElem?_append_left (by rwa [List.length_reverse]), hrecord]

theorem addLine (h : Recorded old starts lines texts) {joins : Bool} (hp : InOrder more piece)
    (hs : joins = true → more ≠ [] → ∀ start ∈ starts, start.line + 1 < lines.length) :
    Recorded old starts (Document.addLine joins piece lines) (texts ++ more) := by
  unfold Document.addLine
  split
  · rename_i hj
    exact h.lengthen hp (hs hj)
  · exact h.cons hp

/-- A line that may be taken back, with the texts that it holds. -/
theorem push (h : Recorded old starts lines texts) (hp : InOrder more piece) :
    Recorded old ({ line := lines.length, texts := more } :: starts) (piece :: lines) (texts ++ more) := by
  have hlt : ∀ start ∈ starts, start.line < lines.length := fun start hm => h.lt hm
  obtain ⟨records, hl⟩ := h
  have hnext := hl.cons hp
  refine ⟨_, { hnext with inner := List.pairwise_cons.mpr ⟨hlt, hl.inner⟩, starts_eq := ?_ }⟩
  intro start hm
  rcases List.mem_cons.mp hm with rfl | hm
  · refine ⟨records.reverse.length, piece, by rw [hl.length_eq, List.length_reverse], ?_⟩
    rw [List.reverse_cons, List.getElem?_concat_length]
  · exact hnext.starts_eq start hm

/-- A line that has to stay from now on. -/
theorem pop (h : Recorded old (start :: starts) lines texts) : Recorded old starts lines texts := by
  obtain ⟨records, hl⟩ := h
  exact ⟨records, { hl with
    inner := (List.pairwise_cons.mp hl.inner).2
    starts_eq := fun other hm => hl.starts_eq other (List.mem_cons_of_mem start hm) }⟩

/-- Taking the last line back loses no text where it holds none. -/
theorem truncate (h : Recorded old (start :: starts) lines texts) (ht : start.texts = [])
    (hn : lines.length = start.line + 1) (ho : starts = [] → old = []) :
    Recorded old starts (oldest start.line lines) texts := by
  obtain ⟨records, hl⟩ := h
  obtain ⟨hinner, hpair⟩ := List.pairwise_cons.mp hl.inner
  cases records with
  | nil =>
    obtain ⟨_, _, _, hrecord⟩ := hl.starts_eq start List.mem_cons_self
    cases hrecord
  | cons record records =>
    have hrest : ∀ other ∈ starts, ∃ k line, other.line = old.length + k ∧
        records.reverse[k]? = some (line, other.texts) := by
      intro other hm
      rcases hl.start_cases (List.mem_cons_of_mem start hm) with ⟨hlast, _⟩ | ⟨k, line, hk, _, hrecord⟩
      · have hless := hinner other hm
        omega
      · exact ⟨k, line, hk, hrecord⟩
    have hheld : record.2 = [] := by
      rcases hl.start_cases List.mem_cons_self with ⟨_, hheld⟩ | ⟨k, _, hk, hlt, _⟩
      · exact hheld.trans ht
      · rw [hl.length_eq, List.length_cons] at hn
        omega
    refine ⟨records, ?_, ?_, (List.forall_mem_cons.mp hl.holds).2, ?_, hpair, hrest⟩
    · rw [oldest, hn, Nat.add_sub_cancel_left, hl.lines_eq]
      rfl
    · intro hnil
      subst hnil
      apply ho
      apply List.eq_nil_iff_forall_not_mem.mpr
      intro other hm
      obtain ⟨_, _, _, hrecord⟩ := hrest other hm
      cases hrecord
    · rw [← hl.texts_eq, List.reverse_cons, List.flatMap_append, List.flatMap_singleton, hheld, List.append_nil]

/-- The last line is not the first of the new ones where more texts are held than that one would lose. -/
theorem length_ne (h : Recorded old [start] lines texts) (hs : start.line = old.length) (ht : texts ≠ start.texts) :
    lines.length ≠ start.line + 1 := by
  intro hn
  obtain ⟨records, hl⟩ := h
  obtain ⟨k, line, hk, hrecord⟩ := hl.starts_eq start List.mem_cons_self
  have hfirst : k = 0 := by omega
  rw [hl.length_eq] at hn
  obtain ⟨record, rfl⟩ := List.length_eq_one_iff.mp (show records.length = 1 by omega)
  rw [hfirst] at hrecord
  apply ht
  rw [← hl.texts_eq, Option.some.inj hrecord]
  simp

/-- All texts are in the new lines. -/
theorem inOrder (h : Recorded old starts lines texts) : ∃ new, lines = new ++ old ∧ InOrder texts (body new) := by
  obtain ⟨records, hl⟩ := h
  refine ⟨records.map Prod.fst, hl.lines_eq, ?_⟩
  rw [← hl.texts_eq]
  have holds := hl.holds
  clear hl
  induction records with
  | nil => exact .nil _
  | cons record records ih =>
    obtain ⟨hlast, hothers⟩ := List.forall_mem_cons.mp holds
    rw [List.map_cons, body_cons, List.reverse_cons, List.flatMap_append]
    refine (ih hothers).append (InOrder.after ?_ _)
    simpa using hlast

end Recorded

end

end Document

end RoffDocBook
