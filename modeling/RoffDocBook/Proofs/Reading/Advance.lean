import Mathlib.Data.List.Basic
import RoffDocBook.TokenReader
import RoffDocBook.Proofs.Text.Words

/-! Readers that only take whole lines, and the return from them to a mark. A reader that has advanced in any way is
brought back by the mark of where it started. -/
namespace RoffDocBook.TokenReader
open Text

/-- Lines have been taken from the first reader, and the record of the second one holds them. -/
structure Advances (before after : TokenReader) : Prop where
  taken : ∃ taken, before.lines = taken ++ after.lines ∧ after.consumed = taken.reverse ++ before.consumed
  spacing : after.spacing = before.spacing

namespace Advances
variable {a b c : TokenReader}

theorem refl (a : TokenReader) : Advances a a :=
  ⟨⟨[], rfl, rfl⟩, rfl⟩

theorem trans (h : Advances a b) (k : Advances b c) : Advances a c := by
  obtain ⟨⟨s, hl, hc⟩, hs⟩ := h
  obtain ⟨⟨t, kl, kc⟩, ks⟩ := k
  exact ⟨⟨s ++ t, by rw [hl, kl, List.append_assoc], by rw [kc, hc]; simp⟩, ks.trans hs⟩

theorem length_le (h : Advances a b) : b.lines.length ≤ a.lines.length := by
  obtain ⟨⟨t, hl, _⟩, _⟩ := h
  simp [hl]

/-- What a reader does to its current line is no matter. -/
theorem of_same (hl : b.lines = a.lines) (hc : b.consumed = a.consumed) (hs : b.spacing = a.spacing) :
    Advances a b :=
  ⟨⟨[], by simp [hl], by simp [hc]⟩, hs⟩

/-- The mark of a reader undoes every advance from it. -/
theorem restore_mark (h : Advances a b) : b.restore a.mark = a := by
  obtain ⟨⟨t, hl, hc⟩, hs⟩ := h
  have hn : b.consumed.length - a.mark.consumed = t.reverse.length := by simp [mark, hc]
  have htake : b.consumed.take t.reverse.length = t.reverse := by rw [hc]; exact List.take_left
  have hdrop : b.consumed.drop t.reverse.length = a.consumed := by rw [hc]; exact List.drop_left
  unfold restore
  rw [hn]
  dsimp only
  rw [htake, hdrop, List.reverse_reverse, ← hl, hs]
  rfl

end Advances

theorem popLine_of_cons {reader : TokenReader} {line : Text} {rest : List Text} (h : reader.lines = line :: rest) :
    reader.popLine =
      (some line,
        { reader with lines := rest, consumed := line :: reader.consumed, tokens := [], current := none, read := 0 }) := by
  simp [popLine, h]

theorem popLine_of_nil {reader : TokenReader} (h : reader.lines = []) :
    reader.popLine = (none, { reader with tokens := [], current := none, read := 0 }) := by
  simp [popLine, h]

theorem advances_popLine (reader : TokenReader) : Advances reader reader.popLine.2 := by
  cases h : reader.lines with
  | nil => rw [popLine_of_nil h]; exact .of_same rfl rfl rfl
  | cons line rest => rw [popLine_of_cons h]; exact ⟨⟨[line], by simp [h], by simp⟩, rfl⟩

@[simp] theorem popLine_tokens (reader : TokenReader) : reader.popLine.2.tokens = [] := by
  cases h : reader.lines <;> simp [popLine, h]

/-- A line that has been read is gone from the lines. -/
theorem length_popLine_lt {reader : TokenReader} {line : Text} (h : reader.popLine.1 = some line) :
    reader.popLine.2.lines.length < reader.lines.length := by
  cases hl : reader.lines with
  | nil => simp [popLine_of_nil hl] at h
  | cons first rest => simp [popLine_of_cons hl]

theorem load_of_cons {reader : TokenReader} {line : Text} {rest : List Text} (h : reader.lines = line :: rest) :
    reader.load =
      { reader with
        lines := rest
        consumed := line :: reader.consumed
        tokens := split reader.spacing line
        current := some line
        read := 0 } := by
  simp [load, h]

theorem ready_of_nil {reader : TokenReader} (h : reader.tokens = []) : reader.ready = reader.load := by
  simp [ready, h]

theorem ready_of_cons {reader : TokenReader} {token : Text} {rest : List Text} (h : reader.tokens = token :: rest) :
    reader.ready = reader := by
  simp [ready, h]

theorem advances_load (reader : TokenReader) : Advances reader reader.load := by
  cases h : reader.lines with
  | nil => simpa [load, h] using Advances.refl reader
  | cons line rest => rw [load_of_cons h]; exact ⟨⟨[line], by simp [h], by simp⟩, rfl⟩

theorem advances_ready (reader : TokenReader) : Advances reader reader.ready := by
  cases h : reader.tokens with
  | nil => rw [ready_of_nil h]; exact advances_load reader
  | cons token rest => rw [ready_of_cons h]; exact .refl reader

theorem advances_popToken (reader : TokenReader) : Advances reader reader.popToken.2 := by
  refine (advances_ready reader).trans ?_
  unfold popToken
  dsimp only
  split
  · exact .refl _
  · exact .of_same rfl rfl rfl

end RoffDocBook.TokenReader

/-! What may be done to a reader between a mark and the return to it. Whatever it was, the return leaves nothing of it
but the spacing. -/
namespace RoffDocBook.TokenReader

/-- The states of a reader since a mark was taken of the first one. Looking at the next line is not among the steps, as
it leaves the reader alone. -/
inductive Since : TokenReader → TokenReader → Prop where
  | refl (start : TokenReader) : Since start start
  | popLine {start reader : TokenReader} (h : Since start reader) : Since start reader.popLine.2
  | popToken {start reader : TokenReader} (h : Since start reader) : Since start reader.popToken.2
  | peekToken {start reader : TokenReader} (h : Since start reader) : Since start reader.peekToken.2
  | pushToken {start reader : TokenReader} (h : Since start reader) (token : Text) :
      Since start (reader.pushToken token)
  | setSpacing {start reader : TokenReader} (h : Since start reader) (spacing : Option (Text → Text)) :
      Since start (reader.setSpacing spacing)
  /-- Only the line that was read last since the mark is put back. -/
  | pushLine {start reader : TokenReader} {line : Text} (h : Since start reader)
      (hl : (reader.consumedSince start.mark).getLast? = some line) : Since start (reader.pushLine line)
  /-- Another mark that was taken on the way, and the return to it before the one to the first. -/
  | nested {start inner reader : TokenReader} (h : Since start inner) (hi : Since inner reader) :
      Since start (reader.restore inner.mark)

/-- The line that was read last since a mark stands on top of the record, above those read before the mark. -/
theorem getLast?_consumedSince {reader : TokenReader} {mark : Mark} {line : Text}
    (h : (reader.consumedSince mark).getLast? = some line) :
    mark.consumed < reader.consumed.length ∧ reader.consumed.head? = some line := by
  rw [consumedSince, List.getLast?_reverse, List.head?_take] at h
  split at h
  · cases h
  · rename_i hn
    exact ⟨by omega, h⟩

@[simp] theorem setSpacing_lines (reader : TokenReader) (spacing : Option (Text → Text)) :
    (reader.setSpacing spacing).lines = reader.lines := by
  unfold setSpacing
  split <;> rfl

@[simp] theorem setSpacing_consumed (reader : TokenReader) (spacing : Option (Text → Text)) :
    (reader.setSpacing spacing).consumed = reader.consumed := by
  unfold setSpacing
  split <;> rfl

/-- A line that is put back is the last of those taken, unless none was. -/
theorem taken_pushLine {start reader : TokenReader} {line : Text} {taken : List Text}
    (hl : start.lines = taken ++ reader.lines) (hc : reader.consumed = taken.reverse ++ start.consumed)
    (h : (reader.consumedSince start.mark).getLast? = some line) :
    ∃ taken, start.lines = taken ++ (reader.pushLine line).lines ∧
      (reader.pushLine line).consumed = taken.reverse ++ start.consumed := by
  obtain ⟨hlt, hhead⟩ := getLast?_consumedSince h
  rcases List.eq_nil_or_concat' taken with rfl | ⟨before, last, rfl⟩
  · simp [hc, mark] at hlt
  · have hlast : last = line := by simpa [hc] using hhead
    exact ⟨before, by simp [pushLine, hl, hlast], by simp [pushLine, hc, hlast]⟩

/-- A reader that only gave back lines it had taken still accounts for all that were there at the mark. -/
theorem Since.taken {start reader : TokenReader} (h : Since start reader) :
    ∃ taken, start.lines = taken ++ reader.lines ∧ reader.consumed = taken.reverse ++ start.consumed := by
  have onward {start reader after : TokenReader} (ih : ∃ taken, start.lines = taken ++ reader.lines ∧
      reader.consumed = taken.reverse ++ start.consumed) (ha : Advances reader after) :
      ∃ taken, start.lines = taken ++ after.lines ∧ after.consumed = taken.reverse ++ start.consumed :=
    (Advances.trans (a := { start with spacing := reader.spacing }) ⟨ih, rfl⟩ ha).taken
  induction h with
  | refl start => exact ⟨[], rfl, rfl⟩
  | popLine _ ih => exact onward ih (advances_popLine _)
  | popToken _ ih => exact onward ih (advances_popToken _)
  | peekToken _ ih => exact onward ih (advances_ready _)
  | pushToken _ token ih => exact ih
  | setSpacing _ spacing ih => simpa using ih
  | pushLine _ hl ih =>
    obtain ⟨taken, htaken, hconsumed⟩ := ih
    exact taken_pushLine htaken hconsumed hl
  | nested _ _ ih ihi =>
    rename_i start inner reader _ _
    have hinner : reader.restore inner.mark = { inner with spacing := reader.spacing } :=
      Advances.restore_mark (a := { inner with spacing := reader.spacing }) ⟨ihi, rfl⟩
    rw [hinner]
    exact ih

/-- The return to a mark gives back the lines, the record, the tokens, the line that they are from and the count of
its characters. -/
theorem restore_since {start reader : TokenReader} (h : Since start reader) :
    reader.restore start.mark = { start with spacing := reader.spacing } :=
  Advances.restore_mark (a := { start with spacing := reader.spacing }) ⟨h.taken, rfl⟩

/-- The mark stands within a line. After it a line is read, another mark is taken and left in the middle of the next
line, split anew, and the line is put back. -/
theorem restore_since_nested :
    ∃ start reader : TokenReader, start.tokens = [['b'], lineEnd] ∧ reader.consumed = ["a b".toList] ∧
      reader.tokens = [] ∧ Since start reader ∧ reader.restore start.mark = { start with spacing := reader.spacing } := by
  let start := (ofLines ["a b", "c d", "e"]).popToken.2
  let inner := start.popLine.2
  let ahead := inner.popToken.2.setSpacing (some List.reverse)
  have hahead : Since inner ahead := .setSpacing (.popToken (.refl inner)) _
  have hback : Since start (ahead.restore inner.mark) := .nested (.popLine (.refl start)) hahead
  have h : Since start ((ahead.restore inner.mark).pushLine "c d") := .pushLine hback (by decide)
  exact ⟨start, _, by decide, by decide, by decide, h, restore_since h⟩

end RoffDocBook.TokenReader

/-! The tokens that a reader is still to give, line ends included, as one list. Each operation on tokens is one
equation on it. -/
namespace RoffDocBook.TokenReader
open Text

/-- The tokens to come. -/
def ahead (reader : TokenReader) : List Text :=
  reader.tokens ++ reader.lines.flatMap (split reader.spacing)

/-- The reader stands between two lines, or in a line of which the end is still to come. -/
def Whole (reader : TokenReader) : Prop :=
  reader.tokens = [] ∨ ∃ words, (∀ word ∈ words, word ≠ lineEnd) ∧ reader.tokens = words ++ [lineEnd]

theorem word_ne_lineEnd {t word : Text} (h : word ∈ words t) : word ≠ lineEnd := by
  rintro rfl
  have := word_not_blank h '\n' (by simp [lineEnd])
  revert this
  decide

theorem split_ne_nil (spacing : Option (Text → Text)) (line : Text) : split spacing line ≠ [] := by
  simp [split]

theorem ahead_of_line {reader : TokenReader} (ht : reader.tokens = []) {line : Text} {rest : List Text}
    (hl : reader.lines = line :: rest) :
    reader.ahead = split reader.spacing line ++ rest.flatMap (split reader.spacing) := by
  simp [ahead, ht, hl]

@[simp] theorem ahead_ready (reader : TokenReader) : reader.ready.ahead = reader.ahead := by
  cases ht : reader.tokens with
  | cons token rest => rw [ready_of_cons ht]
  | nil =>
    rw [ready_of_nil ht]
    cases hl : reader.lines with
    | nil => simp [load, hl]
    | cons line rest => simp [load_of_cons hl, ahead, ht, hl]

theorem whole_ready {reader : TokenReader} (h : reader.Whole) : reader.ready.Whole := by
  cases ht : reader.tokens with
  | cons token rest => rwa [ready_of_cons ht]
  | nil =>
    rw [ready_of_nil ht]
    cases hl : reader.lines with
    | nil => simpa [load, hl] using h
    | cons line rest => rw [load_of_cons hl]; exact Or.inr ⟨_, fun _ => word_ne_lineEnd, rfl⟩

/-- A reader is ready if tokens are to come at all. -/
theorem ready_tokens {reader : TokenReader} {token : Text} {rest : List Text} (h : reader.ahead = token :: rest) :
    ∃ more, reader.ready.tokens = token :: more := by
  cases ht : reader.tokens with
  | cons first more =>
    rw [ready_of_cons ht, ht]
    simp only [ahead, ht, List.cons_append, List.cons.injEq] at h
    exact ⟨more, by rw [h.1]⟩
  | nil =>
    cases hl : reader.lines with
    | nil => simp [ahead, ht, hl] at h
    | cons line lines =>
      obtain ⟨first, more, hs⟩ := List.exists_cons_of_ne_nil (split_ne_nil reader.spacing line)
      rw [ahead_of_line ht hl, hs, List.cons_append] at h
      rw [ready_of_nil ht, load_of_cons hl, (List.cons.inj h).1.symm]
      exact ⟨more, hs⟩

theorem ready_tokens_of_nil {reader : TokenReader} (h : reader.ahead = []) : reader.ready.tokens = [] :=
  (List.append_eq_nil_iff.mp ((ahead_ready reader).trans h)).1

theorem peekToken_fst {reader : TokenReader} : reader.peekToken.1 = reader.ahead.head? := by
  cases h : reader.ahead with
  | cons token rest =>
    obtain ⟨more, hr⟩ := ready_tokens h
    simp [peekToken, hr]
  | nil => simp [peekToken, ready_tokens_of_nil h]

/-- A token that is read leaves the ones after it. -/
theorem popToken_of_cons {reader : TokenReader} {token : Text} {rest : List Text} (h : reader.ahead = token :: rest) :
    ∃ after, reader.popToken = (some token, after) ∧ after.ahead = rest ∧ after.tokens = reader.ready.tokens.tail := by
  obtain ⟨more, hr⟩ := ready_tokens h
  have ha : reader.ready.ahead = token :: rest := by rw [ahead_ready, h]
  unfold popToken
  simp only [hr]
  refine ⟨_, rfl, ?_, rfl⟩
  simpa [ahead, hr] using ha

/-- The first token of a line takes the line. -/
theorem popToken_lines {reader : TokenReader} {line : Text} {rest : List Text} (ht : reader.tokens = [])
    (hl : reader.lines = line :: rest) : reader.popToken.2.lines = rest := by
  unfold popToken
  rw [ready_of_nil ht, load_of_cons hl]
  dsimp only
  split <;> rfl

theorem popToken_of_nil {reader : TokenReader} (h : reader.ahead = []) :
    reader.popToken = (none, reader.ready) ∧ reader.ready.tokens = [] :=
  ⟨by simp [popToken, ready_tokens_of_nil h], ready_tokens_of_nil h⟩

theorem whole_popToken {reader : TokenReader} (h : reader.Whole) : reader.popToken.2.Whole := by
  have hw := whole_ready h
  unfold popToken
  dsimp only
  split
  · exact hw
  · rename_i token rest ht
    rcases hw with hn | ⟨words, hwords, he⟩
    · simp [hn] at ht
    · rw [he] at ht
      cases words with
      | nil =>
        simp only [List.nil_append, List.cons.injEq] at ht
        exact Or.inl ht.2.symm
      | cons word words =>
        simp only [List.cons_append, List.cons.injEq] at ht
        exact Or.inr ⟨words, fun w hw => hwords w (by simp [hw]), ht.2.symm⟩

/-- After the end of a line no token of it is left. -/
theorem tokens_after_lineEnd {reader after : TokenReader} (h : reader.Whole)
    (hp : reader.popToken = (some lineEnd, after)) : after.tokens = [] := by
  have hw := whole_ready h
  unfold popToken at hp
  dsimp only at hp
  split at hp
  · simp at hp
  · rename_i token rest ht
    simp only [Prod.mk.injEq, Option.some.injEq] at hp
    obtain ⟨rfl, rfl⟩ := hp
    rcases hw with hn | ⟨words, hwords, he⟩
    · simp [hn] at ht
    · rw [he] at ht
      cases words with
      | nil => simpa using ht
      | cons word words =>
        simp only [List.cons_append, List.cons.injEq] at ht
        exact absurd ht.1 (hwords word (by simp))

end RoffDocBook.TokenReader
