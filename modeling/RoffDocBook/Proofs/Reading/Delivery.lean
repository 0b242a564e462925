import RoffDocBook.Proofs.Reading.Advance

/-! The tokens of one line under changes of spacing. The count of characters that have been read tells where a line
that is split anew goes on, so that its text is delivered once. -/
namespace RoffDocBook.TokenReader
open Text

/-- A spacing that only adds blanks to a line, or takes some from it. -/
def KeepsText (spacing : Option (Text → Text)) : Prop :=
  ∀ change ∈ spacing, ∀ line, (change line).filter (!isBlank ·) = line.filter (!isBlank ·)

/-- The tokens that reading has delivered since it started and that were not put back, the most recent first. -/
inductive Delivers (start : TokenReader) : List Text → TokenReader → Prop where
  | start : Delivers start [] start
  | popToken {delivered : List Text} {reader : TokenReader} (h : Delivers start delivered reader) :
      Delivers start (reader.popToken.1.toList ++ delivered) reader.popToken.2
  | pushToken {token : Text} {delivered : List Text} {reader : TokenReader}
      (h : Delivers start (token :: delivered) reader) : Delivers start delivered (reader.pushToken token)
  | peekToken {delivered : List Text} {reader : TokenReader} (h : Delivers start delivered reader) :
      Delivers start delivered reader.peekToken.2
  | setSpacing {delivered : List Text} {reader : TokenReader} (h : Delivers start delivered reader)
      {spacing : Option (Text → Text)} (hs : KeepsText spacing) : Delivers start delivered (reader.setSpacing spacing)

/-- The words of a line hold its text however they are spaced. -/
theorem flatten_words_spaced {spacing : Option (Text → Text)} (h : KeepsText spacing) (line : Text) :
    (words (spacing.getD id line)).flatten = line.filter (!isBlank ·) := by
  rw [flatten_words]
  cases spacing with
  | none => rfl
  | some change => exact h change rfl line

/-- No piece of a text without blanks is the end of a line. -/
theorem ne_lineEnd_of_flatten {line : Text} {pieces : List Text} (h : pieces.flatten = line.filter (!isBlank ·)) :
    ∀ piece ∈ pieces, piece ≠ lineEnd := by
  rintro piece hp rfl
  have hm : '\n' ∈ pieces.flatten := List.mem_flatten_of_mem hp (by simp [lineEnd])
  rw [h] at hm
  have hb := (List.mem_filter.mp hm).2
  revert hb
  decide

/-- Characters are dropped from words as from the text that they hold; the end of the line stays. -/
theorem dropChars_words {words : List Text} (hw : ∀ word ∈ words, word ≠ lineEnd) {n : Nat}
    (hn : n ≤ words.flatten.length) :
    ∃ rest, dropChars n (words ++ [lineEnd]) = rest ++ [lineEnd] ∧ rest.flatten = words.flatten.drop n := by
  induction words generalizing n with
  | nil =>
    obtain rfl : n = 0 := by simpa using hn
    exact ⟨[], rfl, rfl⟩
  | cons word words ih =>
    obtain ⟨hword, hwords⟩ := List.forall_mem_cons.mp hw
    cases n with
    | zero => exact ⟨word :: words, rfl, rfl⟩
    | succ n =>
      rw [List.flatten_cons, List.length_append] at hn
      rw [List.cons_append, dropChars, if_neg (by simpa using hword), List.flatten_cons, List.drop_append]
      split
      · rename_i hle
        obtain ⟨rest, hd, hf⟩ := ih hwords (show n + 1 - word.length ≤ words.flatten.length by omega)
        exact ⟨rest, hd, by rw [hf, List.drop_eq_nil_of_le hle, List.nil_append]⟩
      · rename_i hlt
        have hzero : n + 1 - word.length = 0 := by omega
        exact ⟨word.drop (n + 1) :: words, rfl, by rw [hzero, List.drop_zero, List.flatten_cons]⟩

/-- How a reader stands in a line, some tokens of which it has delivered: its end is still to come, or it was the last
token. -/
inductive InLine (line : Text) : List Text → TokenReader → Prop where
  | within {delivered words : List Text} {reader : TokenReader} (hc : reader.current = some line)
      (ht : reader.tokens = words ++ [lineEnd]) (hr : reader.read = delivered.flatten.length)
      (hw : delivered.reverse.flatten ++ words.flatten = line.filter (!isBlank ·)) : InLine line delivered reader
  | ended {delivered : List Text} {reader : TokenReader} (hc : reader.current = some line) (ht : reader.tokens = [])
      (hr : reader.read = delivered.flatten.length) (hw : delivered.reverse.flatten = line.filter (!isBlank ·)) :
      InLine line (lineEnd :: delivered) reader

theorem length_flatten_reverse (pieces : List Text) : pieces.reverse.flatten.length = pieces.flatten.length := by
  rw [List.length_flatten, List.length_flatten, List.map_reverse, List.sum_reverse]

namespace InLine
variable {line : Text} {delivered : List Text} {reader : TokenReader}

/-- What was delivered and what is pending are the words of the line, and its end once after them. -/
theorem tokens (h : InLine line delivered reader) :
    ∃ words, delivered.reverse ++ reader.tokens = words ++ [lineEnd] ∧ lineEnd ∉ words ∧
      words.flatten = line.filter (!isBlank ·) := by
  have whole {words : List Text} (hw : words.flatten = line.filter (!isBlank ·)) : lineEnd ∉ words :=
    fun hm => ne_lineEnd_of_flatten hw lineEnd hm rfl
  cases h with
  | @within _ words _ hc ht hr hw =>
    have hflat : (delivered.reverse ++ words).flatten = line.filter (!isBlank ·) := by rw [List.flatten_append, hw]
    exact ⟨delivered.reverse ++ words, by rw [ht, List.append_assoc], whole hflat, hflat⟩
  | @ended delivered _ hc ht hr hw => exact ⟨delivered.reverse, by simp [ht], whole hw, hw⟩

/-- The line has just been taken. -/
theorem load {spacing : Option (Text → Text)} (hs : KeepsText spacing) (hc : reader.current = some line)
    (ht : reader.tokens = split spacing line) (hr : reader.read = 0) : InLine line [] reader :=
  .within hc ht hr (flatten_words_spaced hs line)

/-- The next token of the line. -/
theorem pop (h : InLine line delivered reader) {token : Text} {more : List Text} (ht : reader.tokens = token :: more) :
    InLine line (token :: delivered) { reader with
      tokens := more
      read := if token == lineEnd then reader.read else reader.read + token.length } := by
  cases h with
  | @within _ words _ hc hts hr hw =>
    rw [hts] at ht
    cases words with
    | nil =>
      obtain ⟨rfl, rfl⟩ := List.cons.inj ht
      exact .ended hc rfl (by simpa using hr) (by simpa using hw)
    | cons word words =>
      obtain ⟨rfl, rfl⟩ := List.cons.inj ht
      have hall : (delivered.reverse ++ word :: words).flatten = line.filter (!isBlank ·) := by
        rw [List.flatten_append, hw]
      have hword : word ≠ lineEnd := ne_lineEnd_of_flatten hall word (by simp)
      refine .within hc rfl ?_ ?_
      · simp [hword, hr, Nat.add_comm]
      · rw [← hw]
        simp
  | ended hc hts hr hw => simp [hts] at ht

/-- The token that was delivered last is put back. -/
theorem push {token : Text} (h : InLine line (token :: delivered) reader) :
    InLine line delivered (reader.pushToken token) := by
  cases h with
  | @within _ words _ hc ht hr hw =>
    have hall : ((token :: delivered).reverse ++ words).flatten = line.filter (!isBlank ·) := by
      rw [List.flatten_append, hw]
    have hword : token ≠ lineEnd := ne_lineEnd_of_flatten hall token (by simp)
    have htokens : (reader.pushToken token).tokens = (token :: words) ++ [lineEnd] := by simp [pushToken, ht]
    refine .within hc htokens ?_ ?_
    · simp [pushToken, hword, hr]
    · rw [← hw]
      simp
  | ended hc ht hr hw =>
    have htokens : (reader.pushToken lineEnd).tokens = [] ++ [lineEnd] := by simp [pushToken, ht]
    exact .within hc htokens (by simpa [pushToken] using hr) (by simpa using hw)

/-- The rest of the line is split anew behind what was delivered of it. -/
theorem respace (h : InLine line delivered reader) {spacing : Option (Text → Text)} (hs : KeepsText spacing) :
    InLine line delivered (reader.setSpacing spacing) := by
  cases h with
  | @within _ words _ hc ht hr hw =>
    have hall := flatten_words_spaced hs line
    have hread : reader.read ≤ (Text.words (spacing.getD id line)).flatten.length := by
      rw [hall, ← hw, List.length_append, length_flatten_reverse, hr]
      exact Nat.le_add_right _ _
    obtain ⟨rest, hd, hf⟩ := dropChars_words (fun _ => word_ne_lineEnd) hread
    have hset : reader.setSpacing spacing = { reader with spacing, tokens := rest ++ [lineEnd] } := by
      obtain ⟨token, more, hcons⟩ := List.exists_cons_of_ne_nil (show words ++ [lineEnd] ≠ [] by simp)
      rw [← hd]
      simp [setSpacing, ht, hcons, hc, split]
    rw [hset]
    refine .within hc rfl hr ?_
    rw [hf, hall, ← hw, hr, ← length_flatten_reverse, List.drop_left]
  | ended hc ht hr hw =>
    have hset : reader.setSpacing spacing = { reader with spacing } := by simp [setSpacing, ht]
    rw [hset]
    exact .ended hc ht hr hw

end InLine

/-- How far reading has come with a line that others follow. -/
inductive Stage (line : Text) (rest : List Text) : List Text → TokenReader → Prop where
  | before {reader : TokenReader} (ht : reader.tokens = []) (hl : reader.lines = line :: rest) : Stage line rest [] reader
  | during {delivered : List Text} {reader : TokenReader} (h : InLine line delivered reader) (hl : reader.lines = rest) :
      Stage line rest delivered reader
  | beyond {delivered : List Text} {reader : TokenReader} (hl : reader.lines.length < rest.length) :
      Stage line rest delivered reader

namespace Stage
variable {line : Text} {rest delivered : List Text} {reader : TokenReader}

/-- Another line is begun only when the end of this one has been delivered. -/
theorem ready (h : Stage line rest delivered reader) (hs : KeepsText reader.spacing) :
    Stage line rest delivered reader.ready := by
  cases h with
  | before ht hl =>
    rw [ready_of_nil ht, load_of_cons hl]
    exact .during (.load hs rfl rfl rfl) rfl
  | during h hl =>
    cases ht : reader.tokens with
    | cons token more => rw [ready_of_cons ht]; exact .during h hl
    | nil =>
      rw [ready_of_nil ht]
      cases hr : reader.lines with
      | nil =>
        have hload : reader.load = reader := by simp [TokenReader.load, hr]
        rw [hload]
        exact .during h hl
      | cons next more =>
        apply Stage.beyond
        rw [load_of_cons hr, ← hl, hr]
        exact Nat.lt_succ_self _
  | beyond hl => exact .beyond (Nat.lt_of_le_of_lt (advances_ready reader).length_le hl)

theorem pop (h : Stage line rest delivered reader) (hs : KeepsText reader.spacing) :
    Stage line rest (reader.popToken.1.toList ++ delivered) reader.popToken.2 := by
  have hready := h.ready hs
  unfold popToken
  dsimp only
  split
  · exact hready
  · rename_i token more ht
    cases hready with
    | before hn _ => simp [hn] at ht
    | during h hl => exact .during (h.pop ht) hl
    | beyond hl => exact .beyond hl

theorem push {token : Text} (h : Stage line rest (token :: delivered) reader) :
    Stage line rest delivered (reader.pushToken token) := by
  cases h with
  | during h hl => exact .during h.push hl
  | beyond hl => exact .beyond hl

theorem respace (h : Stage line rest delivered reader) {spacing : Option (Text → Text)} (hs : KeepsText spacing) :
    Stage line rest delivered (reader.setSpacing spacing) := by
  cases h with
  | before ht hl => exact .before (by simp [setSpacing, ht]) (by rw [setSpacing_lines, hl])
  | during h hl => exact .during (h.respace hs) (by rw [setSpacing_lines, hl])
  | beyond hl => exact .beyond (by rwa [setSpacing_lines])

end Stage

theorem setSpacing_spacing (reader : TokenReader) (spacing : Option (Text → Text)) :
    (reader.setSpacing spacing).spacing = spacing := by
  unfold setSpacing
  split <;> rfl

/-- Every step keeps to the line until it is left. -/
theorem Delivers.stage {start reader : TokenReader} {line : Text} {rest delivered : List Text} (ht : start.tokens = [])
    (hl : start.lines = line :: rest) (hs : KeepsText start.spacing) (h : Delivers start delivered reader) :
    KeepsText reader.spacing ∧ Stage line rest delivered reader := by
  induction h with
  | start => exact ⟨hs, .before ht hl⟩
  | popToken _ ih =>
    obtain ⟨hspacing, hstage⟩ := ih
    exact ⟨by rwa [(advances_popToken _).spacing], hstage.pop hspacing⟩
  | pushToken _ ih =>
    obtain ⟨hspacing, hstage⟩ := ih
    exact ⟨hspacing, hstage.push⟩
  | peekToken _ ih =>
    obtain ⟨hspacing, hstage⟩ := ih
    exact ⟨by rwa [TokenReader.peekToken, (advances_ready _).spacing], hstage.ready hspacing⟩
  | setSpacing _ hnew ih =>
    obtain ⟨_, hstage⟩ := ih
    exact ⟨by rwa [setSpacing_spacing], hstage.respace hnew⟩

/-- As long as no further line has been begun, what a line has delivered and what is pending of it are together the
words of its text, each character once and in order, and after all of them one end of the line. -/
theorem line_delivered_once {start reader : TokenReader} {line : Text} {rest delivered : List Text}
    (ht : start.tokens = []) (hl : start.lines = line :: rest) (hs : KeepsText start.spacing)
    (h : Delivers start delivered reader) (hr : reader.lines = rest) :
    ∃ words, delivered.reverse ++ reader.tokens = words ++ [lineEnd] ∧ lineEnd ∉ words ∧
      words.flatten = line.filter (!isBlank ·) := by
  obtain ⟨_, hstage⟩ := h.stage ht hl hs
  cases hstage with
  | before _ hn => simp [hn] at hr
  | during hline _ => exact hline.tokens
  | beyond hlt => simp [hr] at hlt

/-- A line is split at every character, then at its blanks, where a token is put back, and so twice again. -/
theorem line_delivered_once_switched :
    ∃ reader, Delivers (ofLines ["f(x) y", "next"]) [['('], ['f']] reader ∧ reader.lines = ["next".toList] ∧
      reader.tokens = ["x)".toList, ['y'], lineEnd] ∧
      ∃ words, [['('], ['f']].reverse ++ reader.tokens = words ++ [lineEnd] ∧ lineEnd ∉ words ∧
        words.flatten = "f(x) y".toList.filter (!isBlank ·) := by
  let start := ofLines ["f(x) y", "next"]
  let spread : Text → Text := fun line => line.flatMap fun c => [c, ' ']
  have hspread : KeepsText (some spread) := by
    rintro change ⟨⟩ line
    induction line with
    | nil => rfl
    | cons c cs ih =>
      have hb : isBlank ' ' = true := by decide
      simp only [spread, List.flatMap_cons, List.filter_append] at ih ⊢
      rw [ih, List.filter_cons, List.filter_cons (x := c)]
      cases isBlank c <;> simp [hb]
  have hplain : KeepsText none := by simp [KeepsText]
  have hf : Delivers start [['f']] (start.setSpacing (some spread)).popToken.2 :=
    .popToken (.setSpacing .start hspread)
  have hx : Delivers start ["(x)".toList, ['f']] _ := .popToken (.setSpacing hf hplain)
  have hopen : Delivers start [['('], ['f']] _ := .popToken (.setSpacing (.peekToken (.pushToken hx)) hspread)
  have hlast := Delivers.setSpacing hopen hplain
  exact ⟨_, hlast, by decide, by decide, line_delivered_once rfl rfl hplain hlast (by decide)⟩

end RoffDocBook.TokenReader
