import RoffDocBook.Proofs.Synopsis.AllOrNothing
import RoffDocBook.Proofs.Synopsis.Segments

/-! The loops that read a synopsis end by themselves. Each comes with a bound on its steps, and any two bounds that allow
for the lines or tokens to come give the same result. -/
namespace RoffDocBook.Synopsis
open Text TokenReader

/-- A bound for a loop that takes a line at each step. At bound zero the reader is left as it is, where a step would
close the current line; so the line must have been closed before. -/
structure Enough (bound : Nat) (reader : TokenReader) : Prop where
  length_le : reader.lines.length ≤ bound
  closed : bound = 0 → reader.popLine = (none, reader)

/-- Before a line, every bound that is not below the number of lines is enough. -/
theorem enough_of_peek {bound : Nat} {reader : TokenReader} {line : Text} (h : reader.peekLine? = some line)
    (hb : reader.lines.length ≤ bound) : Enough bound reader := by
  obtain ⟨rest, hl⟩ := List.head?_eq_some_iff.mp h
  refine ⟨hb, fun hz => ?_⟩
  rw [hl, List.length_cons] at hb
  omega

theorem Enough.popLine {bound : Nat} {reader after : TokenReader} {line : Text} (h : Enough (bound + 1) reader)
    (hp : reader.popLine = (some line, after)) : Enough bound after := by
  have hlt : after.lines.length < reader.lines.length := by
    have hl := length_popLine_lt (show reader.popLine.1 = some line by rw [hp])
    rwa [hp] at hl
  have hle := h.length_le
  refine ⟨by omega, fun hz => ?_⟩
  cases hl : reader.lines with
  | nil => simp [hl] at hlt
  | cons first rest =>
    rw [popLine_of_cons hl] at hp
    obtain ⟨-, rfl⟩ := Prod.mk.inj hp
    obtain rfl : rest = [] := by
      rw [hl, List.length_cons] at hle
      exact List.eq_nil_of_length_eq_zero (by omega)
    rfl

/-- A peeked line is there to be taken. -/
theorem length_popLine_of_peek {reader : TokenReader} {line : Text} (h : reader.peekLine? = some line) :
    reader.popLine.2.lines.length < reader.lines.length := by
  obtain ⟨rest, hl⟩ := List.head?_eq_some_iff.mp h
  exact length_popLine_lt (show reader.popLine.1 = some line by rw [popLine_of_cons hl])

namespace Function
variable {a b : Nat} {reader : TokenReader}

theorem readBraced_bound (ha : Enough a reader) (hb : Enough b reader) (depth : Int) :
    readBraced a depth reader = readBraced b depth reader := by
  induction a generalizing b depth reader with
  | zero =>
    cases b with
    | zero => rfl
    | succ b => rw [readBraced, readBraced, ha.closed rfl]
  | succ a ih =>
    cases b with
    | zero => rw [readBraced, readBraced, hb.closed rfl]
    | succ b =>
      rw [readBraced, readBraced]
      cases hp : reader.popLine with
      | mk line? after =>
        cases line? with
        | none => rfl
        | some line =>
          dsimp only
          rw [ih (ha.popLine hp) (hb.popLine hp)]

theorem length_readBraced_lt {depth : Int} {line : Text} (h : reader.peekLine? = some line) :
    (readBraced reader.lines.length depth reader).2.lines.length < reader.lines.length := by
  obtain ⟨rest, hl⟩ := List.head?_eq_some_iff.mp h
  rw [hl, List.length_cons, readBraced, popLine_of_cons hl]
  dsimp only
  split
  · exact Nat.lt_succ_self _
  · exact Nat.lt_succ_of_le (lineStep_readBraced _ _ _).advances.length_le

theorem readInformation_bound (ha : reader.lines.length ≤ a) (hb : reader.lines.length ≤ b) :
    readInformation a reader = readInformation b reader := by
  have idle {n : Nat} {reader : TokenReader} (h : reader.lines.length ≤ 0) : readInformation n reader = ([], reader) := by
    have hl : reader.lines = [] := List.eq_nil_of_length_eq_zero (Nat.le_zero.mp h)
    cases n <;> simp [readInformation, peekLine?, hl]
  induction a generalizing b reader with
  | zero => rw [idle ha, idle ha]
  | succ a ih =>
    cases b with
    | zero => rw [idle hb, idle hb]
    | succ b =>
      have onward {after : TokenReader} (h : after.lines.length < reader.lines.length) :
          readInformation a after = readInformation b after :=
        ih (by omega) (by omega)
      rw [readInformation, readInformation]
      cases hp : reader.peekLine? with
      | none => rfl
      | some line =>
        dsimp only
        rw [onward (length_popLine_of_peek hp), onward (length_readBraced_lt hp)]

theorem readDeclaration_bound (ha : Enough a reader) (hb : Enough b reader) (before : Text) :
    readDeclaration a before reader = readDeclaration b before reader := by
  induction a generalizing b before reader with
  | zero =>
    cases b with
    | zero => rfl
    | succ b => rw [readDeclaration, readDeclaration, ha.closed rfl]
  | succ a ih =>
    cases b with
    | zero => rw [readDeclaration, readDeclaration, hb.closed rfl]
    | succ b =>
      rw [readDeclaration, readDeclaration]
      cases hp : reader.popLine with
      | mk line? after =>
        cases line? with
        | none => rfl
        | some line =>
          dsimp only
          rw [ih (ha.popLine hp) (hb.popLine hp)]

theorem readParameters_bound (ha : reader.lines.length ≤ a) (hb : reader.lines.length ≤ b) (names : List Text)
    (declared : List (Text × Parameter)) :
    readParameters a names declared reader = readParameters b names declared reader := by
  have idle {n : Nat} {declared : List (Text × Parameter)} {reader : TokenReader} (h : reader.lines.length ≤ 0) :
      readParameters n names declared reader = (some declared, reader) := by
    have hl : reader.lines = [] := List.eq_nil_of_length_eq_zero (Nat.le_zero.mp h)
    cases n <;> simp [readParameters, peekLine?, hl]
  induction a generalizing b declared reader with
  | zero => rw [idle ha, idle ha]
  | succ a ih =>
    cases b with
    | zero => rw [idle hb, idle hb]
    | succ b =>
      rw [readParameters, readParameters]
      cases hp : reader.peekLine? with
      | none => rfl
      | some line =>
        have hlt := length_popLine_of_peek hp
        have onward (more : List (Text × Parameter)) : readParameters a names (declared ++ more) reader.popLine.2 =
            readParameters b names (declared ++ more) reader.popLine.2 :=
          ih (by omega) (by omega) _
        simp only [onward]

theorem readEntries_bound (ha : reader.lines.length ≤ a) (hb : reader.lines.length ≤ b) :
    readEntries a reader = readEntries b reader := by
  have idle {n : Nat} {reader : TokenReader} (h : reader.lines.length ≤ 0) : readEntries n reader = ([], reader) := by
    have hl : reader.lines = [] := List.eq_nil_of_length_eq_zero (Nat.le_zero.mp h)
    cases n with
    | zero => rfl
    | succ n =>
      simp only [readEntries, hl, List.length_nil, readInformation, peekLine?, List.head?_nil, Option.any_none]
      rw [if_pos (show (!false) = true from rfl), (Advances.refl reader).restore_mark]
  induction a generalizing b reader with
  | zero => rw [idle ha, idle ha]
  | succ a ih =>
    cases b with
    | zero => rw [idle hb, idle hb]
    | succ b =>
      have hle := (lineStep_readInformation reader.lines.length reader).advances.length_le
      rw [readEntries, readEntries]
      dsimp only
      split
      · rfl
      · cases hp : readPrototype (readInformation reader.lines.length reader).2 with
        | mk prototype? rest =>
          cases prototype? with
          | none => rfl
          | some prototype =>
            have hlt := length_readPrototype_lt hp
            dsimp only
            rw [ih (b := b) (by omega) (by omega)]

end Function

namespace Command

theorem readSequence_bound {a b : Nat} {reader : TokenReader} (ha : reader.ahead.length < a)
    (hb : reader.ahead.length < b) (progress : Progress) :
    readSequence a reader progress = readSequence b reader progress := by
  induction a generalizing b reader progress with
  | zero => omega
  | succ a ih =>
    cases b with
    | zero => omega
    | succ b =>
      rw [readSequence, readSequence]
      cases hr : reader.ahead with
      | nil => rw [(popToken_of_nil hr).1]
      | cons token rest =>
        obtain ⟨after, hp, har, _⟩ := popToken_of_cons hr
        have onward {last : TokenReader} (h : last.ahead.length ≤ after.ahead.length) (next : Progress) :
            readSequence a last next = readSequence b last next := by
          rw [hr, List.length_cons, ← har] at ha hb
          exact ih (by omega) (by omega) next
        rw [hp]
        dsimp only
        rw [onward (Nat.le_refl _)]
        by_cases ht : token = lineEnd
        · subst ht
          rfl
        · rcases readToken_step after progress ht with ⟨next, last, targets, hs, _, hts⟩ | ⟨reason, hs, _⟩
          · rw [hs]
            dsimp only
            rw [onward hts.length_le]
          · rw [hs]

/-- The bound on the tokens of a spaced reader holds behind the first of them too. -/
theorem length_ahead_popToken {reader : TokenReader} (hs : reader.spacing = some space) :
    reader.popToken.2.ahead.length ≤ reader.tokenBound := by
  have hle := length_ahead_le hs
  cases ha : reader.ahead with
  | nil =>
    rw [(popToken_of_nil ha).1, ahead_ready, ha]
    exact Nat.zero_le _
  | cons token rest =>
    obtain ⟨after, hp, har, _⟩ := popToken_of_cons ha
    rw [ha, List.length_cons] at hle
    rw [hp, har]
    omega

end Command

/-- The loops that read a synopsis do not come to their bounds here: more than the bounds that they are given makes no
difference. -/
structure LoopsEnd (reader : TokenReader) : Prop where
  braced : ∀ line bound depth, reader.peekLine? = some line → reader.lines.length ≤ bound →
    Function.readBraced bound depth reader = Function.readBraced reader.lines.length depth reader
  information : ∀ bound, reader.lines.length ≤ bound →
    Function.readInformation bound reader = Function.readInformation reader.lines.length reader
  declaration : ∀ line bound, reader.peekLine? = some line → reader.lines.length ≤ bound →
    Function.readDeclaration bound [] reader = Function.readDeclaration reader.lines.length [] reader
  parameters : ∀ bound names, reader.lines.length < bound →
    Function.readParameters bound names [] reader = Function.readParameters (reader.lines.length + 1) names [] reader
  entries : ∀ bound, reader.lines.length < bound →
    Function.readEntries bound reader = Function.readEntries (reader.lines.length + 1) reader
  sequence : ∀ bound progress, reader.spacing = some Command.space → reader.tokenBound < bound →
    Command.readSequence bound reader.popToken.2 progress =
      Command.readSequence (reader.tokenBound + 1) reader.popToken.2 progress

theorem loopsEnd (reader : TokenReader) : LoopsEnd reader where
  braced line bound depth hp hb :=
    Function.readBraced_bound (enough_of_peek hp hb) (enough_of_peek hp (Nat.le_refl _)) depth
  information bound hb := Function.readInformation_bound hb (Nat.le_refl _)
  declaration line bound hp hb :=
    Function.readDeclaration_bound (enough_of_peek hp hb) (enough_of_peek hp (Nat.le_refl _)) []
  parameters bound names hb := Function.readParameters_bound (Nat.le_of_lt hb) (Nat.le_succ _) names []
  entries bound hb := Function.readEntries_bound (Nat.le_of_lt hb) (Nat.le_succ _)
  sequence bound progress hs hb := by
    have hle := Command.length_ahead_popToken hs
    exact Command.readSequence_bound (by omega) (by omega) progress

end RoffDocBook.Synopsis

/-! What becomes of the lines of a display: every synopsis is one entry of the markup, and every other line that is not
blank stands in one paragraph, in the order of the lines. -/
namespace RoffDocBook.Synopsis.Display
open Text TokenReader

/-- What has to be written for a segment. -/
inductive Item where
  | block (markup : Text)
  | path (line : Text)
  | text (line : Text)

namespace Segment

def items : Segment → List Item
  | blank _ => []
  | functions _ markup _ => [.block markup]
  | command _ markup _ => [.block markup]
  | other line _ => if isFileName line then [.path line] else [.text line]

/-- Whether a synopsis was accepted. -/
def isBlock : Segment → Bool
  | functions .. => true
  | command .. => true
  | _ => false

/-- Why the line of a segment could not be read as the command it looks like. -/
def failure : Segment → Option Text
  | other _ failure => failure
  | _ => none

end Segment

/-- An entry of the markup, told by what is in it. -/
inductive Entry where
  | block (markup : Text)
  | path (line : Text)
  | paragraph (lines : List Text)

namespace Entry

def markup : Entry → Text
  | block markup => markup
  | path line => "<para><filename>" ++ trim line ++ "</filename></para>"
  | paragraph all => "<para>" ++ unlines all ++ "</para>"

def items : Entry → List Item
  | block markup => [.block markup]
  | path line => [.path line]
  | paragraph all => all.map .text

end Entry

/-- Entries with some items in them have been written, none of which is empty. -/
def Adds (before after : Display) (items : List Item) : Prop :=
  ∃ entries : List Entry, after.markup = before.markup ++ entries.map Entry.markup ∧ entries.flatMap Entry.items = items ∧
    ∀ entry ∈ entries, entry.items ≠ []

/-- The items of lines that are kept for a paragraph. -/
def kept (stash : Stash) : List Item :=
  stash.reverse.map .text

theorem kept_cons (line : Text) (stash : Stash) : kept (line :: stash) = kept stash ++ [.text line] := by
  simp [kept]

namespace Adds
variable {a b c : Display} {items more : List Item}

theorem of_markup (h : b.markup = a.markup) : Adds a b [] :=
  ⟨[], by simp [h], rfl, by simp⟩

theorem trans (h : Adds a b items) (k : Adds b c more) : Adds a c (items ++ more) := by
  obtain ⟨entries, hm, hi, hn⟩ := h
  obtain ⟨others, km, ki, kn⟩ := k
  refine ⟨entries ++ others, ?_, ?_, List.forall_mem_append.mpr ⟨hn, kn⟩⟩
  · rw [km, hm, List.map_append, List.append_assoc]
  · rw [List.flatMap_append, hi, ki]

theorem of_entry (entry : Entry) (hm : b.markup = a.markup ++ [entry.markup]) (hn : entry.items ≠ []) :
    Adds a b entry.items :=
  ⟨[entry], by simpa using hm, by simp, by simpa using hn⟩

end Adds

theorem adds_flush (display : Display) (stash : Stash) : Adds display (display.flush stash) (kept stash) := by
  cases stash with
  | nil => exact .of_markup rfl
  | cons line stash =>
    exact .of_entry (.paragraph (line :: stash).reverse) rfl (by simp [Entry.items])

/-- A display that goes on with one more entry after the paragraph that is kept. -/
theorem adds_flush_entry {display after : Display} {stash : Stash} (entry : Entry)
    (hm : after.markup = (display.flush stash).markup ++ [entry.markup]) (hn : entry.items ≠ []) :
    Adds display after (kept stash ++ entry.items) :=
  (adds_flush display stash).trans (.of_entry entry hm hn)

/-- A segment adds its items to those that are kept, some of which are written. -/
theorem adds_write (display : Display) (stash : Stash) (segment : Segment) :
    ∃ items, Adds display (segment.write display stash).1 items ∧
      items ++ kept (segment.write display stash).2 = kept stash ++ segment.items := by
  cases segment with
  | blank line => exact ⟨_, adds_flush display stash, rfl⟩
  | functions lines markup names =>
    exact ⟨_, adds_flush_entry (.block markup) rfl (by simp [Entry.items]), List.append_nil _⟩
  | command lines markup name =>
    exact ⟨_, adds_flush_entry (.block markup) rfl (by simp [Entry.items]), List.append_nil _⟩
  | other line failure =>
    simp only [Segment.write, Segment.items, addLine]
    split
    · refine ⟨kept stash ++ [.path line], ?_, List.append_nil _⟩
      have hwarned : Adds display { display with warnings := display.warnings ++ failure.toList } [] := .of_markup rfl
      exact hwarned.trans (adds_flush_entry (.path line) rfl (by simp [Entry.items]))
    · exact ⟨[], .of_markup rfl, by rw [kept_cons]; rfl⟩

/-- All segments together write the lines that were kept before, and their items after them. -/
theorem adds_writeAll (display : Display) (stash : Stash) (segments : List Segment) :
    Adds display (writeAll display stash segments) (kept stash ++ segments.flatMap Segment.items) := by
  induction segments generalizing display stash with
  | nil =>
    rw [List.flatMap_nil, List.append_nil]
    exact adds_flush display stash
  | cons segment rest ih =>
    obtain ⟨items, hadds, hitems⟩ := adds_write display stash segment
    have hall := hadds.trans (ih (segment.write display stash).1 (segment.write display stash).2)
    rwa [← List.append_assoc, hitems, List.append_assoc, ← List.flatMap_cons] at hall

@[simp] theorem flush_found (display : Display) (stash : Stash) : (display.flush stash).found = display.found := by
  cases stash <;> rfl

@[simp] theorem flush_warnings (display : Display) (stash : Stash) :
    (display.flush stash).warnings = display.warnings := by
  cases stash <;> rfl

theorem found_write (display : Display) (stash : Stash) (segment : Segment) :
    (segment.write display stash).1.found = (display.found || segment.isBlock) := by
  cases segment with
  | blank line => simp [Segment.write, Segment.isBlock]
  | functions lines markup names => simp [Segment.write, Segment.isBlock]
  | command lines markup name => simp [Segment.write, Segment.isBlock]
  | other line failure =>
    simp only [Segment.write, addLine, Segment.isBlock, Bool.or_false]
    split <;> simp

theorem warnings_write (display : Display) (stash : Stash) (segment : Segment) :
    (segment.write display stash).1.warnings = display.warnings ++ segment.failure.toList := by
  cases segment with
  | blank line => simp [Segment.write, Segment.failure]
  | functions lines markup names => simp [Segment.write, Segment.failure]
  | command lines markup name => simp [Segment.write, Segment.failure]
  | other line failure =>
    simp only [Segment.write, addLine, Segment.failure]
    split <;> simp

theorem found_writeAll (display : Display) (stash : Stash) (segments : List Segment) :
    (writeAll display stash segments).found = (display.found || segments.any Segment.isBlock) := by
  induction segments generalizing display stash with
  | nil => simp [writeAll]
  | cons segment rest ih => rw [writeAll, ih, found_write, List.any_cons, Bool.or_assoc]

theorem warnings_writeAll (display : Display) (stash : Stash) (segments : List Segment) :
    (writeAll display stash segments).warnings = display.warnings ++ segments.filterMap Segment.failure := by
  induction segments generalizing display stash with
  | nil => simp [writeAll]
  | cons segment rest ih =>
    rw [writeAll, ih, warnings_write, List.filterMap_cons, List.append_assoc]
    cases segment.failure <;> rfl

/-- The steps come to an end with all lines taken, in order and each once. No bound on them above the number of lines
makes a difference, nor any on the loops in a step. The entries of the markup are the synopses that were accepted and
the other lines that are not blank, a bare path on its own; a synopsis is found if one was accepted, and every line at
which a command failed has its warning. -/
theorem ofLines_accounts (lines names : List Text) (hints : Hints) :
    ∃ (segments : List Segment) (entries : List Entry), Steps { names, hints } (TokenReader.ofLines lines) segments ∧
      lines = segments.flatMap Segment.lines ∧ (∀ segment ∈ segments, segment.lines ≠ []) ∧
      (∀ bound, lines.length < bound →
        read bound { names, hints } (TokenReader.ofLines lines) {} [] = ofLines lines names hints) ∧
      (∀ reader, LoopsEnd reader) ∧
      (ofLines lines names hints).markup = entries.map Entry.markup ∧
      entries.flatMap Entry.items = segments.flatMap Segment.items ∧ (∀ entry ∈ entries, entry.items ≠ []) ∧
      ((ofLines lines names hints).found = true ↔ ∃ segment ∈ segments, segment.isBlock = true) ∧
      (ofLines lines names hints).warnings = segments.filterMap Segment.failure := by
  have hat : AtLine (TokenReader.ofLines lines) := ⟨rfl, rfl⟩
  obtain ⟨segments, hsteps⟩ := exists_steps { names, hints } hat
  obtain ⟨hlines, hnonempty⟩ := hsteps.lines
  have hread {bound : Nat} (hb : lines.length < bound) :
      read bound { names, hints } (TokenReader.ofLines lines) {} [] = writeAll {} [] segments :=
    hsteps.read hat hb {} []
  have hof : ofLines lines names hints = writeAll {} [] segments := hread (Nat.lt_succ_self _)
  obtain ⟨entries, hmarkup, hitems, hentries⟩ := adds_writeAll {} [] segments
  refine ⟨segments, entries, hsteps, hlines, hnonempty, fun bound hb => (hread hb).trans hof.symm, loopsEnd, ?_, hitems,
    hentries, ?_, ?_⟩
  · rw [hof, hmarkup]
    rfl
  · rw [hof, found_writeAll, Bool.false_or, List.any_eq_true]
  · rw [hof, warnings_writeAll]
    rfl

end RoffDocBook.Synopsis.Display
