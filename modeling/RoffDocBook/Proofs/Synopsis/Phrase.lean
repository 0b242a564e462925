import RoffDocBook.Proofs.Synopsis.AllOrNothing

/-! The source of a command synopsis as a tree of phrases, and the parts that the parser makes of it. Every synopsis
that is accepted is the text of one phrase, and its markup is that of the parts of this phrase. -/
namespace RoffDocBook.Synopsis.Command
open Text TokenReader

inductive Bracket where
  | square | curly
  deriving DecidableEq, Repr

namespace Bracket

def opening : Bracket → Text
  | square => ['[']
  | curly => ['{']

def closing : Bracket → Text
  | square => [']']
  | curly => ['}']

def choice : Bracket → Choice
  | square => .optional
  | curly => .required

end Bracket

def ellipsis : Text := ['.', '.', '.']

/-- What stands on one level of a synopsis, up to some point. -/
inductive Phrase where
  | nil
  | word (before : Phrase) (token : Text)
  /-- A redirection and the word that it takes. -/
  | redirection (before : Phrase) (sign target : Text)
  | group (before : Phrase) (bracket : Bracket) (inner : Phrase)
  | bar (before : Phrase)
  | repeated (before : Phrase)
  deriving DecidableEq, Repr

/-- A sequence with a mark at the part read last. -/
def Sequence.repeatLast (sequence : Sequence) : Sequence :=
  match sequence.nodes with
  | [] => sequence
  | node :: nodes => { sequence with nodes := node.repeated :: nodes }

namespace Phrase

/-- The source of a phrase. -/
def tokens : Phrase → List Text
  | nil => []
  | word before token => before.tokens ++ [token]
  | redirection before sign target => before.tokens ++ [sign, target]
  | group before bracket inner => before.tokens ++ bracket.opening :: inner.tokens ++ [bracket.closing]
  | bar before => before.tokens ++ [['|']]
  | repeated before => before.tokens ++ [ellipsis]

/-- The parts that the parser makes of a phrase. -/
def sequence : Phrase → Sequence
  | nil => {}
  | word before token => before.sequence.push (Node.ofToken token)
  | redirection before sign target =>
    before.sequence.push (.arg .plain false [Node.ofToken sign, Node.ofToken target])
  | group before bracket inner =>
    before.sequence.push (Node.ofAlternatives bracket.choice inner.sequence.alternatives)
  | bar before => before.sequence.bar
  | repeated before => before.sequence.repeatLast

/-- Words are no brackets, bars or ellipses, and an ellipsis has a part to repeat. -/
def WellFormed : Phrase → Prop
  | nil => True
  | word before token => before.WellFormed ∧ isTarget token = true
  | redirection before sign target => before.WellFormed ∧ isTarget sign = true ∧ isTarget target = true
  | group before _ inner => before.WellFormed ∧ inner.WellFormed
  | bar before => before.WellFormed
  | repeated before => before.WellFormed ∧ before.sequence.nodes ≠ []

/-- The source of a phrase in open brackets, each with the phrase before it, the innermost first. -/
def openTokens : List (Bracket × Phrase) → Phrase → List Text
  | [], phrase => phrase.tokens
  | (bracket, before) :: outer, phrase => openTokens outer before ++ bracket.opening :: phrase.tokens

theorem openTokens_append {before after : Phrase} {ts : List Text} (h : after.tokens = before.tokens ++ ts)
    (outer : List (Bracket × Phrase)) : openTokens outer after = openTokens outer before ++ ts := by
  cases outer with
  | nil => exact h
  | cons level outer => simp [openTokens, h]

/-- A closing bracket makes a group of the phrase in it. -/
theorem openTokens_close (bracket : Bracket) (before inner : Phrase) (outer : List (Bracket × Phrase)) :
    openTokens outer (group before bracket inner) =
      openTokens ((bracket, before) :: outer) inner ++ [bracket.closing] := by
  have htokens : (group before bracket inner).tokens =
      before.tokens ++ (bracket.opening :: inner.tokens ++ [bracket.closing]) := by simp [tokens]
  rw [openTokens_append htokens]
  simp [openTokens]

end Phrase

/-- The level that an open bracket makes. -/
def levelOf (opened : Bracket × Phrase) : Level :=
  { choice := opened.1.choice, outer := opened.2.sequence }

theorem closer_levelOf (opened : Bracket × Phrase) : (levelOf opened).closer = opened.1.closing := by
  obtain ⟨bracket, before⟩ := opened
  cases bracket <;> rfl

/-- The parser has made the parts of a phrase, in open brackets. -/
structure Stands (progress : Progress) (outer : List (Bracket × Phrase)) (phrase : Phrase) : Prop where
  levels : progress.levels = outer.map levelOf
  here : progress.here = phrase.sequence
  wellFormed : phrase.WellFormed
  around : ∀ opened ∈ outer, opened.2.WellFormed

namespace Stands
variable {progress : Progress} {outer : List (Bracket × Phrase)} {phrase : Phrase}

/-- What has been seen is for messages only. -/
theorem see (h : Stands progress outer phrase) (seen : List Text) : Stands { progress with seen } outer phrase :=
  ⟨h.levels, h.here, h.wellFormed, h.around⟩

/-- The phrase goes on within its brackets. -/
theorem goOn (h : Stands progress outer phrase) (next : Phrase) (hw : next.WellFormed) :
    Stands { progress with here := next.sequence } outer next :=
  ⟨h.levels, rfl, hw, h.around⟩

theorem enter (h : Stands progress outer phrase) (bracket : Bracket) :
    Stands
      { progress with
        levels := { choice := bracket.choice, outer := progress.here } :: progress.levels
        here := {} }
      ((bracket, phrase) :: outer) .nil where
  levels := by rw [List.map_cons, ← h.levels, levelOf, h.here]
  here := rfl
  wellFormed := trivial
  around := List.forall_mem_cons.mpr ⟨h.wellFormed, h.around⟩

/-- The parser stands in a bracket if a level is open. -/
theorem leave (h : Stands progress outer phrase) {level : Level} {levels : List Level}
    (hl : progress.levels = level :: levels) :
    ∃ bracket before rest, outer = (bracket, before) :: rest ∧ level.closer = bracket.closing ∧
      Stands { progress with
          levels
          here := level.outer.push (Node.ofAlternatives level.choice progress.here.alternatives) }
        rest (.group before bracket phrase) := by
  have hm := h.levels
  rw [hl] at hm
  obtain ⟨⟨bracket, before⟩, rest, rfl, rfl, rfl⟩ := List.map_eq_cons_iff.mp hm.symm
  obtain ⟨hb, hr⟩ := List.forall_mem_cons.mp h.around
  exact ⟨bracket, before, rest, rfl, closer_levelOf _, rfl, by rw [h.here]; rfl, ⟨hb, h.wellFormed⟩, hr⟩

end Stands

variable {progress : Progress} {outer : List (Bracket × Phrase)} {phrase : Phrase}

/-- A word goes on with the phrase, and so does a redirection with the word that it takes. -/
theorem stands_readWord (h : Stands progress outer phrase) (reader : TokenReader) {token : Text}
    (ht : isTarget token = true) :
    ∃ next targets, Stands (readWord reader progress token).1 outer next ∧
      next.tokens = phrase.tokens ++ token :: targets ∧
        TokenStep targets reader (readWord reader progress token).2 := by
  have hword : Stands { progress with here := progress.here.push (Node.ofToken token) } outer (.word phrase token) := by
    rw [h.here]
    exact h.goOn (.word phrase token) ⟨h.wellFormed, ht⟩
  unfold readWord
  split
  · have hp : reader.peekToken.2 = reader.ready := rfl
    dsimp only
    rw [hp, peekToken_fst]
    split
    · rename_i target he
      obtain ⟨hh, htarget⟩ := Option.filter_eq_some_iff.mp he
      refine ⟨.redirection phrase token target, [target], ?_, rfl, tokenStep_target hh htarget⟩
      rw [h.here]
      exact (h.goOn (.redirection phrase token target) ⟨h.wellFormed, ht, htarget⟩).see _
    · exact ⟨.word phrase token, [], hword, rfl, tokenStep_ready reader⟩
  · exact ⟨.word phrase token, [], hword, rfl, .refl reader⟩

/-- Every token that is no error goes on with the phrase or changes its brackets. -/
theorem stands_readToken (h : Stands progress outer phrase) {reader after : TokenReader} {next : Progress}
    {token : Text} (ht : token ≠ lineEnd) (hr : readToken reader progress token = .ok (next, after)) :
    ∃ outer' phrase' targets, Stands next outer' phrase' ∧
      Phrase.openTokens outer' phrase' = Phrase.openTokens outer phrase ++ token :: targets ∧
      TokenStep targets reader after := by
  unfold readToken at hr
  dsimp only at hr
  split at hr
  · rename_i ho
    cases hr
    simp only [Bool.or_eq_true, beq_iff_eq] at ho
    rcases ho with rfl | rfl
    · exact ⟨_, _, [], (h.see _).enter .square, rfl, .refl reader⟩
    · exact ⟨_, _, [], (h.see _).enter .curly, rfl, .refl reader⟩
  · split at hr
    · split at hr
      · rename_i level levels hl
        split at hr
        · rename_i hc
          cases hr
          rw [beq_iff_eq] at hc
          obtain ⟨bracket, before, rest, rfl, hb, hs⟩ := (h.see (token :: progress.seen)).leave hl
          refine ⟨rest, _, [], hs, ?_, .refl reader⟩
          rw [Phrase.openTokens_close, ← hb, hc]
        · cases hr
      · cases hr
    · split at hr
      · rename_i hv
        cases hr
        rw [beq_iff_eq] at hv
        subst hv
        refine ⟨outer, .bar phrase, [], ?_, Phrase.openTokens_append rfl outer, .refl reader⟩
        rw [h.here]
        exact (h.goOn (.bar phrase) h.wellFormed).see _
      · split at hr
        · rename_i hd
          rw [beq_iff_eq] at hd
          subst hd
          split at hr
          · rename_i node nodes hn
            cases hr
            refine ⟨outer, .repeated phrase, [], ?_, Phrase.openTokens_append rfl outer, .refl reader⟩
            rw [h.here] at hn ⊢
            have hw : Phrase.WellFormed (.repeated phrase) := ⟨h.wellFormed, by simp [hn]⟩
            have hrepeat : Phrase.sequence (.repeated phrase) =
                { phrase.sequence with nodes := node.repeated :: nodes } := by
              simp [Phrase.sequence, Sequence.repeatLast, hn]
            have hs := (h.goOn _ hw).see (ellipsis :: progress.seen)
            rwa [hrepeat] at hs
          · cases hr
        · rename_i h1 h2 h3 h4
          simp only [Bool.or_eq_true, beq_iff_eq, not_or] at h1 h2 h3 h4
          have htarget : isTarget token = true := by
            have hall := And.intro ht (And.intro h1 (And.intro h2 (And.intro h3 h4)))
            simpa [isTarget, and_assoc] using hall
          obtain ⟨phrase', targets, hs, he, hts⟩ := stands_readWord (h.see (token :: progress.seen)) reader htarget
          rw [Except.ok.inj hr] at hs hts
          exact ⟨outer, phrase', targets, hs, Phrase.openTokens_append he outer, hts⟩

/-- The alternatives that are read are those of a phrase that goes on from where the parser stands, with all tokens
that were read. -/
theorem stands_readSequence {fuel : Nat} {reader after : TokenReader} {alternatives : List (List Node)}
    (h : Stands progress outer phrase) (hf : reader.ahead.length < fuel)
    (hr : readSequence fuel reader progress = (.ok alternatives, after)) :
    ∃ whole taken, Phrase.WellFormed whole ∧ whole.sequence.alternatives = alternatives ∧
      upcoming reader = taken ++ upcoming after ∧ whole.tokens = Phrase.openTokens outer phrase ++ taken := by
  induction fuel generalizing reader progress outer phrase with
  | zero => simp at hf
  | succ fuel ih =>
    -- outside all brackets the phrase at hand is the whole one
    have ended (hn : progress.levels = []) (hu : upcoming reader = upcoming after)
        (hk : progress.here.alternatives = alternatives) :
        ∃ whole taken, Phrase.WellFormed whole ∧ whole.sequence.alternatives = alternatives ∧
          upcoming reader = taken ++ upcoming after ∧ whole.tokens = Phrase.openTokens outer phrase ++ taken := by
      have ho : outer = [] := List.map_eq_nil_iff.mp (h.levels.symm.trans hn)
      exact ⟨phrase, [], h.wellFormed, by rw [← h.here]; exact hk, hu, by rw [ho, List.append_nil]; rfl⟩
    rw [readSequence] at hr
    cases ha : reader.ahead with
    | nil =>
      rw [(popToken_of_nil ha).1] at hr
      dsimp only at hr
      split at hr
      · cases hr
      · rename_i hn
        cases hr
        exact ended hn (by simp [upcoming]) rfl
    | cons token rest =>
      obtain ⟨popped, hp, har, _⟩ := popToken_of_cons ha
      have hfp : popped.ahead.length < fuel := by
        rw [ha, List.length_cons, ← har] at hf
        exact Nat.lt_of_succ_lt_succ hf
      rw [hp] at hr
      rw [← har] at ha
      dsimp only at hr
      by_cases ht : token = lineEnd
      · subst ht
        rw [if_pos (by simp)] at hr
        have hu := upcoming_lineEnd ha
        split at hr
        · rename_i hend
          cases hr
          exact ended (by simpa using (Bool.and_eq_true_iff.mp hend).1) hu rfl
        · rw [hu]
          exact ih h hfp hr
      · rw [if_neg (by simpa using ht)] at hr
        cases htoken : readToken popped progress token with
        | error reason => simp [htoken] at hr
        | ok result =>
          obtain ⟨next, last⟩ := result
          rw [htoken] at hr
          obtain ⟨outer', phrase', targets, hs, ho, hts⟩ := stands_readToken h ht htoken
          obtain ⟨whole, taken, hw, hk, hu, he⟩ := ih hs (Nat.lt_of_le_of_lt hts.length_le hfp) hr
          refine ⟨whole, token :: targets ++ taken, hw, hk, ?_, by rw [he, ho, List.append_assoc]⟩
          rw [upcoming_cons ha ht, upcoming_targets hts, hu]
          simp

theorem blockTokens_append (a b : List Text) : blockTokens (a ++ b) = blockTokens a ++ blockTokens b := by
  simp [blockTokens]

/-- A synopsis that is accepted has a phrase: its source stands in the lines that were taken, after the name, and its
parts are those of the markup. -/
theorem parse_phrase {reader after : TokenReader} {context : CommandContext} {result name : Text}
    (ht : reader.tokens = []) (hp : parse reader context = (.parsed (result, name), after)) :
    ∃ lines phrase nodes, reader.lines = lines ++ after.lines ∧ blockTokens lines = name :: phrase.tokens ∧
      Phrase.WellFormed phrase ∧ phrase.sequence.alternatives = [nodes] ∧ result = markup name nodes := by
  unfold parse at hp
  split at hp
  · cases hp
  · rename_i line hpeek
    split at hp
    · cases hp
    · rename_i hopens
      have hopened : opensSynopsis line context = true := by simpa using hopens
      have hwords := words_of_opensSynopsis hopened
      obtain ⟨rest, hl⟩ := List.head?_eq_some_iff.mp hpeek
      rw [setSpacing_of_nil ht] at hp
      generalize hspaced : ({ reader with spacing := some space } : TokenReader) = spaced at hp
      have hst : spaced.tokens = [] := by rw [← hspaced]; exact ht
      have hss : spaced.spacing = some space := by rw [← hspaced]
      have hsl : spaced.lines = line :: rest := by rw [← hspaced]; exact hl
      obtain ⟨command, popped, hpop, ha, _, hwhole, hbound⟩ := popToken_spaced hst hss hsl
      have hadv := advances_popToken spaced
      dsimp only at hp
      rw [hpop] at hp hadv
      dsimp only at hp hadv
      generalize hprogress : ({ seen := _ } : Progress) = progress at hp
      have hstart : Stands progress [] .nil := by rw [← hprogress]; exact ⟨rfl, rfl, trivial, by simp⟩
      generalize hseq : readSequence _ popped progress = read at hp
      obtain ⟨outcome, last⟩ := read
      rcases outcome with reason | (_ | ⟨nodes, _ | ⟨more, alternatives⟩⟩) <;> cases hp
      obtain ⟨phrase, taken, hw, hk, hu, he⟩ := stands_readSequence hstart hbound hseq
      have htokens := readSequence_tokens hwhole hbound (show _ = Except.ok [nodes] by rw [hseq])
      have hadv2 := advances_readSequence (spaced.tokenBound + 1) popped progress
      rw [hseq] at htokens hadv2
      obtain ⟨⟨lines, hlines, _⟩, hspacing⟩ := hadv.trans hadv2
      rw [setSpacing_of_nil htokens]
      refine ⟨lines, phrase, nodes, by rw [hl, ← hsl, hlines], ?_, hw, hk, rfl⟩
      have hall := upcoming_of_spaced hst hss
      rw [upcoming_cons ha (word_ne_lineEnd (first_is_word hst hss hsl hwords ha)), hu,
        upcoming_of_spaced htokens (hspacing.trans hss), hlines, blockTokens_append, ← List.cons_append,
        List.append_cancel_right_eq] at hall
      rw [← hall, he]
      rfl

end RoffDocBook.Synopsis.Command
