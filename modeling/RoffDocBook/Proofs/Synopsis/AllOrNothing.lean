import RoffDocBook.Proofs.Reading.Advance
import RoffDocBook.Proofs.Synopsis.Outline
import RoffDocBook.Proofs.Synopsis.Prototypes
import RoffDocBook.Proofs.Text.Search

/-! What one token does to the parser of command synopses: its outline makes a step, and the reader goes forward, by
one more token where a redirection takes its target. -/
namespace RoffDocBook.Synopsis.Command
open Text TokenReader

/-- A step that reads some targets beyond the token at hand. -/
structure TokenStep (targets : List Text) (before after : TokenReader) : Prop where
  advances : Advances before after
  whole : before.Whole → after.Whole
  ahead : before.ahead = targets ++ after.ahead
  targets : ∀ target ∈ targets, isTarget target = true

theorem TokenStep.refl (reader : TokenReader) : TokenStep [] reader reader :=
  ⟨.refl reader, id, rfl, by simp⟩

theorem tokenStep_ready (reader : TokenReader) : TokenStep [] reader reader.ready :=
  ⟨advances_ready reader, whole_ready, (ahead_ready reader).symm, by simp⟩

theorem TokenStep.length_le {targets : List Text} {before after : TokenReader} (h : TokenStep targets before after) :
    after.ahead.length ≤ before.ahead.length := by
  simp [h.ahead]

/-- The sequence outside all brackets, where one sequence is at hand and the levels are open around it. -/
def outermost (here : Sequence) : List Level → Sequence
  | [] => here
  | level :: levels => outermost level.outer levels

def Progress.outline (progress : Progress) : Outline where
  due := progress.levels.map Level.closer
  filled := !progress.here.nodes.isEmpty
  barred := !(outermost progress.here progress.levels).finished.isEmpty

/-- A change to the nodes at hand finishes no alternative. -/
theorem outermost_finished {here next : Sequence} (h : next.finished = here.finished) (levels : List Level) :
    (outermost next levels).finished = (outermost here levels).finished := by
  cases levels with
  | nil => exact h
  | cons level levels => rfl

theorem outline_push (progress : Progress) (seen : List Text) (node : Node) :
    Progress.outline { progress with seen, here := progress.here.push node } =
      { progress.outline with filled := true } := by
  have hf : (progress.here.push node).finished = progress.here.finished := rfl
  simp only [Progress.outline, outermost_finished hf]
  rfl

theorem step_target {o : Outline} {token : Text} (h : isTarget token = true ∨ token = lineEnd) :
    o.step token = some { o with filled := true } := by
  have hb : ¬ IsBracket token := by
    rcases h with h | rfl
    · rintro (rfl | rfl | rfl | rfl) <;> revert h <;> decide
    · decide
  have ht : token ≠ ['.', '.', '.'] ∧ token ≠ ['|'] := by
    rcases h with h | rfl
    · constructor <;> rintro rfl <;> revert h <;> decide
    · decide
  have ho : ¬ (token = ['['] ∨ token = ['{']) := fun hh => hb (by unfold IsBracket; tauto)
  simp only [Outline.step, if_neg ht.1, closersStep_plain hb, Option.map_some, if_neg ho, if_neg ht.2]

theorem step_closing {o : Outline} {token : Text} (h : token = [']'] ∨ token = ['}']) :
    o.step token =
      match o.due with
      | closer :: outer => if closer = token then some { o with due := outer, filled := true } else none
      | [] => none := by
  rcases h with rfl | rfl <;> obtain ⟨due, filled, barred⟩ := o <;> cases due with
  | nil => rfl
  | cons closer outer =>
    simp only [Outline.step, closersStep]
    split_ifs <;> simp_all

theorem run_single (o : Outline) (token : Text) : o.run [token] = o.step token := by
  rw [Outline.run_cons]
  cases o.step token <;> rfl

/-- Targets add to a sequence that has a part already. -/
theorem run_targets {o : Outline} {targets : List Text} (h : ∀ target ∈ targets, isTarget target = true) :
    Outline.run { o with filled := true } targets = some { o with filled := true } := by
  induction targets with
  | nil => rfl
  | cons target targets ih =>
    rw [Outline.run_cons, step_target (Or.inl (h target (by simp))), Option.bind_some]
    exact ih fun t ht => h t (by simp [ht])

/-- A token that can be a target, and is read. -/
theorem tokenStep_target {reader : TokenReader} {target : Text} (hh : reader.ahead.head? = some target)
    (ht : isTarget target = true) : TokenStep [target] reader reader.ready.popToken.2 := by
  obtain ⟨rest, ha⟩ := List.head?_eq_some_iff.mp hh
  obtain ⟨after, hpop, hrest, _⟩ := popToken_of_cons ((ahead_ready reader).trans ha)
  refine ⟨(advances_ready reader).trans (advances_popToken _), fun hw => whole_popToken (whole_ready hw), ?_,
    by simpa using ht⟩
  rw [hpop, hrest, ha]
  rfl

theorem readWord_step (reader : TokenReader) (progress : Progress) (token : Text) :
    (readWord reader progress token).1.outline = { progress.outline with filled := true } ∧
      ∃ targets, TokenStep targets reader (readWord reader progress token).2 := by
  unfold readWord
  split
  · have hp : reader.peekToken.2 = reader.ready := rfl
    dsimp only
    rw [hp, peekToken_fst]
    split
    · rename_i target he
      obtain ⟨hh, ht⟩ := Option.filter_eq_some_iff.mp he
      exact ⟨outline_push progress _ _, [target], tokenStep_target hh ht⟩
    · exact ⟨outline_push progress _ _, [], tokenStep_ready reader⟩
  · exact ⟨outline_push progress _ _, [], .refl reader⟩

/-- An opening bracket puts the sequence at hand outside a new one. -/
theorem outline_open (progress : Progress) (seen : List Text) (choice : Choice) :
    Progress.outline { seen, levels := { choice, outer := progress.here } :: progress.levels, here := {} } =
      { progress.outline with due := Level.closer ⟨choice, progress.here⟩ :: progress.outline.due, filled := false } :=
  rfl

/-- A closing bracket adds the group to the sequence outside it. -/
theorem outline_close {progress : Progress} {level : Level} {levels : List Level}
    (hl : progress.levels = level :: levels) (seen : List Text) (node : Node) :
    Progress.outline { seen, levels, here := level.outer.push node } =
      { progress.outline with due := levels.map Level.closer, filled := true } := by
  have hf : (level.outer.push node).finished = level.outer.finished := rfl
  simp only [Progress.outline, hl, outermost_finished hf]
  rfl

theorem outline_bar (progress : Progress) (seen : List Text) :
    Progress.outline { progress with seen, here := progress.here.bar } =
      { progress.outline with
        filled := false, barred := progress.outline.barred || progress.outline.due.isEmpty } := by
  cases hl : progress.levels with
  | nil => simp [Progress.outline, hl, outermost, Sequence.bar]
  | cons level levels => simp [Progress.outline, hl, outermost, Sequence.bar]

theorem outline_repeat {progress : Progress} {node : Node} {nodes : List Node}
    (hn : progress.here.nodes = node :: nodes)
    (seen : List Text) :
    Progress.outline { progress with seen, here := { progress.here with nodes := node.repeated :: nodes } } =
      progress.outline := by
  have hf : ({ progress.here with nodes := node.repeated :: nodes } : Sequence).finished = progress.here.finished := rfl
  simp only [Progress.outline, hn, outermost_finished hf]
  rfl

/-- A token and the targets that it takes run the outline, or it is an error there too. -/
theorem readToken_step (reader : TokenReader) (progress : Progress) {token : Text} (ht : token ≠ lineEnd) :
    (∃ next after targets, readToken reader progress token = .ok (next, after) ∧
        progress.outline.run (token :: targets) = some next.outline ∧ TokenStep targets reader after) ∨
      ∃ reason, readToken reader progress token = .error reason ∧ progress.outline.step token = none := by
  unfold readToken
  dsimp only
  split
  · rename_i ho
    refine Or.inl ⟨_, reader, [], rfl, ?_, .refl reader⟩
    rw [run_single, outline_open]
    simp only [Bool.or_eq_true, beq_iff_eq] at ho
    rcases ho with rfl | rfl <;> rfl
  · split
    · rename_i hc
      simp only [Bool.or_eq_true, beq_iff_eq] at hc
      split
      · rename_i level levels hl
        split
        · rename_i he
          rw [beq_iff_eq] at he
          refine Or.inl ⟨_, reader, [], rfl, ?_, .refl reader⟩
          rw [run_single, outline_close hl, step_closing hc]
          simp [Progress.outline, hl, he]
        · rename_i he
          rw [beq_iff_eq] at he
          exact Or.inr ⟨_, rfl, by rw [step_closing hc]; simp [Progress.outline, hl, he]⟩
      · rename_i hl
        exact Or.inr ⟨_, rfl, by rw [step_closing hc]; simp [Progress.outline, hl]⟩
    · split
      · rename_i hv
        rw [beq_iff_eq] at hv
        subst hv
        refine Or.inl ⟨_, reader, [], rfl, ?_, .refl reader⟩
        rw [run_single, outline_bar]
        rfl
      · split
        · rename_i hd
          rw [beq_iff_eq] at hd
          subst hd
          split
          · rename_i node nodes hn
            refine Or.inl ⟨_, reader, [], rfl, ?_, .refl reader⟩
            rw [run_single, outline_repeat hn]
            simp [Outline.step, Progress.outline, hn]
          · rename_i hn
            exact Or.inr ⟨_, rfl, by simp [Outline.step, Progress.outline, hn]⟩
        · rename_i h1 h2 h3 h4
          obtain ⟨ho, targets, hw⟩ := readWord_step reader { progress with seen := token :: progress.seen } token
          generalize readWord reader { progress with seen := token :: progress.seen } token = read at ho hw ⊢
          refine Or.inl ⟨read.1, read.2, targets, rfl, ?_, hw⟩
          simp only [Bool.or_eq_true, beq_iff_eq, not_or] at h1 h2 h3 h4
          rw [ho, Outline.run_cons, step_target, Option.bind_some]
          · exact run_targets hw.targets
          left
          have hall := And.intro ht (And.intro h1 (And.intro h2 (And.intro h3 h4)))
          simpa [isTarget, and_assoc] using hall

end RoffDocBook.Synopsis.Command

/-! A block of lines that all belong to one synopsis is accepted exactly if its tokens are in the grammar, and every
other one fails. -/
namespace RoffDocBook.Synopsis.Command
open Text TokenReader

/-- The tokens to come without the ends of lines. -/
def upcoming (reader : TokenReader) : List Text :=
  reader.ahead.filter (· != lineEnd)

theorem upcoming_cons {reader after : TokenReader} {token : Text} (ha : reader.ahead = token :: after.ahead)
    (hn : token ≠ lineEnd) : upcoming reader = token :: upcoming after := by
  simp [upcoming, ha, hn]

theorem upcoming_lineEnd {reader after : TokenReader} (ha : reader.ahead = lineEnd :: after.ahead) :
    upcoming reader = upcoming after := by
  simp [upcoming, ha]

theorem upcoming_targets {targets : List Text} {before after : TokenReader} (h : TokenStep targets before after) :
    upcoming before = targets ++ upcoming after := by
  rw [upcoming, h.ahead, List.filter_append, upcoming]
  congr 1
  refine List.filter_eq_self.mpr fun target ht => ?_
  have := h.targets target ht
  rw [bne_iff_ne]
  rintro rfl
  revert this
  decide

/-- Spacing moves no character that is no blank. -/
theorem space_nonblank (t : Text) : (space t).filter (!isBlank ·) = t.filter (!isBlank ·) := by
  have hb : isBlank ' ' = true := by decide
  fun_induction space t with
  | case1 => rfl
  | case2 rest ih =>
    have hd : isBlank '.' = false := by decide
    simp [hb, hd, ih]
  | case3 c rest _ hc ih => simp [hb, List.filter_cons, ih]
  | case4 c rest _ hc ih => simp [List.filter_cons, ih]

theorem length_split_space_le (line : Text) : (split (some space) line).length ≤ line.length + 1 := by
  have hw := length_words_le (space line)
  rw [space_nonblank] at hw
  have hn := List.length_filter_le (!isBlank ·) line
  simp only [split, Option.getD_some, List.length_append, List.length_singleton]
  omega

/-- The bound on the tokens holds where lines are spaced for synopses. -/
theorem length_ahead_le {reader : TokenReader} (h : reader.spacing = some space) :
    reader.ahead.length ≤ reader.tokenBound := by
  simp only [TokenReader.ahead, tokenBound, h, List.length_append, Nat.add_le_add_iff_left]
  induction reader.lines with
  | nil => simp
  | cons line lines ih =>
    have := length_split_space_le line
    simp only [List.flatMap_cons, List.length_append, List.foldr_cons]
    omega

theorem words_space_ne_nil {line : Text} (h : words line ≠ []) : words (space line) ≠ [] := by
  intro hn
  have hf := flatten_words (space line)
  rw [hn, space_nonblank, ← flatten_words, List.flatten_nil] at hf
  obtain ⟨word, rest, hw⟩ := List.exists_cons_of_ne_nil h
  have hne : word ≠ [] := word_ne_nil (show word ∈ words line by rw [hw]; simp)
  simp [hw, hne] at hf

/-- Only a line with words opens a synopsis. -/
theorem words_of_opensSynopsis {line : Text} {context : CommandContext} (h : opensSynopsis line context = true) :
    words line ≠ [] := by
  intro hn
  simp [opensSynopsis, hn] at h

/-- The tokens of a block of lines: its words, with brackets, bars and ellipses on their own. -/
def blockTokens (lines : List Text) : List Text :=
  lines.flatMap fun line => words (space line)

/-- A line begins, after blanks, like the rest of a synopsis. -/
def Continues (line : Text) : Prop :=
  (∃ c rest, trimStart line = c :: rest ∧ c ∈ ['[', '{', '-', '|']) ∧ ¬ ['-', '-', '-', ' '] <+: trimStart line

theorem upcoming_of_spaced {reader : TokenReader} (ht : reader.tokens = []) (hs : reader.spacing = some space) :
    upcoming reader = blockTokens reader.lines := by
  simp only [upcoming, TokenReader.ahead, ht, hs, List.nil_append, blockTokens, List.filter_flatMap]
  congr 1
  funext line
  have hw : (words (space line)).filter (· != lineEnd) = words (space line) :=
    List.filter_eq_self.mpr fun word h => bne_iff_ne.mpr (word_ne_lineEnd h)
  simp [split, hw]

theorem setSpacing_of_nil {reader : TokenReader} (h : reader.tokens = []) (spacing : Option (Text → Text)) :
    reader.setSpacing spacing = { reader with spacing } := by
  simp [setSpacing, h]

/-- The first token of a reader that is spaced for synopses takes its line, and the bound on the tokens holds after
it. -/
theorem popToken_spaced {spaced : TokenReader} {first : Text} {rest : List Text} (ht : spaced.tokens = [])
    (hs : spaced.spacing = some space) (hl : spaced.lines = first :: rest) :
    ∃ command after, spaced.popToken = (some command, after) ∧ spaced.ahead = command :: after.ahead ∧
      after.lines = rest ∧ after.Whole ∧ after.ahead.length < spaced.tokenBound + 1 := by
  obtain ⟨command, more, ha⟩ := List.exists_cons_of_ne_nil
    (show spaced.ahead ≠ [] by rw [ahead_of_line ht hl]; simp [split])
  obtain ⟨after, hp, har, _⟩ := popToken_of_cons ha
  have hlines := popToken_lines ht hl
  have hwhole := whole_popToken (show spaced.Whole from Or.inl ht)
  have hbound := length_ahead_le hs
  rw [hp] at hlines hwhole
  rw [← har] at ha
  rw [ha, List.length_cons] at hbound
  exact ⟨command, after, hp, ha, hlines, hwhole, Nat.lt_trans hbound (Nat.lt_succ_self _)⟩

/-- The first token of a line with words is the first of them. -/
theorem first_is_word {spaced : TokenReader} {first command : Text} {rest more : List Text} (ht : spaced.tokens = [])
    (hs : spaced.spacing = some space) (hl : spaced.lines = first :: rest) (hf : words first ≠ [])
    (ha : spaced.ahead = command :: more) : command ∈ words (space first) := by
  obtain ⟨word, others, hw⟩ := List.exists_cons_of_ne_nil (words_space_ne_nil hf)
  have he : word = command := by
    have := congrArg List.head? ha
    rw [ahead_of_line ht hl, hs] at this
    simpa [split, hw] using this
  rw [hw, he]
  exact List.mem_cons_self

end RoffDocBook.Synopsis.Command

/-! An attempt at a synopsis takes whole lines, at least one, or it leaves the reader as it was. -/
namespace RoffDocBook.Synopsis
open Text TokenReader

/-- At least one line was taken with a synopsis, none of them in part; without one, nothing has changed. -/
def AllOrNothing {α : Type} (before : TokenReader) : Verdict α × TokenReader → Prop
  | (.parsed _, after) =>
    (∃ taken, taken ≠ [] ∧ before.lines = taken ++ after.lines ∧ after.consumed = taken.reverse ++ before.consumed) ∧
      after.tokens = [] ∧ after.spacing = none
  | (.declined, after) => after = before
  | (.failed _, after) => after = before

/-- Lines were taken if fewer are left. -/
theorem taken_of_lt {before after : TokenReader}
    (h : ∃ taken, before.lines = taken ++ after.lines ∧ after.consumed = taken.reverse ++ before.consumed)
    (hlt : after.lines.length < before.lines.length) :
    ∃ taken, taken ≠ [] ∧ before.lines = taken ++ after.lines ∧ after.consumed = taken.reverse ++ before.consumed := by
  obtain ⟨taken, hl, hc⟩ := h
  refine ⟨taken, ?_, hl, hc⟩
  rintro rfl
  simp [hl] at hlt

namespace Command

theorem advances_readSequence (fuel : Nat) (reader : TokenReader) (progress : Progress) :
    Advances reader (readSequence fuel reader progress).2 := by
  induction fuel generalizing reader progress with
  | zero => exact .refl reader
  | succ fuel ih =>
    have hadv := advances_popToken reader
    rw [readSequence]
    split
    · rename_i after hp
      rw [hp] at hadv
      split <;> exact hadv
    · rename_i token after hp
      rw [hp] at hadv
      split
      · split
        · exact hadv
        · exact hadv.trans (ih after progress)
      · rename_i ht
        rcases readToken_step after progress (by simpa using ht) with
          ⟨next, last, targets, hr, _, hts⟩ | ⟨reason, hr, _⟩
        · rw [hr]
          exact hadv.trans (hts.advances.trans (ih last next))
        · rw [hr]
          exact hadv

/-- A sequence outside brackets ends with its line, or with the last one. -/
theorem readSequence_tokens {fuel : Nat} {reader : TokenReader} {progress : Progress} (hw : reader.Whole)
    (hf : reader.ahead.length < fuel) {alternatives : List (List Node)}
    (h : (readSequence fuel reader progress).1 = .ok alternatives) :
    (readSequence fuel reader progress).2.tokens = [] := by
  induction fuel generalizing reader progress with
  | zero => simp at hf
  | succ fuel ih =>
    rw [readSequence] at h ⊢
    cases ha : reader.ahead with
    | nil =>
      obtain ⟨hp, ht⟩ := popToken_of_nil ha
      rw [hp]
      dsimp only
      split <;> exact ht
    | cons token rest =>
      obtain ⟨after, hp, har, _⟩ := popToken_of_cons ha
      have hwa := whole_popToken hw
      have hfa : after.ahead.length < fuel := by
        rw [ha, List.length_cons, ← har] at hf
        exact Nat.lt_of_succ_lt_succ hf
      rw [hp] at h hwa ⊢
      dsimp only at h hwa ⊢
      by_cases ht : token = lineEnd
      · subst ht
        rw [if_pos (by simp)] at h ⊢
        split at h
        · rename_i hend
          rw [if_pos hend]
          exact tokens_after_lineEnd hw hp
        · rename_i hend
          rw [if_neg hend]
          exact ih hwa hfa h
      · rw [if_neg (by simpa using ht)] at h ⊢
        rcases readToken_step after progress ht with ⟨next, last, targets, hr, _, hts⟩ | ⟨reason, hr, _⟩
        · rw [hr] at h ⊢
          exact ih (hts.whole hwa) (Nat.lt_of_le_of_lt hts.length_le hfa) h
        · simp [hr] at h

/-- A mark taken before the spacing was changed undoes what was read with it. -/
theorem restore_spaced {reader last : TokenReader} {spacing : Option (Text → Text)} (hs : reader.spacing = none)
    (h : Advances { reader with spacing } last) : (last.setSpacing none).restore reader.mark = reader := by
  have hset : (last.setSpacing none).restore reader.mark =
      ({ last with spacing := none } : TokenReader).restore reader.mark := by
    unfold setSpacing
    split <;> rfl
  rw [hset]
  exact Advances.restore_mark ⟨h.taken, hs.symm⟩

/-- A synopsis that is read takes its first line, and the rest of its last one. -/
theorem readSequence_spaced {spaced : TokenReader} {first : Text} {rest : List Text} (ht : spaced.tokens = [])
    (hs : spaced.spacing = some space) (hl : spaced.lines = first :: rest) :
    ∃ command after, spaced.popToken = (some command, after) ∧
      ∀ progress result last, readSequence (spaced.tokenBound + 1) after progress = (result, last) →
        Advances spaced last ∧ last.lines.length < spaced.lines.length ∧
          ∀ alternatives, result = .ok alternatives → last.tokens = [] := by
  obtain ⟨command, after, hp, _, hlines, hwhole, hbound⟩ := popToken_spaced ht hs hl
  have hadv := advances_popToken spaced
  rw [hp] at hadv
  refine ⟨command, after, hp, fun progress result last hr => ?_⟩
  have hseq := advances_readSequence (spaced.tokenBound + 1) after progress
  rw [hr] at hseq
  refine ⟨hadv.trans hseq, ?_, fun alternatives hk => ?_⟩
  · have hle := hseq.length_le
    rw [hlines] at hle
    rw [hl, List.length_cons]
    exact Nat.lt_succ_of_le hle
  · have htokens := readSequence_tokens hwhole hbound (show _ = Except.ok alternatives by rw [hr]; exact hk)
    rwa [hr] at htokens

theorem parse_takes {reader : TokenReader} (ht : reader.tokens = []) (hs : reader.spacing = none)
    (context : CommandContext) : AllOrNothing reader (parse reader context) := by
  unfold parse
  split
  · rfl
  · rename_i line hpeek
    split
    · rfl
    · obtain ⟨rest, hl⟩ := List.head?_eq_some_iff.mp hpeek
      obtain ⟨command, after, hp, hread⟩ := readSequence_spaced (show
        ({ reader with spacing := some space } : TokenReader).tokens = [] from ht) rfl hl
      rw [setSpacing_of_nil ht]
      dsimp only
      rw [hp]
      dsimp only
      generalize hseq : readSequence _ after _ = read
      obtain ⟨result, last⟩ := read
      obtain ⟨hadv, hlt, htokens⟩ := hread _ result last hseq
      have hback := restore_spaced hs hadv
      rcases result with reason | (_ | ⟨nodes, _ | ⟨more, alternatives⟩⟩)
      · exact hback
      · exact hback
      · have hlast := htokens [nodes] rfl
        dsimp only
        rw [setSpacing_of_nil hlast]
        exact ⟨taken_of_lt hadv.taken hlt, hlast, rfl⟩
      · exact hback

end Command

theorem Function.parse_takes {reader : TokenReader} (ht : reader.tokens = []) (hs : reader.spacing = none) :
    AllOrNothing reader (Function.parse reader) := by
  unfold Function.parse
  split
  · rfl
  · split
    · rfl
    · have hstep := Function.lineStep_readEntries (reader.lines.length + 1) reader
      split
      · rename_i after hr
        rw [hr] at hstep
        exact hstep.advances.restore_mark
      · rename_i entries after hne hr
        have hlt := Function.length_readEntries_lt (show (Function.readEntries (reader.lines.length + 1) reader).1 ≠ [] by
          rw [hr]; exact hne)
        rw [hr] at hstep hlt
        exact ⟨taken_of_lt hstep.advances.taken hlt, hstep.tokens ht, hstep.advances.spacing.trans hs⟩

theorem parse_allOrNothing {reader : TokenReader} (ht : reader.tokens = []) (hs : reader.spacing = none)
    (context : CommandContext) :
    AllOrNothing reader (Function.parse reader) ∧ AllOrNothing reader (Command.parse reader context) :=
  ⟨Function.parse_takes ht hs, Command.parse_takes ht hs context⟩

theorem parse_allOrNothing_getopt :
    AllOrNothing (ofLines ["int getopt(int argc, char **argv);", "cp [-r] ]"])
        (Function.parse (ofLines ["int getopt(int argc, char **argv);", "cp [-r] ]"])) ∧
      AllOrNothing (ofLines ["int getopt(int argc, char **argv);", "cp [-r] ]"])
        (Command.parse (ofLines ["int getopt(int argc, char **argv);", "cp [-r] ]"])
          { names := ["cp"], hints := {} }) :=
  parse_allOrNothing rfl rfl { names := ["cp"], hints := {} }

end RoffDocBook.Synopsis
