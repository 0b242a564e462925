import RoffDocBook.Proofs.Document.Level

/-! As long as nothing but the starts of lists has been written, everything that has been written can be taken back. -/
namespace RoffDocBook.Document
open Text Markup

/-- On top of some lines there are the start tags of the open lists and nothing else. -/
inductive Started (lines : List Text) : List OpenBlock → List Text → Prop where
  | nil : Started lines [] lines
  | list {blocks : List OpenBlock} {after : List Text} (h : Started lines blocks after) (opener : String)
      (kind : ListKind) (tag : Text) :
      Started lines (.list { opener, kind, start := after.length } :: blocks) (tag :: after)

/-- Nothing but the starts of the lists inside some blocks has been written on top of some lines. -/
structure Idle (lines : List Text) (outer : List OpenBlock) (doc : Document) : Prop extends Quiet doc where
  started : ∃ inner, doc.blocks = inner ++ outer ∧ Started lines inner doc.lines

theorem Started.list_of_mem {lines after : List Text} {blocks : List OpenBlock} (h : Started lines blocks after)
    {block : OpenBlock} (hm : block ∈ blocks) : ∃ frame, block = .list frame ∧ frame.itemOpen = false := by
  induction h with
  | nil => cases hm
  | list _ _ _ _ ih =>
    rcases List.mem_cons.mp hm with rfl | hm
    · exact ⟨_, rfl, rfl⟩
    · exact ih hm

section
variable {lines : List Text} {outer : List OpenBlock} {doc : Document}

theorem flushTrap_of_none (h : doc.trap = none) : doc.flushTrap = doc := by
  rw [flushTrap_eq, h]

theorem closeItem_of_closed (h : ∀ frame, doc.topList? = some frame → frame.itemOpen = false) :
    doc.closeItem = doc.closeParagraph := by
  rw [closeItem_eq]
  split
  · rfl
  · rename_i frame ht
    rw [h frame ht, if_neg Bool.false_ne_true]

theorem closeInnerDisplays_of_list {frame : ListFrame} {rest : List OpenBlock} (hb : doc.blocks = .list frame :: rest) :
    doc.closeInnerDisplays = doc := by
  unfold closeInnerDisplays
  rw [hb]
  rfl

namespace Idle

theorem textLine (h : Idle lines outer doc) {line : Text} (hb : isAllBlank line = true) : doc.textLine line = doc := by
  unfold Document.textLine
  rw [h.fill, hb, h.trap]
  exact closeParagraph_of_false h.closed

theorem beginListWith (h : Idle lines outer doc) (opener : String) (kind : ListKind) (attributes : Text) :
    Idle lines outer (doc.beginListWith opener kind attributes) := by
  obtain ⟨inner, hb, hstarted⟩ := h.started
  rw [beginListWith_eq, flushTrap_of_none h.trap, closeParagraph_of_false h.closed]
  dsimp only
  rw [h.joins, hb]
  exact {
    fill := h.fill
    trap := h.trap
    closed := h.closed
    joins := rfl
    started := ⟨.list _ :: inner, rfl, hstarted.list _ _ _⟩ }

/-- No item is open in the lists inside the outer blocks. -/
theorem closeItem (h : Idle lines outer doc) (hs : outer <:+ doc.closeItem.blocks) : doc.closeItem = doc := by
  obtain ⟨inner, hb, hstarted⟩ := h.started
  rcases doc.closeItem_cases with he | ⟨frame, rest, hd, ho, he⟩
  · rw [he, closeParagraph_of_false h.closed]
  · rw [he, List.suffix_cons_iff] at hs
    rcases hs with houtside | hs
    · rw [houtside] at hb
      have hsame := OpenBlock.list.inj (eq_of_dropWhile hb hd)
      rw [← hsame] at ho
      cases ho
    · obtain ⟨others, rfl, hlists⟩ := lists_of_dropWhile hb hd hs
      have hmem : frame ∈ inner.filterMap OpenBlock.list? := by
        rw [hlists]
        exact List.mem_cons_self
      obtain ⟨block, hblock, hframe⟩ := List.mem_filterMap.mp hmem
      obtain ⟨other, rfl, hclosed⟩ := hstarted.list_of_mem hblock
      rw [← Option.some.inj hframe, hclosed] at ho
      cases ho

/-- A list that nothing was written into is taken back. -/
theorem endList (h : Idle lines outer doc) (hs : outer <:+ doc.endList.blocks) : Idle lines outer doc.endList := by
  obtain ⟨inner, hb, hstarted⟩ := h.started
  rcases doc.endList_cases with ⟨_, he⟩ | ⟨frame, rest, hd, _, he⟩
  · rwa [he]
  · rw [he, writeListEnd_blocks] at hs
    obtain ⟨others, rfl, hlists⟩ := lists_of_dropWhile hb hd hs
    generalize hl : doc.lines = written at hstarted
    cases hstarted with
    | nil => cases hlists
    | @list blocks after hafter opener kind tag =>
      rw [List.cons_append] at hb
      rw [hb] at hd
      obtain ⟨hframe, hothers⟩ := List.cons.inj hd
      obtain rfl := OpenBlock.list.inj hframe
      obtain rfl := List.append_cancel_right hothers
      have hclosed : doc.closeItem = doc := by
        rw [closeItem_of_closed, closeParagraph_of_false h.closed]
        intro other ht
        rw [topList?, openLists, hb] at ht
        rw [← Option.some.inj ht]
      have htaken : doc.endList = { doc with blocks := blocks ++ outer, lines := after } := by
        rw [he, hclosed, closeInnerDisplays_of_list hb, closeParagraph_of_false h.closed]
        unfold writeListEnd truncate
        dsimp only
        rw [hl, List.length_cons, beq_self_eq_true, beq_self_eq_true, Bool.true_and, if_pos rfl,
          Nat.add_sub_cancel_left]
        rfl
      rw [htaken]
      exact { h with started := ⟨blocks, rfl, hafter⟩ }

theorem endLists (h : Idle lines outer doc) {frames : List ListFrame}
    (hs : outer <:+ (Document.endLists frames doc).blocks) : Idle lines outer (Document.endLists frames doc) := by
  induction frames generalizing doc with
  | nil => exact h
  | cons _ frames ih => exact ih (h.endList (hs.trans (doc.endList.endLists_suffix frames))) hs

theorem endListBy (h : Idle lines outer doc) {opener : String} (hs : outer <:+ (doc.endListBy opener).2.blocks) :
    Idle lines outer (doc.endListBy opener).2 := by
  unfold Document.endListBy at hs ⊢
  cases ho : doc.hasList opener with
  | true =>
    rw [ho, if_pos rfl] at hs
    exact h.endLists hs
  | false => exact h

/-- No item is begun where no list is open. -/
theorem beginItem (h : Idle lines [] doc) (ht : doc.topList? = none) (term : Option Text) :
    doc.beginItem term = doc := by
  obtain ⟨inner, hb, hstarted⟩ := h.started
  rw [List.append_nil] at hb
  have hnone : doc.blocks = [] := by
    rw [topList?, openLists, hb] at ht
    generalize doc.lines = written at hstarted
    cases hstarted with
    | nil => exact hb
    | list => cases ht
  have hinner : doc.closeInnerDisplays = doc := by
    unfold closeInnerDisplays
    rw [hnone]
    rfl
  rw [beginItem_eq, h.closeItem List.nil_suffix, hinner]
  dsimp only
  rw [ht]

/-- No display is open inside the outer blocks. -/
theorem endDisplay (h : Idle lines outer doc) (hs : outer <:+ doc.endDisplay.2.blocks) : doc.endDisplay.2 = doc := by
  obtain ⟨inner, hb, hstarted⟩ := h.started
  rcases doc.endDisplay_cases with ⟨_, he⟩ | ⟨lists, frame, rest, hlists, _, he⟩
  · exact he
  · rw [he, writeDisplayEnd_blocks] at hs
    obtain ⟨others, rfl⟩ := hs
    rw [hb, ← List.cons_append, ← List.append_assoc] at hlists
    have hmem : OpenBlock.display frame ∈ inner := by
      rw [List.append_cancel_right hlists]
      exact List.mem_append_right _ List.mem_cons_self
    obtain ⟨other, hother, _⟩ := hstarted.list_of_mem hmem
    cases hother

/-- Where no list is open either, nothing has been written. -/
theorem lines_eq (h : Idle lines outer doc) (hb : doc.blocks = outer) : doc.lines = lines := by
  obtain ⟨inner, hinner, hstarted⟩ := h.started
  rw [hb, List.self_eq_append_left] at hinner
  rw [hinner] at hstarted
  cases hstarted
  rfl

theorem closeBlocks (h : Idle lines [] doc) : Idle lines [] doc.closeBlocks := by
  obtain ⟨inner, hb, hstarted⟩ := h.started
  have hnone : doc.openDisplays = [] := by
    refine List.filterMap_eq_nil_iff.mpr fun block hm => ?_
    rw [hb, List.append_nil] at hm
    obtain ⟨frame, rfl, _⟩ := hstarted.list_of_mem hm
    rfl
  have hdisplays : doc.endAllDisplays = doc := by
    rw [endAllDisplays, hnone]
    rfl
  have hended : Idle lines [] doc.endAllLists := h.endLists List.nil_suffix
  rw [Document.closeBlocks, flushTrap_of_none h.trap, hdisplays, closeParagraph_of_false hended.closed]
  exact hended

end Idle

/-- A call that writes something that stays. -/
def Call.produces : Call → Bool
  | .textLine line => !isAllBlank line
  | .beginItem _ => true
  | .beginDisplay _ _ => true
  | _ => false

/-- An item belongs to a list. -/
def InList (doc : Document) : Call → Prop
  | .beginItem _ => doc.topList?.isSome = true
  | _ => True

instance (doc : Document) (call : Call) : Decidable (doc.InList call) :=
  match call with
  | .beginItem _ => inferInstanceAs (Decidable (_ = true))
  | .textLine _ | .closeParagraph | .beginListWith _ _ _ | .addTerm | .closeItem | .endList | .endListBy _
  | .breakLists _ | .endAllLists | .beginDisplay _ _ | .endDisplay | .pushSection _ _ | .pushSynopsis _
  | .popSections _ | .endSections => isTrue trivial

theorem Quiet.marks (h : Quiet doc) {call : Call} (hi : doc.InList call) (hp : call.produces = true) :
    doc.Marks call := by
  cases call with
  | textLine line => exact ⟨h, by simpa [Call.produces] using hp⟩
  | beginItem term => exact hi
  | beginDisplay kind opener => trivial
  | _ => cases hp

theorem Idle.perform (h : Idle lines outer doc) {call : Call} (hr : Respects outer doc call)
    (hp : call.produces = false) : Idle lines outer (doc.perform call) := by
  obtain ⟨hs, hcall⟩ := hr
  have same {other : Document} (he : other = doc) : Idle lines outer other := by rwa [he]
  cases call with
  | textLine line => exact same (h.textLine (by simpa [Call.produces] using hp))
  | closeParagraph => exact same (closeParagraph_of_false h.closed)
  | beginListWith opener kind attributes => exact h.beginListWith opener kind attributes
  | closeItem => exact same (h.closeItem hs)
  | endList => exact h.endList hs
  | endListBy opener => exact h.endListBy hs
  | breakLists request => exact h.endLists hs
  | endAllLists => exact h.endLists hs
  | endDisplay => exact same (h.endDisplay hs)
  | beginItem | beginDisplay => cases hp
  | addTerm | pushSection | pushSynopsis | popSections | endSections => exact hcall.elim

end

/-! Once all blocks are closed, nothing is open but sections, and it stays so while sections are closed. -/

/-- Nothing is open but sections. -/
structure Cleared (doc : Document) : Prop extends Quiet doc where
  blocks : doc.blocks = []

section
variable {doc : Document}

theorem closeItem_trap (h : doc.trap = none) : doc.closeItem.trap = none := by
  rw [closeItem_eq]
  split
  · rw [closeParagraph_trap, h]
  · rename_i frame _
    split
    · dsimp only
      split
      · simp
      · exact (itemEnd_state _ frame.kind).2.2.trans (by simp)
    · rw [closeParagraph_trap, h]

theorem writeListEnd_trap (doc : Document) (frame : ListFrame) : (doc.writeListEnd frame).trap = doc.trap := by
  unfold writeListEnd
  simp only [emit_eq, append_eq]
  split
  · rfl
  · split <;> rfl

theorem endList_trap (h : doc.trap = none) : doc.endList.trap = none := by
  rcases doc.endList_cases with ⟨_, he⟩ | ⟨frame, rest, _, _, he⟩
  · rw [he, h]
  · rw [he, writeListEnd_trap]
    dsimp only
    rw [closeParagraph_trap, closeInnerDisplays_trap, closeItem_trap h]

theorem endLists_trap (h : doc.trap = none) (frames : List ListFrame) : (endLists frames doc).trap = none := by
  unfold endLists
  induction frames generalizing doc with
  | nil => exact h
  | cons _ frames ih => exact ih (endList_trap h)

theorem endDisplay_trap (h : doc.trap = none) : doc.endDisplay.2.trap = none := by
  rcases doc.endDisplay_cases with ⟨_, he⟩ | ⟨lists, frame, rest, _, _, he⟩
  · rw [he, h]
  · rw [he, writeDisplayEnd_eq]
    exact endLists_trap h lists

theorem closeBlocks_trap (doc : Document) : doc.closeBlocks.trap = none := by
  have hdisplays : doc.flushTrap.endAllDisplays.trap = none := by
    unfold endAllDisplays
    generalize doc.flushTrap.openDisplays = displays
    have hstart := flushTrap_trap doc
    generalize doc.flushTrap = flushed at hstart
    induction displays generalizing flushed with
    | nil => exact hstart
    | cons _ displays ih => exact ih _ (endDisplay_trap hstart)
  rw [closeBlocks, closeParagraph_trap]
  exact endLists_trap hdisplays _

theorem closeBlocks_blocks (doc : Document) : doc.closeBlocks.blocks = [] := by
  rw [closeBlocks, closeParagraph_blocks]
  exact endAllLists_blocks doc.flushTrap.endAllDisplays_state.2

@[simp] theorem closeBlocks_sections (doc : Document) : doc.closeBlocks.sections = doc.sections := by
  rw [closeBlocks, closeParagraph_sections, endAllLists, endLists_sections, doc.flushTrap.endAllDisplays_state.1,
    flushTrap_sections]

theorem Cleared.closeBlocks_eq (h : Cleared doc) : doc.closeBlocks = doc := by
  have hdisplays : doc.endAllDisplays = doc := by
    rw [endAllDisplays, openDisplays, h.blocks]
    rfl
  have hlists : doc.endAllLists = doc := by
    rw [endAllLists, openLists, h.blocks]
    rfl
  rw [closeBlocks, flushTrap_of_none h.trap, hdisplays, hlists, closeParagraph_of_false h.closed]

theorem Held.cleared {level : Level} {texts : List Text} {marked : Prop} (h : Held level doc texts marked)
    (hl : level.blocks = []) : Cleared doc.closeBlocks := by
  obtain ⟨_, _, hc, _, _⟩ := h.closeBlocks hl
  have hb := doc.closeBlocks_blocks
  obtain ⟨hfill, hjoins⟩ := hc.toAligned.of_nil hb
  exact {
    fill := hfill
    trap := doc.closeBlocks_trap
    closed := by rw [Document.closeBlocks, closeParagraph_inParagraph]
    joins := hjoins
    blocks := hb }

theorem Cleared.writeSectionEnd (h : Cleared doc) (mark : OpenSection) : Cleared (doc.writeSectionEnd mark) := by
  unfold Document.writeSectionEnd
  rw [emit_eq, emit_eq, append_eq]
  split
  · split
    · exact { h with }
    · exact { h with joins := rfl }
  · exact { h with joins := rfl }

theorem Cleared.endSection (h : Cleared doc.closeBlocks) : Cleared doc.endSection := by
  rw [endSection_eq]
  split
  · exact h
  · rename_i mark rest _
    have hrest : Cleared { doc.closeBlocks with sections := rest } := { h with }
    exact hrest.writeSectionEnd mark

end

end RoffDocBook.Document
