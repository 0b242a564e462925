import Mathlib.Data.List.Basic
import RoffDocBook.Document.Inline

/-! Tabs in text that is not filled. A tab takes the text to a tab stop further on, or past the last stop to the next
column of a row that goes on at the distance of the last two. The stop is the first one in the list that comes after
the column: the nearest one in every line, exactly if no stop is hidden behind a greater one before it in the list. -/
namespace RoffDocBook.Document
open Text

/-- The last two stops of a list, if there are two, do not fall. -/
def EndsRising (stops : List Nat) : Prop :=
  ∀ before previous last, stops = before ++ [previous, last] → previous ≤ last

-- Distances are told by additions below, since a difference of numbers that falls is zero here and would hide it.

/-- The distance at which stops go on after a list of them: that of its last two, but at least one column, and the usual
one where there are not two. -/
inductive Spacing : List Nat → Nat → Prop
  | usual {stops : List Nat} (h : stops.length < 2) : Spacing stops 8
  | between (before : List Nat) (previous distance : Nat) :
    Spacing (before ++ [previous, previous + distance]) (max 1 distance)

/-- The nearest column after a given one, past all stops of a list, of the row that goes on after its last stop. -/
structure PastStops (stops : List Nat) (column next : Nat) : Prop where
  past : ∀ stop ∈ stops, stop ≤ column
  after : column < next
  nearest : ∃ interval, Spacing stops interval ∧ (∃ k, 1 ≤ k ∧ next = stops.getLastD 0 + k * interval) ∧
    ∀ k, 1 ≤ k → column < stops.getLastD 0 + k * interval → next ≤ stops.getLastD 0 + k * interval

/-- The first stop of a list that comes after a column. -/
def FirstAfter (stops : List Nat) (column stop : Nat) : Prop :=
  column < stop ∧ ∃ before after, stops = before ++ stop :: after ∧ ∀ earlier ∈ before, earlier ≤ column

/-- The least stop of a list that comes after a column. -/
def LeastAfter (stops : List Nat) (column stop : Nat) : Prop :=
  column < stop ∧ stop ∈ stops ∧ ∀ other ∈ stops, column < other → stop ≤ other

/-- The column that a tab goes to: a stop that is listed after its own column, or one past all stops. -/
def Reaches (listed : List Nat → Nat → Nat → Prop) (stops : List Nat) (column next : Nat) : Prop :=
  listed stops column next ∨ PastStops stops column next

/-- No stop is hidden: the first one that does not come before it is no other. -/
def Unhidden (stops : List Nat) : Prop :=
  ∀ stop ∈ stops, 0 < stop → stops.find? (stop ≤ ·) = some stop

/-- The second text is the first one, begun in a column, with blanks for its tabs: at least one for each tab, up to a
column that the tab can reach. -/
inductive Expands (reaches : Nat → Nat → Prop) : Nat → Text → Text → Prop
  | nil (column : Nat) : Expands reaches column [] []
  | char {column : Nat} {c : Char} {t u : Text} (hc : c ≠ '\t') (h : Expands reaches (column + 1) t u) :
    Expands reaches column (c :: t) (c :: u)
  | tab {column width : Nat} {t u : Text} (hwidth : 0 < width) (hreach : reaches column (column + width))
    (h : Expands reaches (column + width) t u) :
    Expands reaches column ('\t' :: t) (List.replicate width ' ' ++ u)

section
variable {stops : List Nat}

theorem spacing_tabInterval (h : EndsRising stops) : Spacing stops (tabInterval stops) := by
  unfold tabInterval
  split
  · rename_i last previous before hreverse
    have hstops : stops = before.reverse ++ [previous, last] := by
      simpa using congrArg List.reverse hreverse
    obtain ⟨distance, rfl⟩ := Nat.exists_eq_add_of_le (h _ _ _ hstops)
    rw [hstops, Nat.add_sub_cancel_left]
    exact .between _ _ _
  · rename_i hshort
    refine .usual ?_
    rw [← List.length_reverse]
    match hreverse : stops.reverse with
    | [] => decide
    | [_] => exact Nat.one_lt_two
    | last :: previous :: before => exact (hshort last previous before hreverse).elim

theorem tabInterval_pos (stops : List Nat) : 0 < tabInterval stops := by
  unfold tabInterval tabWidth
  split <;> omega

/-- The members of a row that come after a column, where the row begins before it. -/
theorem lt_row_iff {first column interval k : Nat} (hfirst : first ≤ column) (hpos : 0 < interval) :
    column < first + k * interval ↔ (column - first) / interval + 1 ≤ k := by
  rw [Nat.succ_le_iff, Nat.div_lt_iff_lt_mul hpos]
  omega

/-- A tab goes to the first stop of the list that comes after its column. -/
theorem reaches_nextTabStop (h : EndsRising stops) (column : Nat) :
    Reaches FirstAfter stops column (nextTabStop stops column) := by
  unfold nextTabStop
  cases hfind : stops.find? (column < ·) with
  | some stop =>
    left
    obtain ⟨hafter, before, rest, hstops, hbefore⟩ := List.find?_eq_some_iff_append.mp hfind
    exact ⟨by simpa using hafter, before, rest, hstops, by simpa using hbefore⟩
  | none =>
    right
    have hpast : ∀ stop ∈ stops, stop ≤ column := by simpa using hfind
    have hlast : stops.getLastD 0 ≤ column := by
      rw [List.getLastD_eq_getLast?]
      cases hl : stops.getLast? with
      | none => exact Nat.zero_le column
      | some last => exact hpast last (List.mem_of_getLast? hl)
    have hrow {k : Nat} := lt_row_iff (k := k) hlast (tabInterval_pos stops)
    refine ⟨hpast, hrow.mpr (Nat.le_refl _), tabInterval stops, spacing_tabInterval h,
      ⟨_, Nat.le_add_left 1 _, rfl⟩, ?_⟩
    intro k _ hk
    exact Nat.add_le_add_left (Nat.mul_le_mul_right _ (hrow.mp hk)) _

theorem lt_nextTabStop (h : EndsRising stops) (column : Nat) : column < nextTabStop stops column :=
  (reaches_nextTabStop h column).elim And.left PastStops.after

/-- In a list without hidden stops, the first stop after a column is the least one. -/
theorem FirstAfter.least {column stop : Nat} (h : FirstAfter stops column stop) (hu : Unhidden stops) :
    LeastAfter stops column stop := by
  obtain ⟨hafter, before, after, rfl, hbefore⟩ := h
  refine ⟨hafter, by simp, fun other hother hlt => Nat.le_of_not_lt fun hless => ?_⟩
  -- Otherwise the stop hides the other one: it is the first that does not come before it.
  have hfirst : (before ++ stop :: after).find? (other ≤ ·) = some stop := by
    refine List.find?_eq_some_iff_append.mpr ⟨by simpa using Nat.le_of_lt hless, before, after, rfl, ?_⟩
    intro earlier hearlier
    simpa using Nat.lt_of_le_of_lt (hbefore earlier hearlier) hlt
  rw [hu other hother (Nat.zero_lt_of_lt hlt)] at hfirst
  exact Nat.ne_of_lt hless (Option.some.inj hfirst)

/-- A stop that tabs reach as the least one after the column before it is not hidden. -/
theorem find?_of_least {stop : Nat} (hstop : stop ∈ stops) (hpos : 0 < stop)
    (h : LeastAfter stops (stop - 1) (nextTabStop stops (stop - 1))) : stops.find? (stop ≤ ·) = some stop := by
  have hnext : nextTabStop stops (stop - 1) = stop := by
    have hle := h.2.2 stop hstop (by omega)
    have hlt := h.1
    omega
  have hsame : (fun other => decide (stop - 1 < other)) = fun other => decide (stop ≤ other) := by
    funext other
    exact decide_eq_decide.mpr (by omega)
  unfold nextTabStop at hnext
  rw [hsame] at hnext
  cases hfind : stops.find? (stop ≤ ·) with
  | some found =>
    rw [hfind] at hnext
    exact congrArg some hnext
  | none =>
    have hnone := List.find?_eq_none.mp hfind stop hstop
    simp at hnone

theorem expands_expandTabsFrom {reaches : Nat → Nat → Prop} (hafter : ∀ column, column < nextTabStop stops column)
    (hreach : ∀ column, reaches column (nextTabStop stops column)) (column : Nat) {line : Text} (hopen : '<' ∉ line)
    (hamp : '&' ∉ line) : Expands reaches column line (expandTabsFrom stops { column } line) := by
  induction line generalizing column with
  | nil => exact .nil column
  | cons c line ih =>
    rw [List.mem_cons, not_or] at hopen hamp
    by_cases hc : c = '\t'
    · have hwidth : column + (nextTabStop stops column - column) = nextTabStop stops column :=
        Nat.add_sub_cancel' (Nat.le_of_lt (hafter column))
      have htab : Expands reaches column ('\t' :: line)
          (List.replicate (nextTabStop stops column - column) ' ' ++
            expandTabsFrom stops { column := nextTabStop stops column } line) :=
        .tab (Nat.sub_pos_of_lt (hafter column)) (hwidth.symm ▸ hreach column)
          (hwidth.symm ▸ ih (nextTabStop stops column) hopen.2 hamp.2)
      simpa [expandTabsFrom, hc] using htab
    · have hchar := Expands.char hc (ih (column + 1) hopen.2 hamp.2)
      simpa [expandTabsFrom, hc, Ne.symm hopen.1, Ne.symm hamp.1] using hchar

end

namespace Expands
variable {reaches reaches' : Nat → Nat → Prop} {column : Nat} {t u : Text}

theorem imp (h : Expands reaches column t u) (himp : ∀ {a b}, reaches a b → reaches' a b) :
    Expands reaches' column t u := by
  induction h with
  | nil column => exact .nil column
  | char hc _ ih => exact .char hc ih
  | tab hwidth hreach _ ih => exact .tab hwidth (himp hreach) ih

theorem tab_notMem (h : Expands reaches column t u) : '\t' ∉ u := by
  induction h with
  | nil => exact List.not_mem_nil
  | char hc _ ih => exact List.not_mem_cons_of_ne_of_not_mem (Ne.symm hc) ih
  | tab _ _ _ ih =>
    refine List.not_mem_append (fun hm => ?_) ih
    exact absurd (List.eq_of_mem_replicate hm) (by decide)

/-- What the tab at the end of a line reaches. -/
theorem reaches_of_last {n : Nat} (h : Expands reaches column (List.replicate n 'x' ++ ['\t']) u) :
    ∃ width, u = List.replicate n 'x' ++ List.replicate width ' ' ∧ reaches (column + n) (column + n + width) := by
  induction n generalizing column u with
  | zero =>
    cases h with
    | char hc h => exact absurd rfl hc
    | @tab _ width _ _ _ hreach h =>
      cases h
      exact ⟨width, List.append_nil _, hreach⟩
  | succ n ih =>
    cases h with
    | char hc h =>
      obtain ⟨width, rfl, hreach⟩ := ih h
      rw [Nat.add_assoc column 1 n, Nat.add_comm 1 n] at hreach
      exact ⟨width, rfl, hreach⟩

end Expands

section
variable {stops : List Nat}

theorem unhidden_of_ascending (h : stops.Pairwise (· ≤ ·)) : Unhidden stops := by
  intro stop hstop _
  obtain ⟨found, hfound⟩ := Option.isSome_iff_exists.mp
    (List.find?_isSome (p := fun other => decide (stop ≤ other)).mpr ⟨stop, hstop, by simp⟩)
  obtain ⟨hle, before, after, rfl, hbefore⟩ := List.find?_eq_some_iff_append.mp hfound
  have hge : found ≤ stop := by
    rcases List.mem_append.mp hstop with hm | hm
    · simpa using hbefore stop hm
    · rcases List.mem_cons.mp hm with rfl | hm
      · exact Nat.le_refl _
      · exact (List.pairwise_cons.mp (List.pairwise_append.mp h).2.1).1 stop hm
  rw [hfound, Nat.le_antisymm hge (by simpa using hle)]

theorem expandTabsFrom_last (n column : Nat) :
    expandTabsFrom stops { column } (List.replicate n 'x' ++ ['\t']) =
      List.replicate n 'x' ++ List.replicate (nextTabStop stops (column + n) - (column + n)) ' ' := by
  induction n generalizing column with
  | zero => simp [expandTabsFrom]
  | succ n ih =>
    have hrest := ih (column + 1)
    rw [Nat.add_assoc column 1 n, Nat.add_comm 1 n] at hrest
    simpa [expandTabsFrom, List.replicate_succ] using hrest

/-- In a line without markup, a tab is replaced by as many blanks as take the text to the first stop of the list that
comes after it, or past the last stop to the next column of the row that goes on. It is the nearest stop for every tab
of every line exactly if no stop is hidden, as in every ascending list. -/
theorem expandTabs_nearest_iff (h : EndsRising stops) :
    (∀ line, '<' ∉ line → '&' ∉ line → '\t' ∉ expandTabsFrom stops {} line ∧
      Expands (Reaches FirstAfter stops) 0 line (expandTabsFrom stops {} line)) ∧
    ((∀ line, '<' ∉ line → '&' ∉ line →
      Expands (Reaches LeastAfter stops) 0 line (expandTabsFrom stops {} line)) ↔ Unhidden stops) ∧
    (stops.Pairwise (· ≤ ·) → Unhidden stops) := by
  have hfirst (line : Text) (hopen : '<' ∉ line) (hamp : '&' ∉ line) :=
    expands_expandTabsFrom (lt_nextTabStop h) (reaches_nextTabStop h) 0 hopen hamp
  refine ⟨fun line hopen hamp => ⟨(hfirst line hopen hamp).tab_notMem, hfirst line hopen hamp⟩, ⟨?_, ?_⟩,
    unhidden_of_ascending⟩
  · intro hnearest stop hstop hpos
    -- A tab right before the stop has to go to it.
    have hline := hnearest (List.replicate (stop - 1) 'x' ++ ['\t']) (by simp) (by simp)
    rw [expandTabsFrom_last, Nat.zero_add] at hline
    obtain ⟨width, hwidth, hreach⟩ := hline.reaches_of_last
    have hlt := lt_nextTabStop h (stop - 1)
    have hnext : 0 + (stop - 1) + width = nextTabStop stops (stop - 1) := by
      have hlength := congrArg List.length hwidth
      simp only [List.length_append, List.length_replicate] at hlength
      omega
    rw [hnext, Nat.zero_add] at hreach
    rcases hreach with hleast | hpast
    · exact find?_of_least hstop hpos hleast
    · have hle := hpast.past stop hstop
      omega
  · intro hu line hopen hamp
    exact (hfirst line hopen hamp).imp (Or.imp_left (FirstAfter.least · hu))

/-- Behind a stop at 30, the stops at 10 and 20 are hidden: a tab at the start of a line goes past both. -/
theorem expandTabs_nearest_iff_hidden :
    EndsRising [30, 10, 20] ∧
      ¬ ∀ line, '<' ∉ line → '&' ∉ line →
        Expands (Reaches LeastAfter [30, 10, 20]) 0 line (expandTabsFrom [30, 10, 20] {} line) := by
  have hrising : EndsRising [30, 10, 20] := by
    intro before previous last h
    have hreverse := congrArg List.reverse h
    simp only [List.reverse_append, List.reverse_cons] at hreverse
    obtain ⟨rfl, rfl, -⟩ : 20 = last ∧ 10 = previous ∧ _ := by simpa using hreverse
    decide
  refine ⟨hrising, fun hnearest => ?_⟩
  have hu := (expandTabs_nearest_iff hrising).2.1.mp hnearest
  exact absurd (hu 10 (by decide) (by decide)) (by decide)

end

end RoffDocBook.Document
