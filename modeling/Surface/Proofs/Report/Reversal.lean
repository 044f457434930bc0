import Mathlib.Data.List.Sort
import Surface.Proofs.Report.Order

/-! # The way back

The report from the new table to the old one undoes every change of the report from the old table to
the new one. What has been added is deleted, what has been deleted is added, and what has been
modified is modified back. The blocks keep their place in the list of a class: additions still come
first, although these were the deletions before.
-/

namespace Surface

/-- The change that undoes a change. -/
def Change.reverse : Change → Change
  | addition id d => deletion id d
  | deletion id d => addition id d
  | modification id old new => modification id new old

namespace Change

@[simp] theorem reverse_reverse (ch : Change) : ch.reverse.reverse = ch := by cases ch <;> rfl

@[simp] theorem id_reverse (ch : Change) : ch.reverse.id = ch.id := by cases ch <;> rfl

@[simp] theorem isModification_reverse (ch : Change) :
    ch.reverse.isModification = ch.isModification := by
  cases ch <;> rfl

end Change

namespace Report

theorem additions_swap (old new : SymbolTable) :
    additions new old = (deletions old new).map Change.reverse := by
  simp [additions, deletions, Change.reverse]

theorem deletions_swap (old new : SymbolTable) :
    deletions new old = (additions old new).map Change.reverse := by
  simp [additions, deletions, Change.reverse]

theorem modification_mem_iff {old new : SymbolTable} {id : SymbolId} {d d' : Definition} :
    .modification id d d' ∈ modifications old new ↔
      old.get? id = some d ∧ new.get? id = some d' ∧ d.full ≠ d'.full := by
  simp only [modifications, List.mem_filterMap, Prod.exists, OrderedMap.mem_entries_iff]
  constructor
  · intro h
    obtain ⟨id', a, hold, hch⟩ := h
    cases hnew : new.get? id' with
    | none => simp [modification?, hnew] at hch
    | some b =>
      by_cases hfull : a.full = b.full
      · simp [modification?, hnew, hfull] at hch
      · simp only [modification?, hnew, hfull, if_false, Option.some.injEq] at hch
        cases hch
        exact ⟨hold, hnew, hfull⟩
  · intro h
    exact ⟨id, d, h.1, by simp [modification?, h.2.1, h.2.2]⟩

/-- Changes in the order of their symbols are determined by which changes they are. -/
theorem eq_of_mem_iff {l l' : List Change} (hl : l.Pairwise fun a b => a.id.Precedes b.id)
    (hl' : l'.Pairwise fun a b => a.id.Precedes b.id) (h : ∀ ch, ch ∈ l ↔ ch ∈ l') : l = l' := by
  simp only [← SymbolId.compare_eq_lt_iff] at hl hl'
  have hirrefl : Std.Irrefl fun a b : Change => compare a.id b.id = .lt := ⟨by simp⟩
  have hantisymm : Std.Antisymm fun a b : Change => compare a.id b.id = .lt := by
    constructor
    intro a b hab hba
    simp [Std.OrientedCmp.gt_of_lt hab] at hba
  exact hl.eq_of_mem_iff hl' h

/-- Each pass walks the table that it starts from, but the symbols of both tables come in the same
order in either. -/
theorem modifications_swap (old new : SymbolTable) :
    modifications new old = (modifications old new).map Change.reverse := by
  apply eq_of_mem_iff (pairwise_modifications new old)
  · rw [List.pairwise_map]
    simpa using pairwise_modifications old new
  · intro ch
    rw [List.mem_map_of_involutive Change.reverse_reverse]
    have hother : ch.isModification = false →
        (ch ∈ modifications new old ↔ ch.reverse ∈ modifications old new) := by
      intro h
      apply iff_of_false
      · intro hmem
        simp [isModification_of_mem hmem] at h
      · intro hmem
        have hreverse := isModification_of_mem hmem
        simp [h] at hreverse
    cases ch with
    | addition id d => exact hother rfl
    | deletion id d => exact hother rfl
    | modification id d d' =>
      rw [Change.reverse, modification_mem_iff, modification_mem_iff, and_left_comm, ne_comm]

theorem filter_map_reverse (changes : List Change) (c : Text) :
    ((changes.map Change.reverse).filter fun ch => c = ch.id.declaringClass) =
      (changes.filter fun ch => c = ch.id.declaringClass).map Change.reverse := by
  simp [List.filter_map, Function.comp_def]

/-- The list of a class on the way back: its blocks are undone one by one, and the first two of them
change places. -/
theorem changesFor_between_swap (old new : SymbolTable) (c : Text) :
    ∃ added deleted modified,
      IsBlock Change.isAddition added ∧ IsBlock Change.isDeletion deleted ∧
      IsBlock Change.isModification modified ∧
      (between old new).changesFor c = added ++ deleted ++ modified ∧
      (between new old).changesFor c = deleted.map Change.reverse ++ added.map Change.reverse ++
        modified.map Change.reverse := by
  refine ⟨_, _, _, isBlock_ofClass (fun _ => isAddition_of_mem) (pairwise_additions old new) c,
    isBlock_ofClass (fun _ => isDeletion_of_mem) (pairwise_deletions old new) c,
    isBlock_ofClass (fun _ => isModification_of_mem) (pairwise_modifications old new) c, ?_, ?_⟩
  · rw [between, changesFor_ofChanges, List.filter_append, List.filter_append]
  · rw [between, changesFor_ofChanges, List.filter_append, List.filter_append,
      additions_swap old new, deletions_swap old new, modifications_swap old new,
      filter_map_reverse, filter_map_reverse, filter_map_reverse]

theorem keys_between_swap (old new : SymbolTable) :
    (between new old).keys = (between old new).keys := by
  apply OrderedMap.keys_eq_of_contains
  intro c
  obtain ⟨added, deleted, modified, -, -, -, hto, hback⟩ := changesFor_between_swap old new c
  rw [Bool.eq_iff_iff, (filed_between new old).contains_iff, (filed_between old new).contains_iff,
    hto, hback]
  simp [and_left_comm]

/-- The way back has the same classes, and in each class it undoes the changes block by block. -/
theorem between_swap (old new : SymbolTable) :
    (between new old).keys = (between old new).keys ∧
    ∀ c, ∃ added deleted modified,
      IsBlock Change.isAddition added ∧ IsBlock Change.isDeletion deleted ∧
      IsBlock Change.isModification modified ∧
      (between old new).changesFor c = added ++ deleted ++ modified ∧
      (between new old).changesFor c = deleted.map Change.reverse ++ added.map Change.reverse ++
        modified.map Change.reverse :=
  ⟨keys_between_swap old new, changesFor_between_swap old new⟩

end Report
end Surface
