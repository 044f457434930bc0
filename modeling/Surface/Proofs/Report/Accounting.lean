import Surface.Proofs.Report.Exactness
import Surface.Proofs.SymbolTable.Insertions

/-! # What a summary counts

A report between two tables has at most one change of a symbol, so its changes are counted by
counting symbols: those that only the new table has, those that only the old one has, and those that
the two define differently. Whatever comes without an addition or goes without a deletion is in both
tables, so the sizes of the tables balance with the counts.
-/

namespace Surface

def SymbolTable.ids (table : SymbolTable) : Set SymbolId := {id | table.contains id = true}

theorem Change.id_of_ofDefinitions? {id : SymbolId} {old new : Option Definition} {ch : Change}
    (h : ofDefinitions? id old new = some ch) : ch.id = id := by
  unfold ofDefinitions? at h
  split at h
  · cases h
  · cases h
    rfl
  · cases h
    rfl
  · split at h <;> cases h
    rfl

namespace Report

/-- The symbols of both tables whose full declarations differ. -/
def modifiedIds (old new : SymbolTable) : Set SymbolId :=
  {id | ∃ d d', old.get? id = some d ∧ new.get? id = some d' ∧ d.full ≠ d'.full}

/-- The symbols that two tables do not have in common. -/
def changedIds (old new : SymbolTable) : Set SymbolId :=
  new.ids \ old.ids ∪ old.ids \ new.ids ∪ modifiedIds old new

/-- The counts are those of the symbols that change, and balance with the sizes of the tables. -/
structure Counts (s : Summary) (old new : SymbolTable) : Prop where
  balance : old.size + s.additions = new.size + s.deletions
  additions : (new.ids \ old.ids).encard = s.additions
  deletions : (old.ids \ new.ids).encard = s.deletions
  modifications : (modifiedIds old new).encard = s.modifications
  classes : (SymbolId.declaringClass '' changedIds old new).encard = s.classes
  classes_le : s.classes ≤ s.additions + s.deletions + s.modifications

variable {old new : SymbolTable} {id : SymbolId}

theorem nodup_ids_between (old new : SymbolTable) :
    ((between old new).changes.map Change.id).Nodup := by
  rw [List.nodup_iff_count_le_one]
  intro id
  have hfilter := congrArg List.length (filter_changes_between old new id)
  have hcount : ((between old new).changes.map Change.id).count id =
      ((between old new).changes.filter fun ch => ch.id = id).length := by
    rw [List.count, List.countP_map, ← List.countP_eq_length_filter]
    apply List.countP_congr
    intro ch _
    simp
  rw [hcount, hfilter]
  cases Change.ofDefinitions? id (old.get? id) (new.get? id) <;> simp

/-- The symbols whose change is of a variant. -/
def idsOf (variant : Change → Bool) (old new : SymbolTable) : Set SymbolId :=
  {id | ∃ ch ∈ (between old new).changes, variant ch = true ∧ ch.id = id}

theorem encard_idsOf (variant : Change → Bool) (old new : SymbolTable) :
    (idsOf variant old new).encard = (between old new).changes.countP variant := by
  have hnodup : (((between old new).changes.filter variant).map Change.id).Nodup :=
    (nodup_ids_between old new).sublist (List.filter_sublist.map _)
  have hids : idsOf variant old new =
      {id | id ∈ ((between old new).changes.filter variant).map Change.id} := by
    ext id
    simp [idsOf, and_assoc]
  rw [hids, encard_members hnodup, List.length_map, List.countP_eq_length_filter]

theorem mem_idsOf_iff {variant : Change → Bool} : id ∈ idsOf variant old new ↔
    ∃ ch, Change.ofDefinitions? id (old.get? id) (new.get? id) = some ch ∧ variant ch = true := by
  constructor
  · intro h
    obtain ⟨ch, hch, hvariant, rfl⟩ := h
    exact ⟨ch, mem_changes_between.1 hch, hvariant⟩
  · intro h
    obtain ⟨ch, hch, hvariant⟩ := h
    have hid := Change.id_of_ofDefinitions? hch
    exact ⟨ch, mem_changes_between.2 (by rw [hid]; exact hch), hvariant, hid⟩

theorem idsOf_isAddition (old new : SymbolTable) :
    idsOf Change.isAddition old new = new.ids \ old.ids := by
  ext id
  rw [mem_idsOf_iff]
  cases hold : old.get? id <;> cases hnew : new.get? id <;>
    simp [SymbolTable.ids, OrderedMap.contains, hold, hnew, Change.ofDefinitions?,
      Change.isAddition]

theorem idsOf_isDeletion (old new : SymbolTable) :
    idsOf Change.isDeletion old new = old.ids \ new.ids := by
  ext id
  rw [mem_idsOf_iff]
  cases hold : old.get? id <;> cases hnew : new.get? id <;>
    simp [SymbolTable.ids, OrderedMap.contains, hold, hnew, Change.ofDefinitions?,
      Change.isDeletion]

theorem idsOf_isModification (old new : SymbolTable) :
    idsOf Change.isModification old new = modifiedIds old new := by
  ext id
  rw [mem_idsOf_iff]
  cases hold : old.get? id <;> cases hnew : new.get? id <;>
    simp [modifiedIds, hold, hnew, Change.ofDefinitions?, Change.isModification]

theorem mem_keys_between_iff {c : Text} : c ∈ (between old new).keys ↔
    ∃ ch ∈ (between old new).changes, ch.id.declaringClass = c := by
  have hfiled := filed_between old new
  rw [OrderedMap.mem_keys_iff, hfiled.contains_iff]
  constructor
  · intro h
    obtain ⟨ch, hch⟩ := List.exists_mem_of_ne_nil _ h
    have hclass := hfiled.changesFor hch
    subst hclass
    exact ⟨ch, hfiled.mem_changes_iff.2 hch, rfl⟩
  · intro h
    obtain ⟨ch, hch, rfl⟩ := h
    exact List.ne_nil_of_mem (hfiled.mem_changes_iff.1 hch)

theorem image_changedIds (old new : SymbolTable) :
    SymbolId.declaringClass '' changedIds old new = {c | c ∈ (between old new).keys} := by
  ext c
  rw [changedIds, ← idsOf_isAddition, ← idsOf_isDeletion, ← idsOf_isModification,
    Set.mem_ofPred_eq, mem_keys_between_iff, Set.mem_image]
  constructor
  · intro h
    obtain ⟨id, ((⟨ch, hch, -, rfl⟩ | ⟨ch, hch, -, rfl⟩) | ⟨ch, hch, -, rfl⟩), rfl⟩ := h <;>
      exact ⟨ch, hch, rfl⟩
  · intro h
    obtain ⟨ch, hch, rfl⟩ := h
    refine ⟨ch.id, ?_, rfl⟩
    cases hvariant : ch with
    | addition id d => exact .inl (.inl ⟨ch, hch, by rw [hvariant]; rfl, by rw [hvariant]⟩)
    | deletion id d => exact .inl (.inr ⟨ch, hch, by rw [hvariant]; rfl, by rw [hvariant]⟩)
    | modification id d d' => exact .inr ⟨ch, hch, by rw [hvariant]; rfl, by rw [hvariant]⟩

theorem encard_classes (old new : SymbolTable) :
    (SymbolId.declaringClass '' changedIds old new).encard = (between old new).size := by
  rw [image_changedIds, encard_members (OrderedMap.nodup_keys _), OrderedMap.keys, List.length_map]
  rfl

theorem encard_ids (table : SymbolTable) : table.ids.encard = table.size := by
  rw [← SymbolTable.encard_contained]
  congr 1
  ext id
  exact SymbolTable.contains_iff_ne_none

/-- A summary counts what two tables do not have in common. In the balance both sides count the
symbols of the two tables together. -/
theorem counts_between (old new : SymbolTable) : Counts (between old new).summary old new := by
  have hadditions : (new.ids \ old.ids).encard = (between old new).summary.additions := by
    rw [← idsOf_isAddition, encard_idsOf]
    rfl
  have hdeletions : (old.ids \ new.ids).encard = (between old new).summary.deletions := by
    rw [← idsOf_isDeletion, encard_idsOf]
    rfl
  have hmodifications : (modifiedIds old new).encard = (between old new).summary.modifications := by
    rw [← idsOf_isModification, encard_idsOf]
    rfl
  have hclasses : (SymbolId.declaringClass '' changedIds old new).encard =
      (between old new).summary.classes := encard_classes old new
  refine ⟨?_, hadditions, hdeletions, hmodifications, hclasses, ?_⟩
  · have hunion : old.ids.encard + (new.ids \ old.ids).encard =
        new.ids.encard + (old.ids \ new.ids).encard := by
      rw [add_comm, Set.encard_sdiff_add_encard, add_comm, Set.encard_sdiff_add_encard,
        Set.union_comm]
    rw [hadditions, hdeletions, encard_ids, encard_ids] at hunion
    exact_mod_cast hunion
  · have hle : (SymbolId.declaringClass '' changedIds old new).encard ≤
        (new.ids \ old.ids).encard + (old.ids \ new.ids).encard + (modifiedIds old new).encard :=
      calc (SymbolId.declaringClass '' changedIds old new).encard
          ≤ (changedIds old new).encard := Set.encard_image_le _ _
        _ ≤ (new.ids \ old.ids ∪ old.ids \ new.ids).encard + (modifiedIds old new).encard :=
          Set.encard_union_le _ _
        _ ≤ _ := by
          gcongr
          exact Set.encard_union_le _ _
    rw [hclasses, hadditions, hdeletions, hmodifications] at hle
    exact_mod_cast hle

/-- The summary of a report counts the symbols that two tables do not have in common and the classes
of these, and there are none only in the empty report. -/
theorem summary_between (old new : SymbolTable) : Counts (between old new).summary old new ∧
    ((between old new).summary.classes = 0 ↔ (between old new).isEmpty = true) := by
  refine ⟨counts_between old new, ?_⟩
  rw [OrderedMap.isEmpty, List.isEmpty_iff]
  exact List.length_eq_zero_iff

end Report
end Surface
