import Mathlib.Data.List.Basic
import Surface.Proofs.OrderedMap
import Surface.Report.Between

/-! # What a report between two tables says about one symbol

Three passes over the tables add changes to a report that files them by class. Filing keeps every
change under its own class, and at most one of the passes has a change for a given symbol, so the
report has the change that the two definitions of the symbol call for and no other.
-/

namespace Surface

/-- The change of a symbol, if there is one, from what the old and the new table define for it. -/
def Change.ofDefinitions? (id : SymbolId) : Option Definition → Option Definition → Option Change
  | none, none => none
  | none, some new => some (.addition id new)
  | some old, none => some (.deletion id old)
  | some old, some new => if old.full = new.full then none else some (.modification id old new)

namespace Report

/-- Every class of the report has changes, all of them of its own symbols. -/
def Filed (report : Report) : Prop :=
  ∀ c chs, report.get? c = some chs → chs ≠ [] ∧ ∀ ch ∈ chs, ch.id.declaringClass = c

theorem filed_empty : Filed ∅ := by
  intro c chs h
  cases h

theorem Filed.changesFor {report : Report} (h : report.Filed) {c : Text} {ch : Change}
    (hch : ch ∈ report.changesFor c) : ch.id.declaringClass = c := by
  unfold Report.changesFor at hch
  cases hget : report.get? c with
  | none => simp [hget] at hch
  | some chs =>
    rw [hget] at hch
    exact (h c chs hget).2 ch hch

/-- What is filed is all that there is, as no class is left without a change. -/
theorem Filed.get?_eq {report : Report} (h : report.Filed) (c : Text) :
    report.get? c = if report.changesFor c = [] then none else some (report.changesFor c) := by
  unfold Report.changesFor
  cases hget : report.get? c with
  | none => simp
  | some chs => simp [(h c chs hget).1]

theorem Filed.contains_iff {report : Report} (h : report.Filed) {c : Text} :
    report.contains c = true ↔ report.changesFor c ≠ [] := by
  rw [OrderedMap.contains, h.get?_eq]
  split <;> simp_all

theorem Filed.push {report : Report} (h : report.Filed) (ch : Change) : (report.push ch).Filed := by
  intro c chs hget
  rw [Report.push, OrderedMap.get?_insert] at hget
  split at hget
  next hc =>
    subst hc
    cases hget
    refine ⟨by simp, fun ch' hch' => ?_⟩
    rcases List.mem_append.1 hch' with hold | hnew
    · exact h.changesFor hold
    · rw [List.mem_singleton.1 hnew]
  next => exact h c chs hget

theorem filed_ofChanges (changes : List Change) : (ofChanges changes).Filed := by
  have run : ∀ report : Report, report.Filed → (changes.foldl Report.push report).Filed := by
    induction changes with
    | nil => exact fun _ h => h
    | cons ch rest ih => exact fun report h => ih _ (h.push ch)
  exact run ∅ filed_empty

/-- Only the entry of the symbol's own class can hold a change of the symbol. -/
theorem Filed.filter_changes {report : Report} (h : report.Filed) (id : SymbolId) :
    (report.changes.filter fun ch => ch.id = id) =
      (report.changesFor id.declaringClass).filter fun ch => ch.id = id := by
  have other : ∀ e ∈ report.entries, e.1 ≠ id.declaringClass →
      e.2.filter (fun ch => ch.id = id) = [] := by
    rintro ⟨c, chs⟩ he hne
    rw [List.filter_eq_nil_iff]
    intro ch hch hid
    have hown := (h c chs (OrderedMap.mem_entries_iff.1 he)).2 ch hch
    rw [of_decide_eq_true hid] at hown
    exact hne hown.symm
  have key : ∀ l : List (Text × List Change), (∀ e ∈ l, e ∈ report.entries) →
      l.flatMap (fun e => e.2.filter fun ch => ch.id = id) =
        (l.filter fun e => e.1 = id.declaringClass).flatMap
          fun e => e.2.filter fun ch => ch.id = id := by
    intro l
    induction l with
    | nil => exact fun _ => rfl
    | cons e l ih =>
      intro hl
      rw [List.flatMap_cons, List.filter_cons, ih fun b hb => hl b (List.mem_cons_of_mem _ hb)]
      by_cases he : e.1 = id.declaringClass
      · simp [he]
      · simp [he, other e (hl e List.mem_cons_self) he]
  rw [changes, List.filter_flatMap, key _ fun _ he => he, OrderedMap.filter_key_entries,
    Report.changesFor]
  cases report.get? id.declaringClass <;> simp

theorem Filed.mem_changes_iff {report : Report} (h : report.Filed) {ch : Change} :
    ch ∈ report.changes ↔ ch ∈ report.changesFor ch.id.declaringClass := by
  have hmem := congrArg (ch ∈ ·) (h.filter_changes ch.id)
  simpa using hmem

theorem filter_changes_ofChanges (changes : List Change) (id : SymbolId) :
    ((ofChanges changes).changes.filter fun ch => ch.id = id) =
      changes.filter fun ch => ch.id = id := by
  rw [(filed_ofChanges changes).filter_changes, changesFor_ofChanges, List.filter_filter]
  refine List.filter_congr fun ch _ => ?_
  by_cases h : ch.id = id <;> simp [h]

/-- A pass over the symbols that only one of two tables has. -/
theorem filter_onesided {make : SymbolId → Definition → Change}
    (hmake : ∀ id d, (make id d).id = id) (here there : SymbolTable) (id : SymbolId) :
    (((here.entries.filter fun e => !there.contains e.1).map fun e => make e.1 e.2).filter
      fun ch => ch.id = id) =
      if there.contains id then [] else ((here.get? id).map (make id)).toList := by
  rw [List.filter_map]
  simp only [Function.comp_def, hmake]
  rw [List.filter_comm, OrderedMap.filter_key_entries]
  cases here.get? id <;> cases hc : there.contains id <;> simp [hc]

theorem filter_additions (old new : SymbolTable) (id : SymbolId) :
    ((additions old new).filter fun ch => ch.id = id) =
      if old.contains id then [] else ((new.get? id).map (.addition id)).toList :=
  filter_onesided (fun _ _ => rfl) new old id

theorem filter_deletions (old new : SymbolTable) (id : SymbolId) :
    ((deletions old new).filter fun ch => ch.id = id) =
      if new.contains id then [] else ((old.get? id).map (.deletion id)).toList :=
  filter_onesided (fun _ _ => rfl) old new id

theorem id_of_modification? {new : SymbolTable} {id : SymbolId} {d : Definition} {ch : Change}
    (h : modification? new id d = some ch) : ch.id = id := by
  unfold modification? at h
  split at h
  · split at h <;> cases h
    rfl
  · cases h

theorem filter_modifications (old new : SymbolTable) (id : SymbolId) :
    ((modifications old new).filter fun ch => ch.id = id) =
      ((old.get? id).bind (modification? new id)).toList := by
  have own : ∀ e : SymbolId × Definition,
      (modification? new e.1 e.2).filter (fun ch => ch.id = id) =
        if e.1 = id then modification? new e.1 e.2 else none := by
    intro e
    cases hm : modification? new e.1 e.2 with
    | none => simp
    | some ch => by_cases he : e.1 = id <;> simp [Option.filter, id_of_modification? hm, he]
  rw [modifications, List.filter_filterMap]
  simp only [own]
  have restrict : old.entries.filterMap
      (fun e => if e.1 = id then modification? new e.1 e.2 else none) =
      (old.entries.filter fun e => e.1 = id).filterMap fun e => modification? new e.1 e.2 := by
    rw [List.filterMap_filter]
    simp
  rw [restrict, OrderedMap.filter_key_entries]
  cases old.get? id with
  | none => rfl
  | some d => cases hm : modification? new id d <;> simp [hm]

/-- The report has for each symbol the change that its two definitions call for, once, and no
other. -/
theorem filter_changes_between (old new : SymbolTable) (id : SymbolId) :
    ((between old new).changes.filter fun ch => ch.id = id) =
      (Change.ofDefinitions? id (old.get? id) (new.get? id)).toList := by
  rw [between, filter_changes_ofChanges, List.filter_append, List.filter_append, filter_additions,
    filter_deletions, filter_modifications]
  unfold OrderedMap.contains
  cases hold : old.get? id with
  | none => cases new.get? id <;> simp [Change.ofDefinitions?]
  | some d =>
    cases hnew : new.get? id with
    | none => simp [Change.ofDefinitions?, modification?, hnew]
    | some d' =>
      by_cases hf : d.full = d'.full <;> simp [Change.ofDefinitions?, modification?, hnew, hf]

theorem filed_between (old new : SymbolTable) : (between old new).Filed := filed_ofChanges _

theorem mem_changes_between {old new : SymbolTable} {ch : Change} :
    ch ∈ (between old new).changes ↔
      Change.ofDefinitions? ch.id (old.get? ch.id) (new.get? ch.id) = some ch := by
  have h := filter_changes_between old new ch.id
  rw [← Option.mem_toList, ← h, List.mem_filter]
  simp

/-- A change is about a symbol that one of the two tables has. -/
theorem contains_of_mem_changes_between {old new : SymbolTable} {ch : Change}
    (h : ch ∈ (between old new).changes) : old.contains ch.id ∨ new.contains ch.id := by
  have hch := mem_changes_between.1 h
  unfold OrderedMap.contains
  cases hold : old.get? ch.id with
  | some d => simp
  | none =>
    cases hnew : new.get? ch.id with
    | some d => simp
    | none => rw [hold, hnew] at hch; cases hch

/-- One change for each symbol that calls for one, filed under the symbol's class; no other change
and no empty class. -/
theorem between_exact (old new : SymbolTable) :
    (∀ id, ((between old new).changes.filter fun ch => ch.id = id) =
      (Change.ofDefinitions? id (old.get? id) (new.get? id)).toList) ∧
    ∀ c chs, (between old new).get? c = some chs →
      chs ≠ [] ∧ ∀ ch ∈ chs, ch.id.declaringClass = c ∧
        (old.contains ch.id ∨ new.contains ch.id) := by
  refine ⟨filter_changes_between old new, fun c chs hget => ?_⟩
  obtain ⟨hne, hown⟩ := filed_between old new c chs hget
  refine ⟨hne, fun ch hch => ⟨hown ch hch, ?_⟩⟩
  apply contains_of_mem_changes_between
  exact List.mem_flatMap.2 ⟨(c, chs), OrderedMap.mem_entries_iff.2 hget, hch⟩

end Report
end Surface
