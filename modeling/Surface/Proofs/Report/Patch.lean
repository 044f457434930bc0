import Surface.Proofs.Listing.Reached
import Surface.Proofs.Report.Exactness
import Surface.Report.Patch

/-! # The report is a complete patch

Carried out on the old table, the report between two tables sets each symbol to what the new table
says about it, or leaves it where the full declarations agree. Tables read under one display policy
agree on a symbol as soon as its full declarations do, so for them the patched table is the new one.
-/

namespace Surface

/-- Of several changes of one symbol the last decides. -/
theorem Change.get?_foldl_apply (changes : List Change) (table : SymbolTable) (id : SymbolId) :
    (changes.foldl (fun table change => change.apply table) table).get? id =
      match (changes.filter fun ch => ch.id = id).getLast? with
      | some ch => ch.result?
      | none => table.get? id := by
  induction changes generalizing table with
  | nil => rfl
  | cons ch rest ih =>
    rw [List.foldl_cons, ih, Change.get?_apply, List.filter_cons]
    by_cases h : ch.id = id
    · subst h
      cases hlast : (rest.filter fun c => c.id = ch.id).getLast? with
      | none => simp [List.getLast?_eq_none_iff.1 hlast]
      | some c => simp [List.getLast?_cons, hlast]
    · simp [h, Ne.symm h]

namespace Report

theorem get?_apply_between (old new : SymbolTable) (id : SymbolId) :
    ((between old new).apply old).get? id =
      match Change.ofDefinitions? id (old.get? id) (new.get? id) with
      | some ch => ch.result?
      | none => old.get? id := by
  rw [Report.apply, Change.get?_foldl_apply, List.filter_append, List.filter_comm,
    List.filter_comm _ fun ch => !Change.isDeletion ch, filter_changes_between]
  cases Change.ofDefinitions? id (old.get? id) (new.get? id) with
  | none => rfl
  | some ch => cases ch <;> rfl

/-- Where equal full declarations mean equal definitions, the patched table is the new one. -/
theorem apply_between {old new : SymbolTable}
    (agree : ∀ id d d', old.get? id = some d → new.get? id = some d' → d.full = d'.full → d = d') :
    (between old new).apply old = new := by
  apply OrderedMap.ext
  intro id
  rw [get?_apply_between]
  cases hold : old.get? id with
  | none => cases hnew : new.get? id <;> rfl
  | some d =>
    cases hnew : new.get? id with
    | none => rfl
    | some d' =>
      by_cases hfull : d.full = d'.full
      · simp [Change.ofDefinitions?, agree id d d' hold hnew hfull]
      · simp [Change.ofDefinitions?, hfull, Change.result?]

theorem between_self (table : SymbolTable) : between table table = ∅ := by
  apply OrderedMap.ext
  intro c
  cases hget : (between table table).get? c with
  | none => rfl
  | some chs =>
    obtain ⟨hne, -⟩ := filed_between table table c chs hget
    obtain ⟨ch, hch⟩ := List.exists_mem_of_ne_nil chs hne
    have hmem := mem_changes_between.1
      (List.mem_flatMap.2 ⟨(c, chs), OrderedMap.mem_entries_iff.2 hget, hch⟩)
    cases hid : table.get? ch.id <;> simp [hid, Change.ofDefinitions?] at hmem

theorem apply_empty (table : SymbolTable) : (∅ : Report).apply table = table := rfl

end Report

/-- What a full declaration means is fixed by the display policy. -/
theorem Declared.eq_of_full_eq {display : DisplayPolicy} {id : SymbolId} {d d' : Definition}
    (hd : Declared display id d) (hd' : Declared display id d') (h : d.full = d'.full) :
    d = d' := by
  have hc := hd.classified
  rw [h, hd'.classified] at hc
  obtain ⟨full, short, label⟩ := d
  obtain ⟨full', short', label'⟩ := d'
  simp_all

/-- The patched table is the new one, and nothing is reported only between equal tables. -/
theorem Report.apply_between_eq {display : DisplayPolicy} {old new : SymbolTable}
    (hold : ReachedUnder display old) (hnew : ReachedUnder display new) :
    (between old new).apply old = new ∧ ((between old new).isEmpty = true ↔ old = new) := by
  have hpatch : (between old new).apply old = new := by
    apply apply_between
    intro id d d' hd hd' hfull
    exact (hold.declared hd).eq_of_full_eq (hnew.declared hd') hfull
  refine ⟨hpatch, fun hempty => ?_, fun heq => ?_⟩
  · rw [OrderedMap.isEmpty_iff.1 hempty, apply_empty] at hpatch
    exact hpatch
  · rw [heq, between_self]
    rfl

namespace Report

def tankBefore : Listing where
  source := "Tank".toList
  text := "public class Tank \x7b\n  int level;\n  void drain();\n\x7d\n".toList

def tankAfter : Listing where
  source := "Tank".toList
  text := "public class Tank \x7b\n  protected int level;\n  public Tank(int level);\n\x7d\n".toList

def oldTank : SymbolTable := (tankBefore.read default ∅).table

def newTank : SymbolTable := (tankAfter.read default ∅).table

theorem apply_between_tanks : ReachedUnder default oldTank ∧ ReachedUnder default newTank ∧
    (between oldTank newTank).changes.length = 3 ∧
    (between oldTank newTank).apply oldTank = newTank ∧
    ((between oldTank newTank).isEmpty = true ↔ oldTank = newTank) := by
  have hold : ReachedUnder default oldTank := .read tankBefore rfl .empty
  have hnew : ReachedUnder default newTank := .read tankAfter rfl .empty
  exact ⟨hold, hnew, by decide +kernel, apply_between_eq hold hnew⟩

end Report
end Surface
