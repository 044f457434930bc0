import Mathlib.Data.Set.Card
import Surface.Proofs.Symbol
import Surface.Proofs.SymbolTable

/-! # Runs of insertions

A table is a finite map from identities to definitions, with its entries in the order of the
identities. What a run of insertions makes of the table is compared with what it makes of a plain
function: an insertion that overwrites sets its key, and one that must not repeat a key sets it only
where the function has nothing.
-/

namespace Surface

/-- A definition that is offered to a table, and what to do if its identity is taken. -/
structure Insertion where
  id : SymbolId
  definition : Definition
  duplicates : DuplicatePolicy

abbrev Definitions := SymbolId → Option Definition

namespace Insertion

def ofRow (row : SymbolId × Definition) : Insertion := ⟨row.1, row.2, .overwrite⟩

def set (i : Insertion) (m : Definitions) : Definitions :=
  match i.duplicates with
  | .overwrite => Function.update m i.id (some i.definition)
  | .fail => if m i.id = none then Function.update m i.id (some i.definition) else m

def definitions (run : List Insertion) : Definitions :=
  run.foldl (fun m i => i.set m) fun _ => none

/-- The insertion must not repeat a key, but its key is taken. -/
def Refused (i : Insertion) (m : Definitions) : Prop := i.duplicates = .fail ∧ m i.id ≠ none

theorem Refused.set_eq {i : Insertion} {m : Definitions} (h : i.Refused m) : i.set m = m := by
  unfold set
  rw [h.1]
  exact if_neg h.2

theorem set_of_not_refused {i : Insertion} {m : Definitions} (h : ¬ i.Refused m) :
    i.set m = Function.update m i.id (some i.definition) := by
  unfold set
  cases hd : i.duplicates with
  | overwrite => rfl
  | fail =>
    by_cases hm : m i.id = none
    · exact if_pos hm
    · exact absurd ⟨hd, hm⟩ h

end Insertion

theorem encard_members {α : Type} {l : List α} (h : l.Nodup) :
    Set.encard {a | a ∈ l} = l.length := by
  classical
  have hmembers : {a | a ∈ l} = (l.toFinset : Set α) := by
    ext a
    simp
  rw [hmembers, Set.encard_coe_eq_coe_finsetCard, List.toFinset_card_of_nodup h]

namespace SymbolTable

/-- The table after an insertion. One that fails leaves the table as it is. -/
def accept (table : SymbolTable) (i : Insertion) : SymbolTable :=
  match table.define i.id i.definition i.duplicates with
  | .error _ => table
  | .ok (table, _) => table

def ofInsertions (run : List Insertion) : SymbolTable := run.foldl accept ∅

/-- The table is the finite map, and lists it in order. -/
structure Represents (table : SymbolTable) (m : Definitions) : Prop where
  get? (id : SymbolId) : table.get? id = m id
  contains (id : SymbolId) : table.contains id = (m id).isSome
  size : Set.encard {id | m id ≠ none} = table.size
  isEmpty : table.isEmpty = true ↔ ∀ id, m id = none
  mem_entries (id : SymbolId) (d : Definition) : (id, d) ∈ table.entries ↔ m id = some d
  sorted_entries : table.entries.Pairwise fun a b => a.1.Precedes b.1
  mem_keys (id : SymbolId) : id ∈ table.keys ↔ m id ≠ none
  nodup_keys : table.keys.Nodup
  sorted_keys : table.keys.Pairwise SymbolId.Precedes
  mem_classes (c : Text) : c ∈ table.classes ↔ ∃ id, m id ≠ none ∧ id.declaringClass = c
  nodup_classes : table.classes.Nodup
  sorted_classes : table.classes.Pairwise fun c c' => c.bytes < c'.bytes

/-- What the table answers to an insertion is what the finite map calls for. -/
structure Answers (table : SymbolTable) (i : Insertion) (m : Definitions) : Prop where
  refused : i.Refused m → table.accept i = table ∧ ∃ cause : Cause,
    table.define i.id i.definition i.duplicates = .error cause ∧
      cause.failure.kind.code = "ERR_DUPLICATE_SYMBOL".toList
  accepted : ¬ i.Refused m →
    table.define i.id i.definition i.duplicates = .ok (table.accept i, m i.id)

variable {table : SymbolTable} {m : Definitions}

theorem contains_iff_ne_none {id : SymbolId} : table.contains id = true ↔ table.get? id ≠ none := by
  rw [OrderedMap.contains, Option.isSome_iff_ne_none]

theorem define_of_refused {i : Insertion} (h : i.Refused table.get?) :
    table.define i.id i.definition i.duplicates =
      .error (.duplicate i.id.declaringClass i.id.signature) :=
  if_pos ⟨h.1, contains_iff_ne_none.2 h.2⟩

theorem define_of_not_refused {i : Insertion} (h : ¬ i.Refused table.get?) :
    table.define i.id i.definition i.duplicates =
      .ok (table.insert i.id i.definition, table.get? i.id) :=
  if_neg fun hd => h ⟨hd.1, contains_iff_ne_none.1 hd.2⟩

theorem get?_accept (table : SymbolTable) (i : Insertion) :
    (table.accept i).get? = i.set table.get? := by
  by_cases h : i.Refused table.get?
  · rw [accept, define_of_refused h, h.set_eq]
  · rw [accept, define_of_not_refused h, Insertion.set_of_not_refused h]
    funext id
    rw [OrderedMap.get?_insert, Function.update_apply]

theorem answers_get? (table : SymbolTable) (i : Insertion) : Answers table i table.get? where
  refused h := by
    refine ⟨?_, _, define_of_refused h, rfl⟩
    rw [accept, define_of_refused h]
  accepted h := by
    rw [accept, define_of_not_refused h]

theorem get?_ofInsertions (run : List Insertion) :
    (ofInsertions run).get? = Insertion.definitions run := by
  have fromTable : ∀ table : SymbolTable,
      (run.foldl accept table).get? = run.foldl (fun m i => i.set m) table.get? := by
    induction run with
    | nil => exact fun _ => rfl
    | cons i run ih =>
      intro table
      rw [List.foldl_cons, List.foldl_cons, ih, get?_accept]
  exact fromTable ∅

theorem ofList_eq_ofInsertions (rows : List (SymbolId × Definition)) :
    OrderedMap.ofList rows = ofInsertions (rows.map .ofRow) := by
  rw [OrderedMap.ofList, ofInsertions, List.foldl_map]
  rfl

theorem encard_contained (table : SymbolTable) :
    Set.encard {id | table.get? id ≠ none} = table.size := by
  have hkeys : {id | table.get? id ≠ none} = {id | id ∈ table.keys} := by
    ext id
    rw [Set.mem_ofPred_eq, Set.mem_ofPred_eq, OrderedMap.mem_keys_iff, contains_iff_ne_none]
  rw [hkeys, encard_members (OrderedMap.nodup_keys table), OrderedMap.keys, List.length_map]
  rfl

theorem sorted_classes (table : SymbolTable) :
    table.classes.Pairwise fun c c' => c.bytes < c'.bytes :=
  (OrderedMap.pairwise_keys _).imp Text.compare_eq_lt_iff.1

theorem represents_get? (table : SymbolTable) : Represents table table.get? where
  get? _ := rfl
  contains _ := rfl
  size := encard_contained table
  isEmpty := by
    rw [OrderedMap.isEmpty_iff]
    refine ⟨?_, fun h => OrderedMap.ext h⟩
    rintro rfl id
    rfl
  mem_entries _ _ := OrderedMap.mem_entries_iff
  sorted_entries := table.sorted.imp SymbolId.compare_eq_lt_iff.1
  mem_keys _ := OrderedMap.mem_keys_iff.trans contains_iff_ne_none
  nodup_keys := OrderedMap.nodup_keys table
  sorted_keys := (OrderedMap.pairwise_keys table).imp SymbolId.compare_eq_lt_iff.1
  mem_classes c := by
    simp only [mem_classes_iff, contains_iff_ne_none]
  nodup_classes := nodup_classes table
  sorted_classes := sorted_classes table

/-- After every run of insertions the table is the finite map that the run makes, in order, and
answers the next insertion from it. Rows are collected by overwriting. -/
theorem represents_ofInsertions (run : List Insertion) :
    Represents (ofInsertions run) (Insertion.definitions run) ∧
    (∀ i, Answers (ofInsertions run) i (Insertion.definitions run)) ∧
    ∀ rows, OrderedMap.ofList rows = ofInsertions (rows.map .ofRow) := by
  rw [← get?_ofInsertions]
  exact ⟨represents_get? _, answers_get? _, ofList_eq_ofInsertions⟩

end SymbolTable
end Surface
