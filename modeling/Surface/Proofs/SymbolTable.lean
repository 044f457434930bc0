import Mathlib.Data.List.Nodup
import Surface.Proofs.OrderedMap
import Surface.SymbolTable

/-! # The classes of a symbol table

A class of the table is the declaring class of one of its symbols, and each class is listed once.
The rows of all classes together are the rows of the table.
-/

namespace Surface.SymbolTable

theorem mem_classes_iff {table : SymbolTable} {c : Text} :
    c ∈ table.classes ↔ ∃ id, table.contains id = true ∧ id.declaringClass = c := by
  rw [classes, OrderedMap.mem_keys_ofList]
  simp only [List.map_map, List.mem_map, Function.comp_apply, OrderedMap.mem_keys_iff]

theorem nodup_classes (table : SymbolTable) : table.classes.Nodup := OrderedMap.nodup_keys _

def rowsOf (table : SymbolTable) (c : Text) : List (SymbolId × Definition) :=
  table.entries.filter fun row => row.1.declaringClass = c

theorem mem_rowsOf_iff {table : SymbolTable} {c : Text} {row : SymbolId × Definition} :
    row ∈ table.rowsOf c ↔ table.get? row.1 = some row.2 ∧ row.1.declaringClass = c := by
  rw [rowsOf, List.mem_filter, decide_eq_true_eq, ← OrderedMap.mem_entries_iff]

theorem nodup_flatMap_rowsOf (table : SymbolTable) {order : List Text} (h : order.Nodup) :
    ((order.flatMap table.rowsOf).map Prod.fst).Nodup := by
  rw [List.map_flatMap, List.nodup_flatMap]
  refine ⟨fun c _ => ?_, h.imp fun {c c'} hne id hid hid' => hne ?_⟩
  · exact (OrderedMap.nodup_keys table).sublist (List.filter_sublist.map _)
  · obtain ⟨row, hrow, rfl⟩ := List.mem_map.1 hid
    obtain ⟨row', hrow', heq⟩ := List.mem_map.1 hid'
    rw [← (mem_rowsOf_iff.1 hrow).2, ← (mem_rowsOf_iff.1 hrow').2, heq]

theorem mem_flatMap_rowsOf_iff {table : SymbolTable} {order : List Text}
    (h : order.Perm table.classes) {row : SymbolId × Definition} :
    row ∈ order.flatMap table.rowsOf ↔ row ∈ table.entries := by
  rw [List.mem_flatMap]
  constructor
  · rintro ⟨c, -, hrow⟩
    exact List.mem_of_mem_filter hrow
  · intro hrow
    have hget := OrderedMap.mem_entries_iff.1 hrow
    refine ⟨row.1.declaringClass, h.mem_iff.2 (mem_classes_iff.2 ⟨row.1, ?_, rfl⟩),
      mem_rowsOf_iff.2 ⟨hget, rfl⟩⟩
    rw [OrderedMap.contains, hget]
    rfl

/-- The rows of a class are the row of its type and those of its other symbols. -/
theorem perm_rowsOf {table : SymbolTable} {c : Text} {header : Definition}
    (h : table.get? (.ofClass c) = some header) :
    ((SymbolId.ofClass c, header) ::
      (table.rowsOf c).filter fun row => row.1 ≠ .ofClass c).Perm (table.rowsOf c) := by
  have htype : (table.rowsOf c).filter (fun row => row.1 = .ofClass c) =
      [(SymbolId.ofClass c, header)] := by
    have hkey := OrderedMap.filter_key_entries table (.ofClass c)
    rw [h] at hkey
    rw [rowsOf, List.filter_comm, hkey]
    simp [SymbolId.ofClass]
  have hperm := List.filter_append_perm (fun row => row.1 = .ofClass c) (table.rowsOf c)
  rw [htype] at hperm
  simpa using hperm

end Surface.SymbolTable
