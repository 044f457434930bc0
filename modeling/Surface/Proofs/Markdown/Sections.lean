import Surface.Markdown
import Surface.Proofs.OrderedMap

/-! # The sections of a report

The text of a report is the sections of its classes one after another. A section depends on the name
of its class and on the changes of that class, and on nothing else in the report.
-/

namespace Surface.Markdown

/-- The section of a class. -/
def sectionOf (s : Simplifier) (report : Report) (c : Text) : Text :=
  classSection s (s.simplify c) (report.changesFor c)

/-- The classes in the order of their sections. -/
def classOrder (s : Simplifier) (report : Report) : List Text :=
  report.keys.mergeSort fun c c' => (compare (s.simplify c) (s.simplify c')).isLE

variable {s : Simplifier} {report : Report} {c : Text}

theorem perm_classOrder (s : Simplifier) (report : Report) :
    (classOrder s report).Perm report.keys := List.mergeSort_perm _ _

theorem mem_classOrder_iff : c ∈ classOrder s report ↔ report.contains c = true := by
  rw [(perm_classOrder s report).mem_iff, OrderedMap.mem_keys_iff]

theorem map_keys_eq (s : Simplifier) (report : Report) :
    (report.keys.map fun c => (s.simplify c, report.changesFor c)) =
      report.entries.map fun (c, changes) => (s.simplify c, changes) := by
  rw [OrderedMap.keys, List.map_map]
  apply List.map_congr_left
  intro e he
  simp [Report.changesFor, OrderedMap.mem_entries_iff.1 he]

theorem sections_eq (s : Simplifier) (report : Report) :
    sections s report = (classOrder s report).map fun c => (s.simplify c, report.changesFor c) := by
  rw [classOrder, sections, ← map_keys_eq]
  symm
  apply List.map_mergeSort
  intro c _ c' _
  rfl

theorem render_eq (s : Simplifier) (report : Report) :
    render s report = (classOrder s report).flatMap (sectionOf s report) := by
  rw [render, sections_eq, List.flatMap_map]
  rfl

end Surface.Markdown
