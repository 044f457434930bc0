import Surface.Report.Basic
import Surface.SymbolTable

/-! # Reports as patches

A change can be carried out on a symbol table, and so can a whole report, its deletions first.
-/

namespace Surface

def Change.apply (change : Change) (table : SymbolTable) : SymbolTable :=
  match change with
  | addition id d | modification id _ d => table.insert id d
  | deletion id _ => table.erase id

/-- The definition that a change leaves behind. -/
def Change.result? : Change → Option Definition
  | addition _ d | modification _ _ d => some d
  | deletion _ _ => none

theorem Change.get?_apply (change : Change) (table : SymbolTable) (id : SymbolId) :
    (change.apply table).get? id = if id = change.id then change.result? else table.get? id := by
  cases change with
  | addition => exact OrderedMap.get?_insert ..
  | deletion => exact OrderedMap.get?_erase ..
  | modification => exact OrderedMap.get?_insert ..

/-- Removes the deleted symbols, then sets the added and the modified ones. -/
def Report.apply (report : Report) (table : SymbolTable) : SymbolTable :=
  (report.changes.filter Change.isDeletion ++
    report.changes.filter fun change => !change.isDeletion).foldl
      (fun table change => change.apply table) table

end Surface
