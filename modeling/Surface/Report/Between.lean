import Surface.Report.Basic
import Surface.SymbolTable

/-! # The report between two symbol tables

A symbol of only one table is an addition or a deletion. A symbol of both is a modification when
its full declarations differ; a difference in how it is displayed is none.
-/

namespace Surface.Report

def additions (old new : SymbolTable) : List Change :=
  (new.entries.filter fun (id, _) => !old.contains id).map fun (id, d) => .addition id d

def deletions (old new : SymbolTable) : List Change :=
  (old.entries.filter fun (id, _) => !new.contains id).map fun (id, d) => .deletion id d

def modification? (new : SymbolTable) (id : SymbolId) (oldDefinition : Definition) :
    Option Change :=
  match new.get? id with
  | some newDefinition =>
    if oldDefinition.full = newDefinition.full then none
    else some (.modification id oldDefinition newDefinition)
  | none => none

def modifications (old new : SymbolTable) : List Change :=
  old.entries.filterMap fun (id, d) => modification? new id d

/-- Each class lists its additions, then its deletions, then its modifications, and each of these
in the order of the identities. -/
def between (old new : SymbolTable) : Report :=
  ofChanges (additions old new ++ deletions old new ++ modifications old new)

end Surface.Report
