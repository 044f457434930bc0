import Surface.Failure
import Surface.OrderedMap
import Surface.Policy
import Surface.Symbol

/-! # Symbol tables

The symbols of one snapshot with their definitions, in the order of their identities.
-/

namespace Surface

abbrev SymbolTable := OrderedMap SymbolId Definition

namespace SymbolTable

/-- Adds a definition, and returns the one it displaces. -/
def define (table : SymbolTable) (id : SymbolId) (definition : Definition)
    (duplicates : DuplicatePolicy) : Except Cause (SymbolTable × Option Definition) :=
  if duplicates = .fail ∧ table.contains id then
    .error (.duplicate id.declaringClass id.signature)
  else
    .ok (table.insert id definition, table.get? id)

/-- The declaring classes in increasing order, each once. -/
def classes (table : SymbolTable) : List Text :=
  (OrderedMap.ofList (table.keys.map fun id => (id.declaringClass, ()))).keys

end SymbolTable
end Surface
