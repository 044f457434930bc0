import Surface.Choice

/-! # Symbols

A symbol is identified by its declaring class, its kind and its signature, and identities are
ordered by these three in turn. A definition is what a snapshot says about a symbol.
-/

namespace Surface

inductive Kind where
  | type
  | constructor
  | field
  | method
  deriving DecidableEq, Repr

namespace Kind

/-- Types come first in their class, then constructors, fields and methods. -/
def rank : Kind → Nat
  | type => 0
  | constructor => 1
  | field => 2
  | method => 3

theorem rank_injective {a b : Kind} (h : a.rank = b.rank) : a = b := by
  cases a <;> cases b <;> simp_all [rank]

instance : Choice Kind where
  all := [type, constructor, field, method]
  name
    | type => "type"
    | constructor => "constructor"
    | field => "field"
    | method => "method"
  find_name k := by cases k <;> decide

/-- The word a reader sees; a type is shown as a class where type keywords are not told apart. -/
def label : Kind → Text
  | type => "class"
  | constructor => "constructor"
  | field => "field"
  | method => "method"

end Kind

structure SymbolId where
  declaringClass : Text
  kind : Kind
  signature : Text
  deriving DecidableEq, Repr

namespace SymbolId

/-- The symbol that a class declaration itself introduces. -/
def ofClass (name : Text) : SymbolId := ⟨name, .type, name⟩

def display (id : SymbolId) : Text :=
  id.kind.label ++ " ".toList ++ id.declaringClass ++ "::".toList ++ id.signature

instance : Ord SymbolId where
  compare := compareLex (compareOn declaringClass)
    (compareLex (compareOn fun id => id.kind.rank) (compareOn signature))

instance : Std.TransOrd SymbolId :=
  inferInstanceAs (Std.TransCmp (compareLex (compareOn declaringClass)
    (compareLex (compareOn fun id => id.kind.rank) (compareOn signature))))

theorem compare_def (a b : SymbolId) :
    compare a b = (compare a.declaringClass b.declaringClass).then
      ((compare a.kind.rank b.kind.rank).then (compare a.signature b.signature)) := rfl

instance : Std.LawfulEqOrd SymbolId where
  eq_of_compare {a b} h := by
    simp only [compare_def, Ordering.then_eq_eq, Std.LawfulEqOrd.compare_eq_iff_eq] at h
    obtain ⟨hc, hk, hs⟩ := h
    cases a; cases b
    cases hc; cases hs; cases Kind.rank_injective hk; rfl

end SymbolId

structure Definition where
  full : Text
  short : Text
  label : Text
  deriving DecidableEq, Repr

end Surface
