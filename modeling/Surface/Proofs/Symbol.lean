import Mathlib.Data.List.Basic
import Surface.Proofs.Text.Bytes
import Surface.Symbol

/-! # The order of identities

Identities are ordered by class, kind and signature. Texts are ordered by their UTF-8 encodings,
and kinds by their place in a class: types, constructors, fields, methods.
-/

namespace Surface

theorem compare_list_eq_lt_iff {α : Type} [Ord α] [LT α] [Std.LawfulEqOrd α]
    (hlt : ∀ a b : α, compare a b = .lt ↔ a < b) {l l' : List α} :
    compare l l' = .lt ↔ l < l' := by
  induction l generalizing l' with
  | nil => cases l' <;> simp
  | cons a l ih =>
    cases l' with
    | nil => simp
    | cons b l' =>
      rw [List.compare_cons_cons, Ordering.then_eq_lt, List.cons_lt_cons_iff, ih, hlt,
        Std.LawfulEqOrd.compare_eq_iff_eq]

theorem Text.compare_eq_lt_iff {s t : Text} : compare s t = .lt ↔ s.bytes < t.bytes := by
  rw [← compare_bytes]
  exact compare_list_eq_lt_iff fun _ _ => Std.compare_eq_lt

/-- The kinds in the order in which a class lists them. -/
def Kind.inOrder : List Kind := [type, constructor, field, method]

def Kind.Precedes (k k' : Kind) : Prop := [k, k'].Sublist inOrder

theorem Kind.compare_rank_eq_lt_iff {k k' : Kind} :
    compare k.rank k'.rank = .lt ↔ k.Precedes k' := by
  rw [Nat.compare_eq_lt]
  unfold Precedes
  cases k <;> cases k' <;> decide

namespace SymbolId

/-- The order of the symbols of one class. -/
def PrecedesInClass (a b : SymbolId) : Prop :=
  a.kind.Precedes b.kind ∨ a.kind = b.kind ∧ a.signature.bytes < b.signature.bytes

def Precedes (a b : SymbolId) : Prop :=
  a.declaringClass.bytes < b.declaringClass.bytes ∨
    a.declaringClass = b.declaringClass ∧ a.PrecedesInClass b

theorem compare_eq_lt_iff {a b : SymbolId} : compare a b = .lt ↔ a.Precedes b := by
  have hrank : compare a.kind.rank b.kind.rank = .eq ↔ a.kind = b.kind := by
    rw [Std.LawfulEqOrd.compare_eq_iff_eq]
    exact ⟨Kind.rank_injective, congrArg Kind.rank⟩
  rw [compare_def, Ordering.then_eq_lt, Ordering.then_eq_lt, Text.compare_eq_lt_iff,
    Text.compare_eq_lt_iff, Kind.compare_rank_eq_lt_iff, hrank,
    Std.LawfulEqOrd.compare_eq_iff_eq]
  rfl

end SymbolId
end Surface
