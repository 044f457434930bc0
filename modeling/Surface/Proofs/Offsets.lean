import Surface.Proofs.Declaration.Offsets
import Surface.Proofs.Simplifier.Offsets

/-! # No fault by an offset

Every offset that is used to read a line or to simplify a name stands in its text where a character
begins or where the text ends, and two such offsets are in order; no size is subtracted from a
smaller one. So all these functions return on every text, and they return what is defined without
offsets.
-/

namespace Surface.Offsets

open Text

/-- Reading and simplifying the text by offsets leads to no fault. -/
structure Faultless (policy : DisplayPolicy) (s : Simplifier) (t : Text) : Prop where
  splitWord : splitWord t = .ok (leadingWord t, afterLeadingWord t)
  gaps : gaps t = gapRanges t
  gap : ∀ gap ∈ gapRanges t, ∃ g, g ≠ [] ∧ slice t gap.1 gap.2 = .ok g
  stripModifiers : stripModifiers t = .ok (Declaration.stripModifiers t)
  initializerStart : initializerStart t = .ok (Declaration.initializerStart? t)
  signatureSize : signatureSize t = .ok (Declaration.signatureSize? t)
  readType : readType policy t = .ok (Declaration.readType? policy t)
  readMethod : readMethod policy t = .ok (Declaration.readMethod? policy t)
  readConstructor : readConstructor t = .ok (Declaration.readConstructor? t)
  readField : readField policy t = .ok (Declaration.readField? policy (trimEnd t))
  classify : classify policy t = .ok (Declaration.classify policy t)
  textOf : textOf t = .ok (Declaration.textOf t)
  afterLast (c : Char) : afterLast c t = .ok (Text.afterLast c t)
  simplifyName : simplifyName t = .ok (Simplifier.simplifyName t)
  simplify : simplify s t = .ok (s.simplify t)

theorem faultless (policy : DisplayPolicy) (s : Simplifier) (t : Text) : Faultless policy s t where
  splitWord := splitWord_eq t
  gaps := gaps_eq t
  gap := by
    intro gap hgap
    obtain ⟨a, ha, rfl⟩ := List.mem_map.1 hgap
    exact ⟨a.gap, (mem_cuts_iff.1 ha).gap_ne_nil, slice_gap ha⟩
  stripModifiers := stripModifiers_eq t
  initializerStart := initializerStart_eq t
  signatureSize := signatureSize_eq t
  readType := readType_eq policy t
  readMethod := readMethod_eq policy t
  readConstructor := readConstructor_eq t
  readField := readField_eq policy t
  classify := classify_eq policy t
  textOf := textOf_eq t
  afterLast c := afterLast_eq c t
  simplifyName := simplifyName_eq t
  simplify := simplify_eq s t

end Surface.Offsets
