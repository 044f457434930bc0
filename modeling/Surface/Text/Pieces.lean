import Surface.Text.Blank

/-! # Words and gaps

A text falls into its maximal gaps (runs of blanks) and words (runs of other characters), which
alternate. A cut divides the text at one of its gaps.
-/

namespace Surface.Text

/-- The gaps and words of a text, in order. -/
def pieces : Text → List Text
  | [] => []
  | c :: t =>
    match pieces t with
    | (d :: p) :: ps =>
      if isBlank c = isBlank d then (c :: d :: p) :: ps else [c] :: (d :: p) :: ps
    | ps => [c] :: ps

@[simp] theorem flatten_pieces (t : Text) : (pieces t).flatten = t := by
  induction t with
  | nil => rfl
  | cons c t ih =>
    simp only [pieces]
    split
    next d p ps h => rw [h] at ih; split <;> simp_all
    next => simp [ih]

theorem ne_nil_of_mem_pieces {t p : Text} (h : p ∈ pieces t) : p ≠ [] := by
  induction t generalizing p with
  | nil => simp [pieces] at h
  | cons c t ih =>
    simp only [pieces] at h
    split at h
    next d q ps hs =>
      have ih' := @ih p
      rw [hs] at ih'
      split at h <;> grind
    next => grind

def isGap (p : Text) : Bool := p.head?.any isBlank

/-- One of the gaps of a text, with the text on either side of it. -/
structure Cut where
  before : Text
  gap : Text
  after : Text
  deriving DecidableEq, Repr

/-- The bytes of the whole text that the gap fills, from the first up to the one behind the last. -/
def Cut.range (c : Cut) : Nat × Nat :=
  (c.before.byteSize, c.before.byteSize + c.gap.byteSize)

def cutsAfter (before : Text) : List Text → List Cut
  | [] => []
  | p :: ps =>
    if isGap p then ⟨before, p, ps.flatten⟩ :: cutsAfter (before ++ p) ps
    else cutsAfter (before ++ p) ps

/-- All cuts of a text, from the first gap to the last. -/
def cuts (t : Text) : List Cut := cutsAfter [] (pieces t)

theorem eq_of_mem_cutsAfter {before : Text} {ps : List Text} {c : Cut}
    (h : c ∈ cutsAfter before ps) : c.before ++ c.gap ++ c.after = before ++ ps.flatten := by
  induction ps generalizing before with
  | nil => simp [cutsAfter] at h
  | cons p ps ih =>
    simp only [cutsAfter] at h
    split at h
    next =>
      rcases List.mem_cons.1 h with rfl | h
      · simp
      · simpa using ih h
    next => simpa using ih h

theorem eq_of_mem_cuts {t : Text} {c : Cut} (h : c ∈ cuts t) :
    c.before ++ c.gap ++ c.after = t := by
  simpa using eq_of_mem_cutsAfter h

/-- The byte ranges of the gaps, in order. -/
def gapRanges (t : Text) : List (Nat × Nat) := (cuts t).map Cut.range

end Surface.Text
