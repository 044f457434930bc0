import Surface.Text.Basic

/-! # Splitting at a character

The parts of a text between the occurrences of one character; there is always at least one part.
-/

namespace Surface.Text

def splitAt (c : Char) : Text → List Text
  | [] => [[]]
  | x :: t =>
    if x = c then [] :: splitAt c t
    else
      match splitAt c t with
      | part :: parts => (x :: part) :: parts
      | [] => [[x]]

theorem splitAt_ne_nil (c : Char) (t : Text) : splitAt c t ≠ [] := by
  fun_cases splitAt c t <;> simp

theorem intercalate_splitAt (c : Char) (t : Text) : [c].intercalate (splitAt c t) = t := by
  induction t with
  | nil => simp [splitAt, List.intercalate]
  | cons x t ih =>
    simp only [splitAt]
    split
    next h =>
      cases hs : splitAt c t with
      | nil => exact absurd hs (splitAt_ne_nil c t)
      | cons p ps => rw [hs] at ih; subst h; simpa [List.intercalate] using ih
    next =>
      split
      next p ps hs =>
        rw [hs] at ih
        cases ps <;> simp_all [List.intercalate]
      next hs => exact absurd hs (splitAt_ne_nil c t)

end Surface.Text
