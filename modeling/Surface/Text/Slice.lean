import Surface.Text.Basic

/-! # Slices

A text can be cut at a byte offset only where a character of its UTF-8 encoding begins or where the
text ends. A slice lies between two such offsets.
-/

namespace Surface.Text

/-- The first `n` bytes and the rest, where `n` is a place to cut. -/
def splitAtByte? : Text → Nat → Option (Text × Text)
  | t, 0 => some ([], t)
  | [], _ + 1 => none
  | c :: t, n + 1 =>
    if c.utf8Size ≤ n + 1 then
      (splitAtByte? t (n + 1 - c.utf8Size)).map fun (front, rest) => (c :: front, rest)
    else none

theorem splitAtByte?_eq_some_iff {t front rest : Text} {n : Nat} :
    splitAtByte? t n = some (front, rest) ↔ t = front ++ rest ∧ front.byteSize = n := by
  fun_induction splitAtByte? t n generalizing front with
  | case1 t =>
    constructor
    · intro h
      simp only [Option.some.injEq, Prod.mk.injEq] at h
      obtain ⟨rfl, rfl⟩ := h
      simp
    · rintro ⟨rfl, h⟩
      have : front = [] := Decidable.byContradiction fun hn => by have := byteSize_pos hn; omega
      simp [this]
  | case2 n =>
    simp only [reduceCtorEq, false_iff]
    rintro ⟨h, hs⟩
    obtain ⟨rfl, -⟩ := List.append_eq_nil_iff.1 h.symm
    simp at hs
  | case3 c t n hc ih =>
    cases front with
    | nil => simp
    | cons d front =>
      have : (splitAtByte? t (n + 1 - c.utf8Size)).map (fun p => (c :: p.1, p.2)) =
          some (d :: front, rest) ↔
          c = d ∧ splitAtByte? t (n + 1 - c.utf8Size) = some (front, rest) := by
        cases splitAtByte? t (n + 1 - c.utf8Size) <;> simp [Prod.ext_iff, and_assoc]
      rw [this, ih]
      simp only [List.cons_append, List.cons.injEq, byteSize_cons]
      constructor
      · rintro ⟨rfl, rfl, h⟩
        exact ⟨⟨rfl, rfl⟩, by omega⟩
      · rintro ⟨⟨rfl, rfl⟩, h⟩
        exact ⟨rfl, rfl, by omega⟩
  | case4 c t n hc =>
    simp only [reduceCtorEq, false_iff]
    rintro ⟨h, hs⟩
    cases front with
    | nil => simp at hs
    | cons d front =>
      simp only [List.cons_append, List.cons.injEq] at h
      obtain ⟨rfl, -⟩ := h
      simp only [byteSize_cons] at hs
      omega

/-- The bytes from one offset up to another, if both are places to cut and in order. -/
def slice? (t : Text) (start stop : Nat) : Option Text := do
  let (_, rest) ← splitAtByte? t start
  let (slice, _) ← splitAtByte? rest (stop - start)
  if start ≤ stop then some slice else none

theorem slice?_eq_some_iff {t s : Text} {start stop : Nat} :
    slice? t start stop = some s ↔
      ∃ before after, t = before ++ s ++ after ∧ before.byteSize = start ∧
        start + s.byteSize = stop := by
  simp only [slice?, Option.bind_eq_bind, Option.bind_eq_some_iff, Prod.exists,
    splitAtByte?_eq_some_iff]
  constructor
  · rintro ⟨before, rest, ⟨rfl, rfl⟩, s', after, ⟨rfl, hs⟩, h⟩
    split at h
    next hle =>
      cases h
      exact ⟨before, after, by simp, rfl, by omega⟩
    next => simp at h
  · rintro ⟨before, after, rfl, rfl, rfl⟩
    exact ⟨before, s ++ after, ⟨by simp, rfl⟩, s, after, ⟨rfl, by simp⟩, by simp⟩

end Surface.Text
