/-! # Texts

A text is a list of Unicode scalar values. Its size is counted in UTF-8 bytes, and a cut behind
the last occurrence of a character loses nothing. Lists of characters are ordered by code point,
which for texts is also the order of their UTF-8 encodings.
-/

namespace Surface

abbrev Text := List Char

instance : Coe String Text := ⟨String.toList⟩

namespace Text

def byteSize : Text → Nat
  | [] => 0
  | c :: t => c.utf8Size + byteSize t

@[simp] theorem byteSize_nil : byteSize [] = 0 := rfl

@[simp] theorem byteSize_cons (c : Char) (t : Text) :
    byteSize (c :: t) = c.utf8Size + byteSize t := rfl

@[simp] theorem byteSize_append (s t : Text) : byteSize (s ++ t) = byteSize s + byteSize t := by
  induction s with
  | nil => simp
  | cons c s ih => simp [ih, Nat.add_assoc]

theorem byteSize_pos {t : Text} (h : t ≠ []) : 0 < byteSize t := by
  cases t with
  | nil => exact absurd rfl h
  | cons c t => have := c.utf8Size_pos; simp; omega

def decimal (n : Nat) : Text := Nat.toDigits 10 n

/-- The text through the last `c`, and what follows it. -/
def splitAfterLast? (c : Char) : Text → Option (Text × Text)
  | [] => none
  | x :: t =>
    match splitAfterLast? c t with
    | some (upTo, rest) => some (x :: upTo, rest)
    | none => if x = c then some ([c], t) else none

theorem splitAfterLast?_eq_none_iff {c : Char} {t : Text} :
    splitAfterLast? c t = none ↔ c ∉ t := by
  induction t with
  | nil => simp [splitAfterLast?]
  | cons x t ih =>
    simp only [splitAfterLast?]
    split
    next h => simp [h] at ih; simp [ih]
    next h => grind

theorem splitAfterLast?_eq_some {c : Char} {t upTo rest : Text}
    (h : splitAfterLast? c t = some (upTo, rest)) :
    t = upTo ++ rest ∧ upTo.getLast? = some c ∧ c ∉ rest := by
  induction t generalizing upTo with
  | nil => simp [splitAfterLast?] at h
  | cons x t ih =>
    simp only [splitAfterLast?] at h
    split at h
    next u r hs =>
      simp only [Option.some.injEq, Prod.mk.injEq] at h
      obtain ⟨rfl, rfl⟩ := h
      obtain ⟨ht, hl, hn⟩ := ih hs
      refine ⟨by simp [ht], ?_, hn⟩
      cases u with
      | nil => simp at hl
      | cons => simpa using hl
    next hs =>
      split at h
      next hx =>
        simp only [Option.some.injEq, Prod.mk.injEq] at h
        obtain ⟨rfl, rfl⟩ := h
        exact ⟨by simp [hx], by simp, splitAfterLast?_eq_none_iff.1 hs⟩
      next => simp at h

theorem splitAfterLast?_append {c : Char} {rest : Text} (front : Text) (h : c ∉ rest) :
    splitAfterLast? c (front ++ c :: rest) = some (front ++ [c], rest) := by
  induction front with
  | nil => simp [splitAfterLast?, splitAfterLast?_eq_none_iff.2 h]
  | cons x front ih => simp [splitAfterLast?, ih]

/-- What follows the last `c`, or the whole text when it has none. -/
def afterLast (c : Char) (t : Text) : Text :=
  match splitAfterLast? c t with
  | some (_, rest) => rest
  | none => t

theorem afterLast_suffix (c : Char) (t : Text) : afterLast c t <:+ t := by
  unfold afterLast
  split
  next u r h => exact ⟨u, (splitAfterLast?_eq_some h).1.symm⟩
  next => exact List.suffix_refl t

theorem notMem_afterLast (c : Char) (t : Text) : c ∉ afterLast c t := by
  unfold afterLast
  split
  next u r h => exact (splitAfterLast?_eq_some h).2.2
  next h => exact splitAfterLast?_eq_none_iff.1 h

theorem afterLast_of_notMem {c : Char} {t : Text} (h : c ∉ t) : afterLast c t = t := by
  rw [afterLast, splitAfterLast?_eq_none_iff.2 h]

end Text
end Surface
