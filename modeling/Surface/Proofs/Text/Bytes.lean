import Mathlib.Tactic.SplitIfs
import Surface.Text.Basic

/-! # The order of the bytes

Texts are compared by code point. Their UTF-8 encodings, compared byte by byte, are in the same
order, and so are lists of texts compared text by text.
-/

namespace Surface

theorem compare_append_left {α : Type} [Ord α] [Std.ReflOrd α] (front s t : List α) :
    compare (front ++ s) (front ++ t) = compare s t := by
  induction front with
  | nil => rfl
  | cons a front ih =>
    rw [List.cons_append, List.cons_append, List.compare_cons_cons, Std.ReflOrd.compare_self, ih]
    rfl

namespace Text

/-- The UTF-8 encoding. -/
def bytes (t : Text) : List UInt8 := t.flatMap String.utf8EncodeChar

theorem compare_byte {a b : Nat} (ha : a < 256) (hb : b < 256) :
    compare (UInt8.ofNat a) (UInt8.ofNat b) = compare a b := by
  have hlt : UInt8.ofNat a < UInt8.ofNat b ↔ a < b := UInt8.ofNat_lt_iff_lt ha hb
  have hgt : UInt8.ofNat b < UInt8.ofNat a ↔ b < a := UInt8.ofNat_lt_iff_lt hb ha
  rcases Nat.lt_trichotomy a b with h | rfl | h
  · rw [Nat.compare_eq_lt.2 h, Std.compare_eq_lt, hlt]
    exact h
  · rw [Std.ReflOrd.compare_self, Std.ReflOrd.compare_self]
  · rw [Nat.compare_eq_gt.2 h, Std.compare_eq_gt, hgt]
    exact h

/-- The encoding of a smaller code point is smaller, whatever follows. Encodings of different
lengths differ in the first byte, and the bytes behind it are digits to the base 64. -/
theorem compare_utf8EncodeChar_append {c d : Char} (h : c.toNat < d.toNat) (s t : List UInt8) :
    compare (String.utf8EncodeChar c ++ s) (String.utf8EncodeChar d ++ t) = .lt := by
  have hd : d.toNat < 1114112 := by
    rcases d.valid with h | ⟨-, h⟩ <;> simp only [Char.toNat] <;> omega
  unfold String.utf8EncodeChar
  simp only [Char.toNat] at h hd
  generalize c.val.toNat = v at *
  generalize d.val.toNat = w at *
  have hones : v / 64 < w / 64 ∨ v / 64 = w / 64 ∧ v % 64 < w % 64 := by omega
  have htens : v / 64 < w / 64 → v / 4096 < w / 4096 ∨
      v / 4096 = w / 4096 ∧ v / 64 % 64 < w / 64 % 64 := by omega
  have hhundreds : v / 4096 < w / 4096 → v / 262144 < w / 262144 ∨
      v / 262144 = w / 262144 ∧ v / 4096 % 64 < w / 4096 % 64 := by omega
  have hv : v / 262144 % 8 = v / 262144 := Nat.mod_eq_of_lt (by omega)
  have hw : w / 262144 % 8 = w / 262144 := Nat.mod_eq_of_lt (by omega)
  dsimp only
  split_ifs <;>
    simp (disch := omega) only [List.cons_append, List.compare_cons_cons, Ordering.then_eq_lt,
      compare_byte, Nat.compare_eq_lt, Nat.compare_eq_eq] <;>
    omega

theorem toNat_lt_of_compare {c d : Char} (h : compare c d = .lt) : c.toNat < d.toNat := by
  have hlt : c < d := compareOfLessAndEq_eq_lt.1 h
  exact UInt32.lt_iff_toNat_lt.1 hlt

theorem bytes_cons (c : Char) (t : Text) : bytes (c :: t) = String.utf8EncodeChar c ++ bytes t :=
  List.flatMap_cons

theorem bytes_ne_nil (c : Char) (t : Text) : bytes (c :: t) ≠ [] := by
  rw [bytes_cons]
  exact List.append_ne_nil_of_left_ne_nil String.utf8EncodeChar_ne_nil _

/-- The order of texts is that of their encodings. -/
theorem compare_bytes (s t : Text) : compare s.bytes t.bytes = compare s t := by
  induction s generalizing t with
  | nil =>
    cases t with
    | nil => rfl
    | cons d t =>
      obtain ⟨b, bs, hb⟩ := List.exists_cons_of_ne_nil (bytes_ne_nil d t)
      rw [hb]
      rfl
  | cons c s ih =>
    cases t with
    | nil =>
      obtain ⟨b, bs, hb⟩ := List.exists_cons_of_ne_nil (bytes_ne_nil c s)
      rw [hb]
      rfl
    | cons d t =>
      rw [List.compare_cons_cons, bytes_cons, bytes_cons]
      cases hcd : compare c d with
      | lt => exact compare_utf8EncodeChar_append (toNat_lt_of_compare hcd) _ _
      | eq =>
        cases Std.LawfulEqOrd.eq_of_compare hcd
        rw [compare_append_left, ih]
        rfl
      | gt =>
        have hdc := toNat_lt_of_compare (Std.OrientedCmp.lt_of_gt hcd)
        exact Std.OrientedCmp.gt_of_lt (compare_utf8EncodeChar_append hdc _ _)

theorem compare_map_bytes (l l' : List Text) :
    compare (l.map bytes) (l'.map bytes) = compare l l' := by
  induction l generalizing l' with
  | nil => cases l' <;> rfl
  | cons s l ih =>
    cases l' with
    | nil => rfl
    | cons t l' =>
      rw [List.map_cons, List.map_cons, List.compare_cons_cons, List.compare_cons_cons,
        compare_bytes, ih]

end Text
end Surface
