import Mathlib.Data.List.Basic
import Surface.Text.Hexadecimal

/-! # What readers take

A reader takes a text if it reads it off the front of whatever follows. Readers one after another
take texts one after another, and a run of characters is taken as far as it goes.
-/

namespace Surface.Reader

variable {α β : Type} {a : α} {b : β} {w w' rest : Text}

/-- The reader takes the text and leaves the rest. -/
def Takes (r : Reader α) (w : Text) (a : α) (rest : Text) : Prop := r (w ++ rest) = some (a, rest)

theorem bind_apply (r : Reader α) (f : α → Reader β) (t : Text) :
    (r >>= f) t = (r t).bind fun p => f p.1 p.2 := rfl

theorem Takes.bind {r : Reader α} {f : α → Reader β} (hr : r.Takes w a (w' ++ rest))
    (hf : (f a).Takes w' b rest) : (r >>= f).Takes (w ++ w') b rest := by
  unfold Takes at *
  rw [bind_apply, List.append_assoc, hr]
  exact hf

theorem bind_eq_none {r : Reader α} {t : Text} (h : r t = none) (f : α → Reader β) :
    (r >>= f) t = none := by
  rw [bind_apply, h]
  rfl

/-- The second reader takes nothing. -/
theorem Takes.bind_nil {r : Reader α} {f : α → Reader β} (hr : r.Takes w a rest)
    (hf : (f a).Takes [] b rest) : (r >>= f).Takes w b rest := by
  unfold Takes at *
  rw [bind_apply, hr]
  exact hf

theorem takes_pure (a : α) (rest : Text) : (pure a : Reader α).Takes [] a rest := rfl

theorem Takes.seqRight {r : Reader α} {s : Reader β} (hr : r.Takes w a (w' ++ rest))
    (hs : s.Takes w' b rest) : (r *> s).Takes (w ++ w') b rest := hr.bind hs

theorem Takes.seqLeft {r : Reader α} {s : Reader β} (hr : r.Takes w a (w' ++ rest))
    (hs : s.Takes w' b rest) : (r <* s).Takes (w ++ w') a rest :=
  hr.bind (hs.bind_nil (takes_pure a rest))

theorem Takes.map {r : Reader α} (hr : r.Takes w a rest) (f : α → β) :
    (f <$> r).Takes w (f a) rest := by
  unfold Takes at *
  change (r (w ++ rest)).bind _ = _
  rw [hr]
  rfl

theorem map_eq_none {r : Reader α} {t : Text} (h : r t = none) (f : α → β) :
    (f <$> r) t = none := by
  change (r t).bind _ = _
  rw [h]
  rfl

theorem seqRight_eq_none {r : Reader α} {t : Text} (h : r t = none) (s : Reader β) :
    (r *> s) t = none := bind_eq_none h _

theorem seqLeft_eq_none {r : Reader α} {t : Text} (h : r t = none) (s : Reader β) :
    (r <* s) t = none := bind_eq_none h _

theorem orElse_apply (r s : Reader α) (t : Text) : (r <|> s) t = (r t).or (s t) := by
  change ((r t).orElse fun _ => s t) = _
  cases r t <;> rfl

theorem Takes.orElse {r : Reader α} (hr : r.Takes w a rest) (s : Reader α) :
    (r <|> s).Takes w a rest := by
  unfold Takes at *
  rw [orElse_apply, hr]
  rfl

theorem Takes.orElse_of_none {r s : Reader α} (hs : s.Takes w a rest)
    (hr : r (w ++ rest) = none) : (r <|> s).Takes w a rest := by
  unfold Takes at *
  rw [orElse_apply, hr, Option.none_or]
  exact hs

theorem readAll_of_takes {r : Reader α} (h : r.Takes w a []) : readAll r w = some a := by
  have hend : (r <* endOfText).Takes w a [] := h.bind_nil rfl
  unfold Takes at hend
  rw [List.append_nil] at hend
  rw [readAll, hend]
  rfl

theorem takes_satisfy {p : Char → Bool} {c : Char} (h : p c = true) (rest : Text) :
    (satisfy p).Takes [c] c rest := if_pos h

theorem takes_char (c : Char) (rest : Text) : (char c).Takes [c] c rest := takes_satisfy (by simp) _

theorem takes_next (c : Char) (rest : Text) : next.Takes [c] c rest := takes_satisfy rfl _

theorem char_eq_none {c : Char} {t : Text} (h : t.head? ≠ some c) : char c t = none := by
  cases t with
  | nil => rfl
  | cons x t =>
    have hx : x ≠ c := fun hx => h (congrArg some hx)
    rw [char, satisfy, if_neg (by simpa using hx)]

theorem takes_literal (w rest : Text) : (literal w).Takes w w rest := by
  unfold Takes literal
  rw [if_pos (List.isPrefixOf_iff_prefix.2 (List.prefix_append w rest)), List.drop_left]

/-- No character of the property stands in front. -/
def StopsAt (p : Char → Bool) (rest : Text) : Prop := ∀ c, rest.head? = some c → p c = false

theorem stopsAt_cons {p : Char → Bool} {c : Char} {t : Text} :
    StopsAt p (c :: t) ↔ p c = false := by
  simp [StopsAt]

theorem StopsAt.takeWhile_eq_nil {p : Char → Bool} (h : StopsAt p rest) :
    rest.takeWhile p = [] := by
  cases rest with
  | nil => rfl
  | cons c t => rw [List.takeWhile_cons, stopsAt_cons.1 h, if_neg Bool.false_ne_true]

theorem takes_takeWhile {p : Char → Bool} (hw : ∀ c ∈ w, p c = true) (hrest : StopsAt p rest) :
    (takeWhile p).Takes w w rest := by
  have hdrop : rest.dropWhile p = rest := by
    have happend := List.takeWhile_append_dropWhile (p := p) (l := rest)
    rwa [hrest.takeWhile_eq_nil] at happend
  unfold Takes takeWhile
  rw [List.takeWhile_append_of_pos hw, List.dropWhile_append_of_pos hw, hrest.takeWhile_eq_nil,
    hdrop, List.append_nil]

theorem takes_takeWhile1 {p : Char → Bool} (hw : ∀ c ∈ w, p c = true) (hne : w ≠ [])
    (hrest : StopsAt p rest) : (takeWhile1 p).Takes w w rest := by
  refine (takes_takeWhile hw hrest).bind_nil ?_
  rw [if_neg hne]
  exact takes_pure w rest

theorem takeWhile1_eq_none {p : Char → Bool} (h : StopsAt p rest) : takeWhile1 p rest = none := by
  change (if rest.takeWhile p = [] then failure else _ : Reader Text) _ = none
  rw [if_pos h.takeWhile_eq_nil]
  rfl

theorem takes_many_nil {r : Reader α} (h : r rest = none) : Takes (many r) [] [] rest := by
  unfold Takes
  rw [List.nil_append, many, h]

theorem Takes.many_cons {r : Reader α} {as : List α} (hr : r.Takes w a (w' ++ rest)) (hw : w ≠ [])
    (has : Takes (many r) w' as rest) : Takes (many r) (w ++ w') (a :: as) rest := by
  unfold Takes at *
  have hlength : (w' ++ rest).length < (w ++ (w' ++ rest)).length := by
    have hpos := List.length_pos_of_ne_nil hw
    simp only [List.length_append]
    omega
  rw [many, List.append_assoc, hr]
  simp only [if_pos hlength, has, Option.map_some]

theorem takes_hexNumberFrom {digits : Text} {ds : List Nat}
    (h : List.Forall₂ (fun c d => Text.hexDigit? c = some d) digits ds) (n : Nat) (rest : Text) :
    (hexNumberFrom n digits.length).Takes digits (ds.foldl (fun n d => 16 * n + d) n) rest := by
  induction h generalizing n with
  | nil => exact takes_pure n rest
  | @cons c d digits ds hd _ ih =>
    refine (takes_next c _).bind ?_
    rw [hd]
    exact ih (16 * n + d)

end Surface.Reader
