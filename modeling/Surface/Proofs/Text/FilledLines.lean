import Mathlib.Data.List.Basic
import Surface.Text.Lines

/-! # The lines that hold something

Where blank lines only keep parts of a text apart, the text says no more than its other lines do.
The lines of a text that is put together at line feeds are those of its parts. A line is also found
by the characters in front of it, whatever ends it.
-/

namespace Surface.Text

/-- What stands between the line feeds, where anything does. -/
def filledLines (t : Text) : List Text := (t.splitOn '\n').filter (· ≠ [])

/-- How many lines start with a mark. -/
def countMarked (mark t : Text) : Nat := (lines t).countP mark.isPrefixOf

theorem filledLines_append (a b : Text) :
    filledLines (a ++ '\n' :: b) = filledLines a ++ filledLines b := by
  rw [filledLines, List.splitOn_eq_splitOnP, List.splitOnP_append_cons a b (by rfl),
    List.filter_append]
  rfl

@[simp] theorem filledLines_cons (t : Text) : filledLines ('\n' :: t) = filledLines t :=
  filledLines_append [] t

theorem filledLines_of_line {l : Text} (h : '\n' ∉ l) (hne : l ≠ []) : filledLines l = [l] := by
  have hsplit : l.splitOn '\n' = [l] := List.splitOnP_eq_singleton fun c hc => by
    rw [beq_eq_false_iff_ne]
    rintro rfl
    exact h hc
  rw [filledLines, hsplit, List.filter_cons_of_pos (by simpa using hne), List.filter_nil]

theorem filledLines_intercalate (ts : List Text) :
    filledLines (['\n', '\n'].intercalate ts) = ts.flatMap filledLines := by
  induction ts with
  | nil => rfl
  | cons t ts ih =>
    cases ts with
    | nil => simp [List.intercalate]
    | cons u ts =>
      have hsplit : ['\n', '\n'].intercalate (t :: u :: ts) =
          t ++ '\n' :: '\n' :: ['\n', '\n'].intercalate (u :: ts) := by
        rw [List.intercalate_cons_cons, List.append_assoc]
        rfl
      rw [hsplit, filledLines_append, filledLines_cons, ih]
      rfl

/-- Two lists of lines start alike: their first lines do for all marks, and as many of their further
lines do for one mark. -/
structure Alike (mark : Text) (ls ms : List Text) : Prop where
  first : ∀ front : Text, '\r' ∉ front →
    front.isPrefixOf (ls.headD []) = front.isPrefixOf (ms.headD [])
  further : ls.tail.countP mark.isPrefixOf = ms.tail.countP mark.isPrefixOf

variable {mark : Text}

theorem countP_eq_headD_add_tail (hne : mark ≠ []) (ls : List Text) :
    ls.countP mark.isPrefixOf =
      (mark.isPrefixOf (ls.headD [])).toNat + ls.tail.countP mark.isPrefixOf := by
  cases ls with
  | nil =>
    cases mark with
    | nil => exact absurd rfl hne
    | cons c mark => rfl
  | cons l ls =>
    rw [List.countP_cons, Nat.add_comm]
    cases h : mark.isPrefixOf l <;> simp [h]

theorem Alike.countP_eq (hne : mark ≠ []) (hmark : '\r' ∉ mark) {ls ms : List Text}
    (h : Alike mark ls ms) : ls.countP mark.isPrefixOf = ms.countP mark.isPrefixOf := by
  rw [countP_eq_headD_add_tail hne ls, countP_eq_headD_add_tail hne ms, h.first mark hmark,
    h.further]

theorem Alike.cons (hne : mark ≠ []) (hmark : '\r' ∉ mark) {ls ms : List Text}
    (h : Alike mark ls ms) : Alike mark ([] :: ls) ([] :: ms) :=
  ⟨fun _ _ => rfl, h.countP_eq hne hmark⟩

theorem Alike.lengthen {ls ms : List Text} (h : Alike mark ls ms) (c : Char) :
    Alike mark ((c :: ls.headD []) :: ls.tail) ((c :: ms.headD []) :: ms.tail) := by
  refine ⟨fun front hfront => ?_, h.further⟩
  cases front with
  | nil => rfl
  | cons x front =>
    have hrest := h.first front fun hmem => hfront (List.mem_cons_of_mem x hmem)
    rw [List.headD_cons, List.headD_cons, List.isPrefixOf, List.isPrefixOf, hrest]

theorem splitOn_cons {c : Char} (hc : c ≠ '\n') (t : Text) :
    (c :: t).splitOn '\n' = (c :: (t.splitOn '\n').headD []) :: (t.splitOn '\n').tail := by
  rw [List.splitOn_cons_eq_if_modifyHead, if_neg (by simpa using hc)]
  cases h : t.splitOn '\n' with
  | nil => exact absurd h (List.splitOn_ne_nil _ _)
  | cons l ls => rfl

/-- Whether a carriage return belongs to the end of a line makes no difference to a mark without
one. -/
theorem alike_splitOn (hne : mark ≠ []) (hmark : '\r' ∉ mark) (t : Text) :
    Alike mark (t.splitOn '\n') (lines t) := by
  fun_induction lines t with
  | case1 => exact ⟨fun _ _ => rfl, rfl⟩
  | case2 t ih =>
    rw [List.splitOn_cons_eq_if_modifyHead, if_pos (by rfl)]
    exact ih.cons hne hmark
  | case3 t ih =>
    rw [splitOn_cons (by decide), List.splitOn_cons_eq_if_modifyHead, if_pos (by rfl)]
    refine ⟨fun front hfront => ?_, ih.countP_eq hne hmark⟩
    cases front with
    | nil => rfl
    | cons x front =>
      have hx : x ≠ '\r' := fun h => hfront (h ▸ List.mem_cons_self)
      simp [List.isPrefixOf, hx]
  | case4 c t hc _ hlines ih =>
    rw [splitOn_cons hc]
    rw [hlines] at ih
    exact ih.lengthen c
  | case5 c t hc _ l ls hlines ih =>
    rw [splitOn_cons hc]
    rw [hlines] at ih
    exact ih.lengthen c

theorem countMarked_eq (hne : mark ≠ []) (hmark : '\r' ∉ mark) (t : Text) :
    countMarked mark t = (filledLines t).countP mark.isPrefixOf := by
  rw [countMarked, ← (alike_splitOn hne hmark t).countP_eq hne hmark, filledLines,
    List.countP_filter]
  refine List.countP_congr fun l _ => ?_
  cases mark with
  | nil => exact absurd rfl hne
  | cons c mark => cases l <;> simp

end Surface.Text
