import Surface.Text.Lines

/-! # Lines put together

Lines that neither hold a line feed nor end with a carriage return are got back from the text in
which a line feed ends each of them. A text can be cut off behind any of its lines but the last and
go on with other lines from there.
-/

namespace Surface.Text

def unlines (ls : List Text) : Text := ls.flatMap fun l => l ++ ['\n']

/-- The text can stand as a line of its own. -/
structure IsLine (l : Text) : Prop where
  noLineFeed : '\n' ∉ l
  noReturn : l.getLast? ≠ some '\r'

theorem lines_cons {c : Char} {t : Text} (hc : c ≠ '\n') (ht : c = '\r' → t.head? ≠ some '\n') :
    lines (c :: t) = match lines t with
      | [] => [[c]]
      | l :: ls => (c :: l) :: ls := by
  refine lines.eq_4 c t hc ?_
  rintro u rfl rfl
  exact ht rfl rfl

theorem lines_append {l : Text} (hl : IsLine l) (t : Text) :
    lines (l ++ '\n' :: t) = l :: lines t := by
  induction l with
  | nil => rfl
  | cons c l ih =>
    have hc : c ≠ '\n' := fun h => hl.noLineFeed (h ▸ List.mem_cons_self)
    have hreturn : c = '\r' → (l ++ '\n' :: t).head? ≠ some '\n' := by
      rintro rfl
      cases l with
      | nil => exact absurd rfl hl.noReturn
      | cons d l =>
        intro h
        cases h
        exact hl.noLineFeed (by simp)
    have hrest : IsLine l := by
      refine ⟨fun h => hl.noLineFeed (List.mem_cons_of_mem _ h), fun h => ?_⟩
      have hne : l ≠ [] := by
        rintro rfl
        cases h
      exact hl.noReturn (by rw [List.getLast?_cons_of_ne_nil hne, h])
    rw [List.cons_append, lines_cons hc hreturn, ih hrest]

/-- The first `n` lines, each with its end. -/
def takeLines : Nat → Text → Text
  | 0, _ => []
  | _ + 1, [] => []
  | n + 1, '\n' :: t => '\n' :: takeLines n t
  | n + 1, c :: t => c :: takeLines (n + 1) t

theorem takeLines_cons {c : Char} (hc : c ≠ '\n') (n : Nat) (t : Text) :
    takeLines (n + 1) (c :: t) = c :: takeLines (n + 1) t := takeLines.eq_4 n c t hc

theorem head?_takeLines_append {t : Text} (h : t ≠ []) (n : Nat) (s : Text) :
    (takeLines (n + 1) t ++ s).head? = t.head? := by
  cases t with
  | nil => exact absurd rfl h
  | cons c t =>
    by_cases hc : c = '\n'
    · subst hc
      rfl
    · rw [takeLines_cons hc]
      rfl

/-- In front of its last line a text can be cut off and continued with other lines. -/
theorem lines_takeLines_append {n : Nat} {t : Text} (h : n < (lines t).length) (s : Text) :
    lines (takeLines n t ++ s) = (lines t).take n ++ lines s := by
  induction t generalizing n with
  | nil => cases h
  | cons c t ih =>
    cases n with
    | zero => rfl
    | succ n =>
      by_cases hc : c = '\n'
      · subst hc
        have hlines : lines ('\n' :: t) = [] :: lines t := rfl
        rw [hlines, List.length_cons, Nat.add_lt_add_iff_right] at h
        rw [hlines, List.take_succ_cons, List.cons_append, ← ih h]
        rfl
      · rw [takeLines_cons hc]
        by_cases hend : c = '\r' ∧ t.head? = some '\n'
        · obtain ⟨rfl, hhead⟩ := hend
          obtain ⟨u, rfl⟩ : ∃ u, t = '\n' :: u := ⟨t.tail, by cases t <;> simp_all⟩
          exact ih h
        · have hreturn : c = '\r' → t.head? ≠ some '\n' := fun hr hn => hend ⟨hr, hn⟩
          have hlines := lines_cons hc hreturn
          have hne : t ≠ [] := by
            rintro rfl
            rw [hlines] at h
            simp [lines] at h
          obtain ⟨l, ls, hl⟩ := List.exists_cons_of_ne_nil (mt lines_eq_nil_iff.1 hne)
          simp only [hl] at hlines
          rw [hlines] at h
          have hrest := ih (n := n + 1) (by rwa [hl])
          rw [hl, List.take_succ_cons, List.cons_append] at hrest
          have hwhole := lines_cons (t := takeLines (n + 1) t ++ s) hc
            (by rwa [head?_takeLines_append hne])
          simp only [hrest] at hwhole
          rw [hlines, List.cons_append, hwhole]
          rfl

theorem lines_unlines {ls : List Text} (h : ∀ l ∈ ls, IsLine l) : lines (unlines ls) = ls := by
  induction ls with
  | nil => rfl
  | cons l ls ih =>
    have heq : unlines (l :: ls) = l ++ '\n' :: unlines ls := by simp [unlines]
    rw [heq, lines_append (h l List.mem_cons_self),
      ih fun m hm => h m (List.mem_cons_of_mem _ hm)]

end Surface.Text
