import Surface.Proofs.Declaration.Offsets

/-! # The loop that strips modifiers

Stripping takes off the blanks in front of a text and the longest run of modifiers behind them. What
is left is determined by that, so it has nothing more to strip. The loop that does it by offsets
takes off one modifier and the gap behind it in each pass, and comes to an end on every text.
-/

namespace Surface.Offsets

open Text Declaration

/-- One pass: what the loop goes on with, if it does not end. -/
def pass (t : Text) : Except Fault (Option Text) := do
  let some n := find? isBlank t | return none
  if modifiers.contains (← slice t 0 n) then return some (trimStart (← sliceFrom t n))
  else return none

/-- Begun with `t`, the loop ends with `r` in its `n`th pass. -/
inductive Ends : Text → Nat → Text → Prop
  | done {t : Text} : pass t = .ok none → Ends t 1 t
  | again {t rest r : Text} {n : Nat} : pass t = .ok (some rest) → Ends rest n r → Ends t (n + 1) r

/-- Every pass but the last leaves a shorter text. -/
theorem exists_ends {t r : Text} (h : dropModifiers t = .ok r) :
    ∃ n ≤ t.length + 1, Ends t n r := by
  fun_induction dropModifiers t with
  | case1 t hfind =>
    cases h
    refine ⟨1, Nat.le_add_left 1 _, .done ?_⟩
    rw [pass, hfind]
    rfl
  | case2 => cases h
  | case3 => cases h
  | case4 t n hfind word hword hmem behind hbehind ih =>
    obtain ⟨passes, hle, hends⟩ := ih h
    have hshort := length_lt_of_slices hword (ne_nil_of_mem_modifiers hmem) hbehind
    have htrim := (trimStart_suffix behind).length_le
    refine ⟨passes + 1, by omega, .again ?_ hends⟩
    simp only [pass, hfind, hword, hbehind, ok_bind, List.contains_iff_mem, if_pos hmem]
    rfl
  | case5 t n hfind word hword hmem =>
    cases h
    refine ⟨1, Nat.le_add_left 1 _, .done ?_⟩
    simp only [pass, hfind, hword, ok_bind, List.contains_iff_mem, if_neg hmem]
    rfl

end Surface.Offsets

namespace Surface.Declaration

open Text

/-- Behind blanks, `r` is what a longest run of modifiers leaves of `t`. -/
def Remains (t r : Text) : Prop := ∃ blanks s, IsBlanks blanks ∧ t = blanks ++ s ∧ Strips s r

theorem remains_iff {t r : Text} : Remains t r ↔ r = stripModifiers t := by
  constructor
  · rintro ⟨blanks, s, hblanks, rfl, hs⟩
    obtain ⟨run, hrun, rfl⟩ := hs.run
    rw [stripModifiers_blanks hblanks]
    exact (strips_iff (hrun.solidAhead_append hs.solidAhead)).1 hs
  · rintro rfl
    obtain ⟨blanks, hblanks, ht⟩ := exists_blanks_trimStart t
    refine ⟨blanks, trimStart t, hblanks, ht, (strips_iff (solidAhead_trimStart t)).2 ?_⟩
    rw [← stripModifiers_blanks hblanks (trimStart t), ← ht]

theorem stripModifiers_stripModifiers (t : Text) :
    stripModifiers (stripModifiers t) = stripModifiers t := by
  obtain ⟨_, _, _, _, hs⟩ : Remains t (stripModifiers t) := remains_iff.2 rfl
  exact stripModifiers_of_noModifier hs.solidAhead hs.noModifier

/-- The loop ends on every text, and with the only text that is behind blanks and a run of modifiers
and begins neither with a blank nor with a further modifier. -/
theorem stripModifiers_exact (t : Text) :
    Offsets.stripModifiers t = .ok (stripModifiers t) ∧
    (∃ n ≤ t.length + 1, Offsets.Ends (trimStart t) n (stripModifiers t)) ∧
    (∀ r, Remains t r ↔ r = stripModifiers t) ∧
    stripModifiers (stripModifiers t) = stripModifiers t ∧
    ∀ m ∈ modifiers, ∀ gap, gap ≠ [] → IsBlanks gap →
      stripModifiers (m ++ gap ++ t) = stripModifiers t := by
  have hloop := Offsets.stripModifiers_eq t
  obtain ⟨n, hn, hends⟩ := Offsets.exists_ends hloop
  have hle := (trimStart_suffix t).length_le
  refine ⟨hloop, ⟨n, by omega, hends⟩, fun r => remains_iff, stripModifiers_stripModifiers t, ?_⟩
  intro m hm gap hne hgap
  exact stripModifiers_modifier hm hne hgap t

/-- A modifier at the end of the text has no blank behind it and stays. -/
theorem stripModifiers_exact_static :
    "public".toList ∈ modifiers ∧ ['\u2003', '\t'] ≠ [] ∧ IsBlanks ['\u2003', '\t'] ∧
      stripModifiers ("public".toList ++ ['\u2003', '\t'] ++ "native static".toList) =
        "static".toList := by
  have hmem : "public".toList ∈ modifiers := by decide
  have hgap : IsBlanks ['\u2003', '\t'] := by decide
  have hstrip := (stripModifiers_exact "native static".toList).2.2.2.2 _ hmem _ (by simp) hgap
  have hstatic : stripModifiers "native static".toList = "static".toList := by decide
  exact ⟨hmem, by simp, hgap, hstrip.trans hstatic⟩

end Surface.Declaration
