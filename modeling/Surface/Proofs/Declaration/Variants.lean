import Surface.Proofs.Declaration.Surroundings

/-! # Variants of a declaration

A variant of a declaration has modifiers put in front of it and an initializer put behind it. It
declares what the declaration itself declares, and it is shown in the same way.
-/

namespace Surface.Declaration

open Text

/-- Nothing, or a gap and the word `=` with whatever follows it. -/
inductive IsInitializer : Text → Prop
  | nothing : IsInitializer []
  | value {gap rest : Text} : gap ≠ [] → IsBlanks gap → BlankAhead rest →
      IsInitializer (gap ++ '=' :: rest)

def IsVariant (b t : Text) : Prop :=
  ∃ run initializer, ModifierRun run ∧ IsInitializer initializer ∧ t = run ++ b ++ initializer

variable {run more g b t : Text}

theorem ModifierRun.append (h : ModifierRun run) (h' : ModifierRun more) :
    ModifierRun (run ++ more) := by
  induction h with
  | nil => exact h'
  | cons hm hne hgap _ ih =>
    rw [List.append_assoc]
    exact .cons hm hne hgap ih

theorem ModifierRun.append_blanks (h : ModifierRun run) (hne : run ≠ []) (hg : IsBlanks g) :
    ModifierRun (run ++ g) := by
  obtain ⟨front, m, gap, hfront, hm, hgapne, hgap, rfl⟩ := h.exists_last hne
  have hlast : ModifierRun (m ++ (gap ++ g) ++ []) :=
    .cons hm (by simp [hgapne]) (isBlanks_append.2 ⟨hgap, hg⟩) .nil
  have heq : front ++ (m ++ gap) ++ g = front ++ (m ++ (gap ++ g) ++ []) := by simp
  rw [heq]
  exact hfront.append hlast

/-- Modifiers in front of a declaration change nothing, as long as it has a word of its own. The
blanks in front of it belong to the gap behind the last modifier then. -/
theorem declarator_modifiers (hrun : ModifierRun run) (hb : ¬ OnlyModifiers b) :
    declarator (run ++ b) = declarator b ∧ ¬ OnlyModifiers (run ++ b) := by
  by_cases hne : run = []
  · rw [hne, List.nil_append]
    exact ⟨rfl, hb⟩
  · obtain ⟨before, own, t, hbefore, hown, rfl, ht, htne, hm⟩ := exists_declaration hb
    have hruns : ModifierRun (run ++ before ++ own) := (hrun.append_blanks hne hbefore).append hown
    have hnone : IsBlanks [] := fun c hc => by cases hc
    have heq : run ++ (before ++ own ++ t) = [] ++ (run ++ before ++ own) ++ t := by simp
    rw [heq]
    refine ⟨?_, not_onlyModifiers hnone hruns ht htne hm⟩
    rw [declarator_run_eq hnone hruns ht htne, declarator_run_eq hbefore hown ht htne]

theorem IsVariant.declarator_eq (h : IsVariant b t) (hb : ¬ OnlyModifiers b) :
    declarator t = declarator b := by
  obtain ⟨run, initializer, hrun, hinitializer, rfl⟩ := h
  obtain ⟨hmodifiers, honly⟩ := declarator_modifiers hrun hb
  cases hinitializer with
  | nothing => rw [List.append_nil, hmodifiers]
  | value hne hgap hrest =>
    rw [← List.append_assoc, declarator_initializer honly hne hgap hrest, hmodifiers]

/-- A variant is classified like the declaration. -/
theorem IsVariant.classify_eq {policy : DisplayPolicy} {c : Classification} (h : IsVariant b t)
    (hb : classify policy b = .ok c) : classify policy t = .ok c := by
  have honly : ¬ OnlyModifiers b := fun h => classify_onlyModifiers policy h c hb
  rw [classify_eq_ok_iff] at hb ⊢
  rw [h.declarator_eq honly, hb]

end Surface.Declaration
