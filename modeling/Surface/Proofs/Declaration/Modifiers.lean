import Surface.Declaration.Declarator
import Surface.Proofs.Text.Cuts

/-! # Runs of modifiers

A run of modifiers is made of modifiers with a gap behind each. What is left of a text without its
leading modifiers is determined by that: behind a run stands a text that neither starts with a blank
nor with a further modifier.
-/

namespace Surface.Declaration

open Text

inductive ModifierRun : Text → Prop
  | nil : ModifierRun []
  | cons {m gap rest : Text} : m ∈ modifiers → gap ≠ [] → IsBlanks gap → ModifierRun rest →
      ModifierRun (m ++ gap ++ rest)

/-- A modifier with a blank behind it stands in front. -/
def StartsWithModifier (t : Text) : Prop :=
  ∃ m ∈ modifiers, ∃ c rest, isBlank c = true ∧ t = m ++ c :: rest

/-- `r` is what a longest run of modifiers leaves of `t`. -/
structure Strips (t r : Text) : Prop where
  run : ∃ run, ModifierRun run ∧ t = run ++ r
  solidAhead : SolidAhead r
  noModifier : ¬ StartsWithModifier r

theorem isSolid_of_mem_modifiers {m : Text} (h : m ∈ modifiers) : IsSolid m := by
  have hall : ∀ m ∈ modifiers, IsSolid m := by decide
  exact hall m h

theorem ne_nil_of_mem_modifiers {m : Text} (h : m ∈ modifiers) : m ≠ [] := by
  have hall : ∀ m ∈ modifiers, m ≠ [] := by decide
  exact hall m h

theorem startsWithModifier_iff {t : Text} :
    StartsWithModifier t ↔ leadingWord t ∈ modifiers ∧ afterLeadingWord t ≠ [] := by
  constructor
  · rintro ⟨m, hm, c, rest, hc, rfl⟩
    have hsolid := isSolid_of_mem_modifiers hm
    have hahead : BlankAhead (c :: rest) := by
      intro x hx
      cases hx
      exact hc
    rw [leadingWord_append hsolid hahead, afterLeadingWord_append hsolid hahead]
    exact ⟨hm, List.cons_ne_nil c rest⟩
  · intro ⟨hm, hne⟩
    obtain ⟨c, rest, hrest⟩ := List.exists_cons_of_ne_nil hne
    have hblank := blankAhead_afterLeadingWord t
    rw [hrest] at hblank
    refine ⟨leadingWord t, hm, c, rest, hblank c rfl, ?_⟩
    rw [← hrest, leadingWord_append_afterLeadingWord]

theorem ModifierRun.solidAhead_append {run t : Text} (h : ModifierRun run) (ht : SolidAhead t) :
    SolidAhead (run ++ t) := by
  cases h with
  | nil => exact ht
  | @cons m gap rest hm _ _ _ =>
    rw [List.append_assoc, List.append_assoc]
    exact (isSolid_of_mem_modifiers hm).ahead.append (ne_nil_of_mem_modifiers hm)

/-- A run that is not empty ends with a modifier and the gap behind it. -/
theorem ModifierRun.exists_last {run : Text} (h : ModifierRun run) (hne : run ≠ []) :
    ∃ front m gap, ModifierRun front ∧ m ∈ modifiers ∧ gap ≠ [] ∧ IsBlanks gap ∧
      run = front ++ (m ++ gap) := by
  induction h with
  | nil => exact absurd rfl hne
  | @cons m gap rest hm hgapne hgap hrest ih =>
    by_cases hnil : rest = []
    · exact ⟨[], m, gap, .nil, hm, hgapne, hgap, by simp [hnil]⟩
    · obtain ⟨front, m', gap', hfront, hm', hne', hgap', heq⟩ := ih hnil
      exact ⟨m ++ gap ++ front, m', gap', .cons hm hgapne hgap hfront, hm', hne', hgap',
        by simp [heq]⟩

theorem stripModifiers_blanks {g : Text} (hg : IsBlanks g) (t : Text) :
    stripModifiers (g ++ t) = stripModifiers t := by
  rw [stripModifiers, trimStart_append hg, stripModifiers]

theorem stripModifiers_modifier {m gap : Text} (hm : m ∈ modifiers) (hne : gap ≠ [])
    (hgap : IsBlanks gap) (t : Text) :
    stripModifiers (m ++ gap ++ t) = stripModifiers t := by
  obtain ⟨g, hg, ht⟩ := exists_blanks_trimStart t
  have hsolid := isSolid_of_mem_modifiers hm
  have hmne := ne_nil_of_mem_modifiers hm
  have hstart : SolidAhead (m ++ (gap ++ g) ++ trimStart t) := by
    rw [List.append_assoc]
    exact hsolid.ahead.append hmne
  have hpieces : pieces (m ++ (gap ++ g) ++ trimStart t) =
      m :: (gap ++ g) :: pieces (trimStart t) := by
    rw [pieces_gap hsolid.behind (isBlanks_append.2 ⟨hgap, hg⟩) (by simp [hne])
      (solidAhead_trimStart t), pieces_of_uniform hmne hsolid]
    rfl
  have hwhole : m ++ gap ++ t = m ++ (gap ++ g) ++ trimStart t := by
    simp only [List.append_assoc, ← ht]
  rw [hwhole, stripModifiers, trimStart_of_solidAhead hstart, hpieces, dropModifiers, if_pos hm,
    stripModifiers]

theorem stripModifiers_of_noModifier {t : Text} (hs : SolidAhead t)
    (hm : ¬ StartsWithModifier t) : stripModifiers t = t := by
  rw [stripModifiers, trimStart_of_solidAhead hs]
  have halt := alternating_pieces t
  have hflat := flatten_pieces t
  rcases hps : pieces t with _ | ⟨p, _ | ⟨q, ps⟩⟩ <;> rw [hps] at halt hflat
  · exact hflat
  · exact hflat
  · rw [dropModifiers]
    split
    next hp =>
      have hgap : isGap p = false := by
        cases halt with
        | cons => exact isSolid_of_mem_modifiers hp _ List.mem_cons_self
      have hturn := halt.head?_isGap
      rw [hgap] at hturn
      cases halt with
      | cons _ _ rest =>
        cases rest with
        | @cons d q _ _ _ _ =>
          exact absurd ⟨_, hp, d, q ++ ps.flatten, hturn, by rw [← hflat]; simp⟩ hm
    next => exact hflat

theorem ModifierRun.stripModifiers {run : Text} (h : ModifierRun run) (t : Text) :
    stripModifiers (run ++ t) = Declaration.stripModifiers t := by
  induction h with
  | nil => rfl
  | cons hm hne hgap _ ih =>
    rw [List.append_assoc, stripModifiers_modifier hm hne hgap, ih]

/-- A text is a run of modifiers, perhaps behind blanks, and what stripping leaves of it. -/
theorem exists_run_stripModifiers (t : Text) :
    ∃ g, IsBlanks g ∧ ∃ run, ModifierRun run ∧ t = g ++ run ++ stripModifiers t ∧
      SolidAhead (stripModifiers t) ∧ ¬ StartsWithModifier (stripModifiers t) := by
  obtain ⟨g, hg, ht⟩ := exists_blanks_trimStart t
  refine ⟨g, hg, ?_⟩
  by_cases h : StartsWithModifier (trimStart t)
  · obtain ⟨m, hm, c, s, hc, hs⟩ := h
    have hblank : IsBlanks [c] := fun x hx => by rwa [List.mem_singleton.1 hx]
    have hshort : s.length < t.length := by
      have := congrArg List.length ht
      rw [hs] at this
      simp only [List.length_append, List.length_cons] at this
      omega
    have hstrip : stripModifiers t = stripModifiers s := by
      have hcons : t = g ++ (m ++ [c] ++ s) := by rw [ht, hs]; simp
      rw [hcons, stripModifiers_blanks hg, stripModifiers_modifier hm (by simp) hblank]
    obtain ⟨g', hg', run, hrun, heq, hsolid, hno⟩ := exists_run_stripModifiers s
    rw [hstrip]
    refine ⟨m ++ (c :: g') ++ run, .cons hm (by simp) ?_ hrun, ?_, hsolid, hno⟩
    · exact (@isBlanks_append [c] g').2 ⟨hblank, hg'⟩
    · calc t = g ++ (m ++ c :: s) := by rw [← hs]; exact ht
        _ = g ++ (m ++ c :: (g' ++ run ++ stripModifiers s)) := by rw [← heq]
        _ = g ++ (m ++ (c :: g') ++ run) ++ stripModifiers s := by simp
  · have hsolid := solidAhead_trimStart t
    have hstrip : stripModifiers t = trimStart t := by
      have hblanks := stripModifiers_blanks hg (trimStart t)
      rw [← ht] at hblanks
      rw [hblanks, stripModifiers_of_noModifier hsolid h]
    rw [hstrip]
    exact ⟨[], .nil, by simpa using ht, hsolid, h⟩
termination_by t.length

theorem strips_iff {t r : Text} (ht : SolidAhead t) : Strips t r ↔ r = stripModifiers t := by
  constructor
  · rintro ⟨⟨run, hrun, rfl⟩, hsolid, hno⟩
    rw [hrun.stripModifiers, stripModifiers_of_noModifier hsolid hno]
  · rintro rfl
    obtain ⟨g, hg, run, hrun, heq, hsolid, hno⟩ := exists_run_stripModifiers t
    refine ⟨⟨run, hrun, ?_⟩, hsolid, hno⟩
    cases g with
    | nil => simpa using heq
    | cons c g =>
      have hc := ht c (by rw [heq]; rfl)
      rw [hg c List.mem_cons_self] at hc
      cases hc

end Surface.Declaration
