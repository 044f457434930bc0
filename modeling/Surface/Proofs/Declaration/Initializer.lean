import Surface.Declaration.Declarator
import Surface.Proofs.Text.Cuts

/-! # Where an initializer is cut off

An initializer is a word `=` behind a gap, with all that follows. The declarator in front of it ends
without a blank and has no initializer itself, and these conditions determine it.
-/

namespace Surface.Declaration

open Text

/-- A word `=` stands behind a blank. -/
def HasInitializer (t : Text) : Prop :=
  ∃ front rest, t = front ++ '=' :: rest ∧ front ≠ [] ∧ BlankBehind front ∧ BlankAhead rest

/-- `b` is `t` up to the gap in front of its first initializer, or the whole of `t`. -/
structure CutsInitializer (t b : Text) : Prop where
  noInitializer : ¬ HasInitializer b
  cut : b = t ∨ SolidBehind b ∧ ∃ gap rest, t = b ++ gap ++ '=' :: rest ∧ gap ≠ [] ∧
    IsBlanks gap ∧ BlankAhead rest

theorem isSolid_equals : IsSolid ['='] := by
  intro c hc
  rw [List.mem_singleton.1 hc]
  decide

theorem solidAhead_equals (rest : Text) : SolidAhead ('=' :: rest) :=
  isSolid_equals.ahead.append (List.cons_ne_nil _ _)

theorem leadingWord_eq_equals_iff {t : Text} :
    (leadingWord t == ['=']) = true ↔ ∃ rest, t = '=' :: rest ∧ BlankAhead rest := by
  rw [beq_iff_eq]
  constructor
  · intro h
    refine ⟨afterLeadingWord t, ?_, blankAhead_afterLeadingWord t⟩
    have ht := leadingWord_append_afterLeadingWord t
    rw [h] at ht
    exact ht.symm
  · rintro ⟨rest, rfl, hrest⟩
    exact leadingWord_append isSolid_equals hrest

theorem hasInitializer_iff {t : Text} :
    HasInitializer t ↔ ∃ c : Cut, c.Divides t ∧ (leadingWord c.after == ['=']) = true := by
  constructor
  · rintro ⟨front, rest, rfl, hne, hfront, hrest⟩
    obtain ⟨c, hc, -, hafter⟩ := exists_cut_of_blankBehind hne hfront (solidAhead_equals rest)
    exact ⟨c, hc, leadingWord_eq_equals_iff.2 ⟨rest, hafter, hrest⟩⟩
  · rintro ⟨c, hc, hword⟩
    obtain ⟨rest, hafter, hrest⟩ := leadingWord_eq_equals_iff.1 hword
    refine ⟨c.before ++ c.gap, rest, ?_, by simp [hc.gap_ne_nil],
      hc.isBlanks_gap.behind.append _ hc.gap_ne_nil, hrest⟩
    rw [← hafter, hc.eq]

/-- Behind a cut in front of a word `=` every longer front has that initializer. -/
theorem hasInitializer_before {t : Text} {a b : Cut} (ha : a.Divides t) (hb : b.Divides t)
    (hword : (leadingWord a.after == ['=']) = true) (h : a.Precedes b) :
    HasInitializer b.before := by
  obtain ⟨w, hw, hbefore⟩ := h
  obtain ⟨rest, hafter, hrest⟩ := leadingWord_eq_equals_iff.1 hword
  have heq : a.before ++ a.gap ++ '=' :: rest = a.before ++ a.gap ++ (w ++ (b.gap ++ b.after)) := by
    rw [← hafter, ha.eq, ← hb.eq, hbefore]
    simp
  cases w with
  | nil => exact absurd rfl hw
  | cons c w =>
    obtain ⟨rfl, rfl⟩ := List.cons.inj (List.append_cancel_left heq)
    exact ⟨a.before ++ a.gap, w, hbefore, by simp [ha.gap_ne_nil],
      ha.isBlanks_gap.behind.append _ ha.gap_ne_nil, hrest.of_append⟩

theorem initializerCut?_eq_none_iff {t : Text} : initializerCut? t = none ↔ ¬ HasInitializer t := by
  rw [initializerCut?, List.find?_eq_none, hasInitializer_iff]
  simp only [mem_cuts_iff]
  exact ⟨fun h ⟨c, hc, hw⟩ => h c hc hw, fun h c hc hw => h ⟨c, hc, hw⟩⟩

/-- In front of the first initializer there is none, because it would give an earlier cut. -/
theorem noInitializer_of_initializerCut? {t : Text} {c : Cut} (h : initializerCut? t = some c) :
    c.Divides t ∧ (leadingWord c.after == ['=']) = true ∧ ¬ HasInitializer c.before := by
  obtain ⟨hword, as, bs, hcuts, hfirst⟩ := List.find?_eq_some_iff_append.1 h
  have hc : c.Divides t := mem_cuts_iff.1 (List.mem_of_find?_eq_some h)
  refine ⟨hc, hword, fun hinit => ?_⟩
  obtain ⟨front, rest, hbefore, hne, hfront, hrest⟩ := hinit
  have hsolid := solidAhead_equals (rest ++ (c.gap ++ c.after))
  obtain ⟨a, ha, hagap, hafter⟩ := exists_cut_of_blankBehind hne hfront hsolid
  have hwhole : front ++ '=' :: (rest ++ (c.gap ++ c.after)) = t := by
    rw [← hc.eq, hbefore]
    simp
  rw [hwhole] at ha
  have hahead := hrest.append (hc.isBlanks_gap.ahead_append hc.gap_ne_nil c.after)
  have haword : (leadingWord a.after == ['=']) = true :=
    leadingWord_eq_equals_iff.2 ⟨_, hafter, hahead⟩
  have hlonger : (a.before ++ a.gap).length < c.before.length := by
    rw [hagap, hbefore]
    simp
  rcases mem_or_precedes_of_cuts_eq hcuts ha with hmem | rfl | hprec
  · have := hfirst a hmem
    rw [haword] at this
    cases this
  · simp only [List.length_append] at hlonger
    omega
  · have := hprec.length_lt
    simp only [List.length_append] at hlonger this
    omega

theorem cutsInitializer_iff {t b : Text} : CutsInitializer t b ↔ b = dropInitializer t := by
  unfold dropInitializer
  cases h : initializerCut? t with
  | none =>
    have hno := initializerCut?_eq_none_iff.1 h
    refine ⟨fun ⟨_, hcut⟩ => ?_, fun hb => ⟨hb ▸ hno, .inl hb⟩⟩
    rcases hcut with hb | ⟨hb, gap, rest, rfl, hne, hgap, hrest⟩
    · exact hb
    · exact absurd ⟨b ++ gap, rest, rfl, by simp [hne], hgap.behind.append _ hne, hrest⟩ hno
  | some c =>
    obtain ⟨hc, hword, hno⟩ := noInitializer_of_initializerCut? h
    constructor
    · rintro ⟨hnob, rfl | ⟨hb, gap, rest, ht, hne, hgap, hrest⟩⟩
      · exact absurd (hasInitializer_iff.2 ⟨c, hc, hword⟩) hnob
      · have hbcut : Cut.Divides ⟨b, gap, '=' :: rest⟩ t :=
          ⟨ht.symm, hne, hgap, hb, solidAhead_equals rest⟩
        have hbword := leadingWord_eq_equals_iff.2 ⟨rest, rfl, hrest⟩
        rcases hc.eq_or_precedes hbcut with hprec | heq | hprec
        · exact absurd (hasInitializer_before hbcut hc hbword hprec) hno
        · exact congrArg Cut.before heq
        · exact absurd (hasInitializer_before hc hbcut hword hprec) hnob
    · rintro rfl
      obtain ⟨rest, hafter, hrest⟩ := leadingWord_eq_equals_iff.1 hword
      refine ⟨hno, .inr ⟨hc.solidBehind_before, c.gap, rest, ?_, hc.gap_ne_nil, hc.isBlanks_gap,
        hrest⟩⟩
      rw [← hafter, hc.eq]

theorem dropInitializer_of_not_hasInitializer {t : Text} (h : ¬ HasInitializer t) :
    dropInitializer t = t := (cutsInitializer_iff.1 ⟨h, .inl rfl⟩).symm

/-- A further initializer behind a text makes no difference to what is cut off. -/
theorem dropInitializer_append {t gap rest : Text} (ht : SolidBehind t) (hne : gap ≠ [])
    (hgap : IsBlanks gap) (hrest : BlankAhead rest) :
    dropInitializer (t ++ gap ++ '=' :: rest) = dropInitializer t := by
  symm
  apply cutsInitializer_iff.1
  obtain ⟨hno, hcut⟩ := cutsInitializer_iff.2 (rfl : dropInitializer t = dropInitializer t)
  refine ⟨hno, .inr ?_⟩
  rcases hcut with heq | ⟨hsolid, gap', rest', heq, hne', hgap', hrest'⟩
  · rw [heq]
    exact ⟨ht, gap, rest, rfl, hne, hgap, hrest⟩
  · have hwhole : t ++ gap ++ '=' :: rest =
        dropInitializer t ++ gap' ++ '=' :: (rest' ++ (gap ++ '=' :: rest)) := by
      calc t ++ gap ++ '=' :: rest
          = dropInitializer t ++ gap' ++ '=' :: rest' ++ gap ++ '=' :: rest := by rw [← heq]
        _ = _ := by simp
    exact ⟨hsolid, gap', _, hwhole, hne', hgap', hrest'.append (hgap.ahead_append hne _)⟩

end Surface.Declaration
