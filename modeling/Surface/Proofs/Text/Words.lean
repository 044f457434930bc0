import Surface.Text.Blank

/-! # Where words begin and end

A solid text has no blank in it. Leading words, trimming and trimmed texts are determined by what
stands at the two ends of a text: a blank or another character.
-/

namespace Surface.Text

def IsBlanks (t : Text) : Prop := ∀ c ∈ t, isBlank c = true

def IsSolid (t : Text) : Prop := ∀ c ∈ t, isBlank c = false

instance (t : Text) : Decidable (IsBlanks t) :=
  List.decidableBAll (fun c => isBlank c = true) t

instance (t : Text) : Decidable (IsSolid t) :=
  List.decidableBAll (fun c => isBlank c = false) t

/-- No word goes on into the text. -/
def BlankAhead (t : Text) : Prop := ∀ c ∈ t.head?, isBlank c = true

def SolidAhead (t : Text) : Prop := ∀ c ∈ t.head?, isBlank c = false

/-- No word goes on behind the text. -/
def BlankBehind (t : Text) : Prop := ∀ c ∈ t.getLast?, isBlank c = true

def SolidBehind (t : Text) : Prop := ∀ c ∈ t.getLast?, isBlank c = false

instance (t : Text) : Decidable (BlankAhead t) := Option.decidableForallMem t.head?

instance (t : Text) : Decidable (SolidAhead t) := Option.decidableForallMem t.head?

instance (t : Text) : Decidable (BlankBehind t) := Option.decidableForallMem t.getLast?

instance (t : Text) : Decidable (SolidBehind t) := Option.decidableForallMem t.getLast?

structure IsWord (w : Text) : Prop where
  ne_nil : w ≠ []
  isSolid : IsSolid w

variable {s t w g : Text}

theorem isBlanks_append : IsBlanks (s ++ t) ↔ IsBlanks s ∧ IsBlanks t := by
  simp only [IsBlanks, List.mem_append]
  exact ⟨fun h => ⟨fun c hc => h c (.inl hc), fun c hc => h c (.inr hc)⟩,
    fun h c hc => hc.elim (h.1 c) (h.2 c)⟩

theorem isSolid_append : IsSolid (s ++ t) ↔ IsSolid s ∧ IsSolid t := by
  simp only [IsSolid, List.mem_append]
  exact ⟨fun h => ⟨fun c hc => h c (.inl hc), fun c hc => h c (.inr hc)⟩,
    fun h c hc => hc.elim (h.1 c) (h.2 c)⟩

theorem IsBlanks.ahead (h : IsBlanks t) : BlankAhead t :=
  fun c hc => h c (List.mem_of_mem_head? hc)

theorem IsBlanks.behind (h : IsBlanks t) : BlankBehind t :=
  fun c hc => h c (List.mem_of_getLast? hc)

theorem IsSolid.ahead (h : IsSolid t) : SolidAhead t :=
  fun c hc => h c (List.mem_of_mem_head? hc)

theorem IsSolid.behind (h : IsSolid t) : SolidBehind t :=
  fun c hc => h c (List.mem_of_getLast? hc)

theorem BlankAhead.eq_nil (hb : BlankAhead t) (hs : SolidAhead t) : t = [] := by
  cases t with
  | nil => rfl
  | cons c t =>
    have := hb c rfl
    rw [hs c rfl] at this
    cases this

theorem BlankBehind.eq_nil (hb : BlankBehind t) (hs : SolidBehind t) : t = [] := by
  cases h : t.getLast? with
  | none => exact List.getLast?_eq_none_iff.1 h
  | some c =>
    have := hb c h
    rw [hs c h] at this
    cases this

theorem BlankAhead.append (hs : BlankAhead s) (ht : BlankAhead t) : BlankAhead (s ++ t) := by
  cases s with
  | nil => exact ht
  | cons c s => exact hs

theorem BlankAhead.of_append (h : BlankAhead (s ++ t)) : BlankAhead s := by
  cases s with
  | nil => intro c hc; cases hc
  | cons c s => exact h

theorem IsBlanks.ahead_append (hg : IsBlanks g) (hne : g ≠ []) (t : Text) :
    BlankAhead (g ++ t) := by
  cases g with
  | nil => exact absurd rfl hne
  | cons c g => exact hg.ahead

theorem SolidAhead.append (h : SolidAhead s) (hs : s ≠ []) : SolidAhead (s ++ t) := by
  cases s with
  | nil => exact absurd rfl hs
  | cons c s => exact h

theorem getLast?_append_of_ne_nil (s : Text) (ht : t ≠ []) : (s ++ t).getLast? = t.getLast? := by
  rw [List.getLast?_append, List.getLast?_eq_some_getLast ht]
  rfl

theorem BlankBehind.append (s : Text) (h : BlankBehind t) (ht : t ≠ []) : BlankBehind (s ++ t) := by
  unfold BlankBehind
  rw [getLast?_append_of_ne_nil s ht]
  exact h

theorem BlankBehind.of_append (h : BlankBehind (s ++ t)) (ht : t ≠ []) : BlankBehind t := by
  unfold BlankBehind at h
  rwa [getLast?_append_of_ne_nil s ht] at h

theorem SolidBehind.append (s : Text) (h : SolidBehind t) (ht : t ≠ []) : SolidBehind (s ++ t) := by
  unfold SolidBehind
  rw [getLast?_append_of_ne_nil s ht]
  exact h

theorem SolidBehind.of_append (h : SolidBehind (s ++ t)) (ht : t ≠ []) : SolidBehind t := by
  unfold SolidBehind at h
  rwa [getLast?_append_of_ne_nil s ht] at h

theorem isSolid_leadingWord (t : Text) : IsSolid (leadingWord t) := by
  intro c hc
  have h := List.all_eq_true.1 (List.all_takeWhile (p := fun c => !isBlank c) (l := t)) c hc
  simpa using h

theorem blankAhead_afterLeadingWord (t : Text) : BlankAhead (afterLeadingWord t) := by
  intro c hc
  have h := List.head?_dropWhile_not (fun c => !isBlank c) t
  unfold afterLeadingWord at hc
  rw [Option.mem_def.1 hc] at h
  simpa using h

theorem leadingWord_append (hw : IsSolid w) (ht : BlankAhead t) : leadingWord (w ++ t) = w := by
  unfold leadingWord
  rw [List.takeWhile_append_of_pos fun c hc => by simp [hw c hc]]
  cases t with
  | nil => simp
  | cons c t => simp [ht c rfl]

/-- A leading word ends where a blank follows, whatever comes behind that. -/
theorem leadingWord_append_blank (w : Text) (ht : BlankAhead t) :
    leadingWord (w ++ t) = leadingWord w := by
  induction w with
  | nil => exact leadingWord_append (w := []) (by simp [IsSolid]) ht
  | cons c w ih =>
    unfold leadingWord at ih ⊢
    by_cases hc : isBlank c = true
    · simp [hc]
    · simp [hc, ih]

theorem afterLeadingWord_append (hw : IsSolid w) (ht : BlankAhead t) :
    afterLeadingWord (w ++ t) = t := by
  have h := leadingWord_append_afterLeadingWord (w ++ t)
  rw [leadingWord_append hw ht] at h
  exact List.append_cancel_left h

theorem leadingWord_ne_nil (hs : SolidAhead t) (hne : t ≠ []) : leadingWord t ≠ [] := by
  intro h
  have ht := leadingWord_append_afterLeadingWord t
  rw [h, List.nil_append] at ht
  exact hne (BlankAhead.eq_nil (ht ▸ blankAhead_afterLeadingWord t) hs)

theorem solidAhead_trimStart (t : Text) : SolidAhead (trimStart t) := by
  intro c hc
  have h := List.head?_dropWhile_not isBlank t
  unfold trimStart at hc
  rw [Option.mem_def.1 hc] at h
  simpa using h

theorem trimStart_append (hg : IsBlanks g) (t : Text) : trimStart (g ++ t) = trimStart t :=
  List.dropWhile_append_of_pos hg

theorem trimStart_of_solidAhead (h : SolidAhead t) : trimStart t = t := by
  cases t with
  | nil => rfl
  | cons c t => simp [trimStart, h c rfl]

theorem exists_blanks_trimStart (t : Text) : ∃ g, IsBlanks g ∧ t = g ++ trimStart t := by
  refine ⟨t.takeWhile isBlank, fun c hc => ?_, List.takeWhile_append_dropWhile.symm⟩
  exact List.all_eq_true.1 List.all_takeWhile c hc

/-- Trimming takes a gap away from a text that goes on with a blank. -/
theorem BlankAhead.exists_gap (h : BlankAhead t) (hne : t ≠ []) :
    ∃ g, g ≠ [] ∧ IsBlanks g ∧ t = g ++ trimStart t := by
  obtain ⟨g, hg, ht⟩ := exists_blanks_trimStart t
  refine ⟨g, ?_, hg, ht⟩
  rintro rfl
  rw [List.nil_append] at ht
  exact hne (h.eq_nil (ht ▸ solidAhead_trimStart t))

theorem solidBehind_trimEnd (t : Text) : SolidBehind (trimEnd t) := by
  intro c hc
  rw [trimEnd, List.getLast?_reverse] at hc
  exact solidAhead_trimStart t.reverse c hc

theorem exists_trimEnd_blanks (t : Text) : ∃ g, IsBlanks g ∧ t = trimEnd t ++ g := by
  obtain ⟨g, hg, ht⟩ := exists_blanks_trimStart t.reverse
  refine ⟨g.reverse, fun c hc => hg c (List.mem_reverse.1 hc), ?_⟩
  have h := congrArg List.reverse ht
  rwa [List.reverse_reverse, List.reverse_append] at h

theorem trimEnd_append (t : Text) (hg : IsBlanks g) : trimEnd (t ++ g) = trimEnd t := by
  unfold trimEnd
  rw [List.reverse_append]
  exact congrArg List.reverse (trimStart_append (fun c hc => hg c (List.mem_reverse.1 hc)) _)

theorem trimEnd_of_solidBehind (h : SolidBehind t) : trimEnd t = t := by
  have hr : SolidAhead t.reverse := fun c hc => h c (by rwa [List.head?_reverse] at hc)
  have := congrArg List.reverse (trimStart_of_solidAhead hr)
  rwa [List.reverse_reverse] at this

theorem trimEnd_ne_nil (ha : SolidAhead t) (hne : t ≠ []) : trimEnd t ≠ [] := by
  intro hnil
  obtain ⟨g, hg, ht⟩ := exists_trimEnd_blanks t
  rw [hnil, List.nil_append] at ht
  rw [ht] at ha hne
  exact hne (hg.ahead.eq_nil ha)

/-- Blanks are trimmed off behind a solid end only. -/
theorem trimEnd_append_of_solidBehind (hs : SolidBehind s) (t : Text) :
    trimEnd (s ++ t) = s ++ trimEnd t := by
  obtain ⟨g, hg, ht⟩ := exists_trimEnd_blanks t
  have hsolid : SolidBehind (s ++ trimEnd t) := by
    by_cases hnil : trimEnd t = []
    · rwa [hnil, List.append_nil]
    · exact (solidBehind_trimEnd t).append s hnil
  calc trimEnd (s ++ t) = trimEnd (s ++ trimEnd t ++ g) := by rw [List.append_assoc, ← ht]
    _ = trimEnd (s ++ trimEnd t) := trimEnd_append _ hg
    _ = s ++ trimEnd t := trimEnd_of_solidBehind hsolid

theorem BlankAhead.trimEnd (h : BlankAhead t) : BlankAhead (trimEnd t) := by
  obtain ⟨g, -, ht⟩ := exists_trimEnd_blanks t
  rw [ht] at h
  exact h.of_append

theorem leadingWord_trimEnd (t : Text) : leadingWord (trimEnd t) = leadingWord t := by
  obtain ⟨g, hg, ht⟩ := exists_trimEnd_blanks t
  have hword := leadingWord_append_blank (trimEnd t) hg.ahead
  rw [← ht] at hword
  exact hword.symm

theorem solidBehind_trim (t : Text) : SolidBehind (trim t) := solidBehind_trimEnd _

theorem solidAhead_trim (t : Text) : SolidAhead (trim t) := by
  obtain ⟨g, hg, h⟩ := exists_trimEnd_blanks (trimStart t)
  intro c hc
  apply solidAhead_trimStart t c
  rw [h]
  cases ht : trim t with
  | nil => rw [ht] at hc; cases hc
  | cons d s =>
    rw [ht] at hc
    rw [trim] at ht
    rw [ht]
    exact hc

theorem trim_eq_self (ha : SolidAhead t) (hb : SolidBehind t) : trim t = t := by
  rw [trim, trimStart_of_solidAhead ha, trimEnd_of_solidBehind hb]

theorem trim_blanks_append (hg : IsBlanks g) (t : Text) : trim (g ++ t) = trim t := by
  rw [trim, trimStart_append hg, trim]

theorem trim_append_blanks (t : Text) (hg : IsBlanks g) : trim (t ++ g) = trim t := by
  obtain ⟨b, hb, ht⟩ := exists_blanks_trimStart t
  have hwhole : trimStart (t ++ g) = trimStart (trimStart t ++ g) := by
    rw [← trimStart_append hb (trimStart t ++ g), ← List.append_assoc, ← ht]
  rw [trim, hwhole, trim]
  by_cases hnil : trimStart t = []
  · have hblank := trimStart_append hg []
    rw [List.append_nil] at hblank
    rw [hnil, List.nil_append, hblank]
    rfl
  · rw [trimStart_of_solidAhead ((solidAhead_trimStart t).append hnil), trimEnd_append _ hg]

@[simp] theorem trim_trim (t : Text) : trim (trim t) = trim t :=
  trim_eq_self (solidAhead_trim t) (solidBehind_trim t)

theorem trim_isInfix (t : Text) : trim t <:+: t :=
  (trimEnd_isPrefix _).isInfix.trans (trimStart_suffix t).isInfix

end Surface.Text
