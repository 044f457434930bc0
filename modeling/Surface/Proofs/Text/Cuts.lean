import Surface.Proofs.Text.Words
import Surface.Text.Pieces

/-! # The cuts of a text

Gaps and words alternate, so the pieces of a text are determined by where blanks begin and end. The
cuts of a text are therefore exactly its divisions at a gap that goes on to neither side, in order.
-/

namespace Surface.Text

/-- Runs of blanks and runs of other characters, in turn. -/
inductive Alternating : List Text → Prop
  | nil : Alternating []
  | cons {c : Char} {p : Text} {ps : List Text} (uniform : ∀ x ∈ p, isBlank x = isBlank c)
      (turn : ∀ q ∈ ps.head?, isGap q ≠ isBlank c) (rest : Alternating ps) :
      Alternating ((c :: p) :: ps)

@[simp] theorem isGap_cons (c : Char) (p : Text) : isGap (c :: p) = isBlank c := rfl

theorem alternating_pieces (t : Text) : Alternating (pieces t) := by
  induction t with
  | nil => exact .nil
  | cons c t ih =>
    rw [pieces]
    split
    next d p ps hp =>
      rw [hp] at ih
      obtain ⟨⟩ | ⟨uniform, turn, rest⟩ := ih
      split
      next hcd =>
        refine .cons (fun x hx => ?_) (fun q hq => hcd ▸ turn q hq) rest
        rcases List.mem_cons.1 hx with rfl | hx
        · exact hcd.symm
        · exact (uniform x hx).trans hcd.symm
      next hcd =>
        refine .cons (fun x hx => by cases hx) (fun q hq => ?_) (.cons uniform turn rest)
        cases hq
        exact Ne.symm hcd
    next hp =>
      refine .cons (fun x hx => by cases hx) (fun q hq => ?_) ih
      cases hps : pieces t with
      | nil => rw [hps] at hq; cases hq
      | cons r ps =>
        cases r with
        | nil => exact absurd rfl (ne_nil_of_mem_pieces (hps ▸ List.mem_cons_self))
        | cons d p => exact absurd hps (hp d p ps)

theorem Alternating.tail {p : Text} {ps : List Text} (h : Alternating (p :: ps)) :
    Alternating ps := by
  cases h with
  | cons _ _ rest => exact rest

theorem Alternating.of_append {ps qs : List Text} (h : Alternating (ps ++ qs)) :
    Alternating qs := by
  induction ps with
  | nil => exact h
  | cons p ps ih => exact ih h.tail

theorem Alternating.isBlanks {p : Text} {ps : List Text} (h : Alternating (p :: ps))
    (hp : isGap p = true) : IsBlanks p := by
  cases h with
  | cons uniform _ _ =>
    intro x hx
    rcases List.mem_cons.1 hx with rfl | hx
    · exact hp
    · exact (uniform x hx).trans hp

theorem Alternating.isSolid {p : Text} {ps : List Text} (h : Alternating (p :: ps))
    (hp : isGap p = false) : IsSolid p := by
  cases h with
  | cons uniform _ _ =>
    intro x hx
    rcases List.mem_cons.1 hx with rfl | hx
    · exact hp
    · exact (uniform x hx).trans hp

theorem Alternating.head?_isGap {p q : Text} {ps : List Text} (h : Alternating (p :: q :: ps)) :
    isGap q = !isGap p := by
  cases h with
  | @cons c p _ uniform turn _ =>
    have hne := turn q rfl
    rw [isGap_cons]
    cases hq : isGap q <;> cases hc : isBlank c <;> simp_all

theorem Alternating.solidAhead {p : Text} {ps : List Text} (h : Alternating (p :: ps))
    (hp : isGap p = true) : SolidAhead ps.flatten := by
  cases ps with
  | nil => intro c hc; cases hc
  | cons q ps =>
    have hq : isGap q = false := by rw [h.head?_isGap, hp]; rfl
    cases h with
    | cons _ _ rest =>
      cases rest with
      | @cons d q _ _ _ _ =>
        intro c hc
        cases hc
        exact hq

theorem Alternating.solidBehind {ps qs : List Text} {p : Text} (h : Alternating (ps ++ p :: qs))
    (hp : isGap p = true) : SolidBehind ps.flatten := by
  induction ps with
  | nil => intro c hc; cases hc
  | cons q ps ih =>
    cases ps with
    | nil =>
      have hturn := h.head?_isGap
      rw [hp] at hturn
      have hq : isGap q = false := by simpa using hturn.symm
      simpa using (h.isSolid hq).behind
    | cons r ps =>
      cases h with
      | cons _ _ rest =>
        rw [List.flatten_cons]
        refine (ih rest).append _ fun hnil => ?_
        cases rest with
        | cons => simp at hnil

theorem pieces_eq_cons (c : Char) (t : Text) : ∃ p ps, pieces (c :: t) = (c :: p) :: ps := by
  rw [pieces]
  split
  · split
    · exact ⟨_, _, rfl⟩
    · exact ⟨_, _, rfl⟩
  · exact ⟨_, _, rfl⟩

theorem pieces_cons {c d : Char} {t p : Text} {ps : List Text} (h : pieces t = (d :: p) :: ps) :
    pieces (c :: t) =
      if isBlank c = isBlank d then (c :: d :: p) :: ps else [c] :: (d :: p) :: ps := by
  rw [pieces, h]

/-- A text falls apart where a gap meets a word. -/
theorem pieces_append {s t : Text}
    (h : ∀ a ∈ s.getLast?, ∀ b ∈ t.head?, isBlank a ≠ isBlank b) :
    pieces (s ++ t) = pieces s ++ pieces t := by
  induction s with
  | nil => rfl
  | cons c s ih =>
    cases s with
    | nil =>
      cases t with
      | nil => rfl
      | cons d t =>
        obtain ⟨p, ps, hp⟩ := pieces_eq_cons d t
        have hne := h c rfl d rfl
        rw [List.singleton_append, pieces_cons hp, if_neg hne, hp]
        rfl
    | cons d s =>
      have ih := ih fun a ha => h a (by rwa [List.getLast?_cons_cons])
      obtain ⟨p, ps, hp⟩ := pieces_eq_cons d s
      have hps : pieces (d :: s ++ t) = (d :: p) :: (ps ++ pieces t) := by rw [ih, hp]; rfl
      rw [List.cons_append, pieces_cons hps, pieces_cons hp]
      split <;> rfl

theorem pieces_of_uniform {p : Text} {b : Bool} (hne : p ≠ []) (h : ∀ c ∈ p, isBlank c = b) :
    pieces p = [p] := by
  induction p with
  | nil => exact absurd rfl hne
  | cons c p ih =>
    cases p with
    | nil => rfl
    | cons d p =>
      have hcd : isBlank c = isBlank d := by rw [h c (by simp), h d (by simp)]
      rw [pieces, ih (by simp) fun x hx => h x (List.mem_cons_of_mem _ hx)]
      simp [hcd]

theorem pieces_gap {before gap after : Text} (hb : SolidBehind before) (hg : IsBlanks gap)
    (hne : gap ≠ []) (ha : SolidAhead after) :
    pieces (before ++ gap ++ after) = pieces before ++ gap :: pieces after := by
  rw [List.append_assoc, pieces_append, pieces_append, pieces_of_uniform hne hg]
  · rfl
  · intro a hga b hb
    rw [hg.behind a hga, ha b hb]
    simp
  · intro a hab b hgb
    rw [hb a hab, hg.ahead_append hne _ b hgb]
    simp

/-- The cut divides the text at a gap that goes on to neither side. -/
structure Cut.Divides (c : Cut) (t : Text) : Prop where
  eq : c.before ++ c.gap ++ c.after = t
  gap_ne_nil : c.gap ≠ []
  isBlanks_gap : IsBlanks c.gap
  solidBehind_before : SolidBehind c.before
  solidAhead_after : SolidAhead c.after

theorem mem_cutsAfter {before : Text} {ps : List Text} {c : Cut} :
    c ∈ cutsAfter before ps ↔ ∃ ps₁ p ps₂, ps = ps₁ ++ p :: ps₂ ∧ isGap p = true ∧
      c = ⟨before ++ ps₁.flatten, p, ps₂.flatten⟩ := by
  induction ps generalizing before with
  | nil => simp [cutsAfter]
  | cons q ps ih =>
    have later : c ∈ cutsAfter (before ++ q) ps ↔ ∃ ps₁ p ps₂, q :: ps = (q :: ps₁) ++ p :: ps₂ ∧
        isGap p = true ∧ c = ⟨before ++ (q :: ps₁).flatten, p, ps₂.flatten⟩ := by
      rw [ih]
      simp
    rw [cutsAfter]
    split
    next hq =>
      rw [List.mem_cons, later]
      constructor
      · rintro (rfl | ⟨ps₁, p, ps₂, h⟩)
        · exact ⟨[], q, ps, rfl, hq, by simp⟩
        · exact ⟨q :: ps₁, p, ps₂, h⟩
      · rintro ⟨_ | ⟨r, ps₁⟩, p, ps₂, h, hp, hc⟩
        · cases h
          exact .inl (by simpa using hc)
        · obtain ⟨rfl, -⟩ := List.cons.inj h
          exact .inr ⟨ps₁, p, ps₂, h, hp, hc⟩
    next hq =>
      rw [later]
      constructor
      · rintro ⟨ps₁, p, ps₂, h⟩
        exact ⟨q :: ps₁, p, ps₂, h⟩
      · rintro ⟨_ | ⟨r, ps₁⟩, p, ps₂, h, hp, hc⟩
        · cases h
          exact absurd hp hq
        · obtain ⟨rfl, -⟩ := List.cons.inj h
          exact ⟨ps₁, p, ps₂, h, hp, hc⟩

theorem mem_cuts_iff {t : Text} {c : Cut} : c ∈ cuts t ↔ c.Divides t := by
  constructor
  · intro h
    have heq := eq_of_mem_cuts h
    obtain ⟨ps₁, p, ps₂, hps, hp, rfl⟩ := mem_cutsAfter.1 h
    have halt : Alternating (ps₁ ++ p :: ps₂) := hps ▸ alternating_pieces t
    refine ⟨heq, ?_, halt.of_append.isBlanks hp, halt.solidBehind hp, halt.of_append.solidAhead hp⟩
    exact ne_nil_of_mem_pieces (t := t) (hps ▸ by simp)
  · rintro ⟨rfl, hne, hg, hb, ha⟩
    refine mem_cutsAfter.2 ⟨pieces c.before, c.gap, pieces c.after, pieces_gap hb hg hne ha, ?_, ?_⟩
    · obtain ⟨before, gap, after⟩ := c
      cases gap with
      | nil => exact absurd rfl hne
      | cons b gap => exact hg b List.mem_cons_self
    · simp

/-- Behind the gap of one cut a word stands before the gap of the next. -/
def Cut.Precedes (a b : Cut) : Prop := ∃ w, w ≠ [] ∧ b.before = a.before ++ a.gap ++ w

theorem Cut.Precedes.length_lt {a b : Cut} (h : a.Precedes b) :
    (a.before ++ a.gap).length < (b.before ++ b.gap).length := by
  obtain ⟨w, hw, hb⟩ := h
  have := List.length_pos_iff.2 hw
  simp only [hb, List.length_append]
  omega

theorem pairwise_cutsAfter (before : Text) {ps : List Text} (h : Alternating ps) :
    (cutsAfter before ps).Pairwise Cut.Precedes := by
  induction ps generalizing before with
  | nil => exact .nil
  | cons p ps ih =>
    have rest : Alternating ps := h.tail
    rw [cutsAfter]
    split
    next hp =>
      refine List.pairwise_cons.2 ⟨fun b hb => ?_, ih _ rest⟩
      obtain ⟨ps₁, q, ps₂, rfl, hq, rfl⟩ := mem_cutsAfter.1 hb
      refine ⟨ps₁.flatten, fun hnil => ?_, rfl⟩
      cases ps₁ with
      | nil =>
        have hturn := h.head?_isGap
        rw [hp, hq] at hturn
        cases hturn
      | cons r ps₁ =>
        cases rest with
        | cons => simp at hnil
    next => exact ih _ rest

theorem pairwise_cuts (t : Text) : (cuts t).Pairwise Cut.Precedes :=
  pairwise_cutsAfter [] (alternating_pieces t)

theorem precedes_of_mem_before {t : Text} {as bs : List Cut} {a b : Cut}
    (h : cuts t = as ++ a :: bs) (hb : b ∈ as) : b.Precedes a := by
  have hpair := pairwise_cuts t
  rw [h] at hpair
  exact (List.pairwise_append.1 hpair).2.2 b hb a List.mem_cons_self

theorem precedes_of_mem_behind {t : Text} {as bs : List Cut} {a b : Cut}
    (h : cuts t = as ++ a :: bs) (hb : b ∈ bs) : a.Precedes b := by
  have hpair := pairwise_cuts t
  rw [h] at hpair
  exact (List.pairwise_cons.1 (List.pairwise_append.1 hpair).2.1).1 b hb

theorem mem_or_precedes_of_cuts_eq {t : Text} {as bs : List Cut} {a b : Cut}
    (h : cuts t = as ++ a :: bs) (hb : b.Divides t) : b ∈ as ∨ b = a ∨ a.Precedes b := by
  have hmem := mem_cuts_iff.2 hb
  rw [h] at hmem
  rcases List.mem_append.1 hmem with hmem | hmem
  · exact .inl hmem
  · exact .inr ((List.mem_cons.1 hmem).imp_right (precedes_of_mem_behind h))

theorem Cut.Divides.eq_or_precedes {t : Text} {a b : Cut} (ha : a.Divides t) (hb : b.Divides t) :
    b.Precedes a ∨ b = a ∨ a.Precedes b := by
  obtain ⟨as, bs, h⟩ := List.append_of_mem (mem_cuts_iff.2 ha)
  exact (mem_or_precedes_of_cuts_eq h hb).imp_left (precedes_of_mem_before h)

/-- A text that ends with a blank and a word behind it are divided at the gap between them. -/
theorem exists_cut_of_blankBehind {front after : Text} (hne : front ≠ []) (hb : BlankBehind front)
    (ha : SolidAhead after) : ∃ c : Cut, c.Divides (front ++ after) ∧ c.before ++ c.gap = front ∧
      c.after = after := by
  obtain ⟨gap, hgap, hfront⟩ := exists_trimEnd_blanks front
  refine ⟨⟨trimEnd front, gap, after⟩, ⟨by rw [← hfront], ?_, hgap, solidBehind_trimEnd _, ha⟩,
    hfront.symm, rfl⟩
  rintro rfl
  rw [List.append_nil] at hfront
  exact hne (hb.eq_nil (hfront ▸ solidBehind_trimEnd front))

/-- Behind the first word of what follows a cut there is a later cut, or nothing. -/
theorem Cut.Divides.exists_later {t : Text} {a : Cut} (ha : a.Divides t) (hne : a.after ≠ [])
    (hrest : afterLeadingWord a.after ≠ []) : ∃ b : Cut, b.Divides t ∧ a.Precedes b := by
  have hword := leadingWord_ne_nil ha.solidAhead_after hne
  obtain ⟨g, hgne, hg, heq⟩ := (blankAhead_afterLeadingWord a.after).exists_gap hrest
  refine ⟨⟨a.before ++ a.gap ++ leadingWord a.after, g, trimStart (afterLeadingWord a.after)⟩,
    ⟨?_, hgne, hg, (isSolid_leadingWord a.after).behind.append _ hword, solidAhead_trimStart _⟩,
    leadingWord a.after, hword, rfl⟩
  rw [List.append_assoc, ← heq, List.append_assoc, leadingWord_append_afterLeadingWord, ha.eq]

/-- The last cut is the one that leaves a single word behind it, as a later cut would put a gap into
the word. -/
theorem getLast?_cuts_eq_some_iff {t : Text} (ht : SolidBehind t) {a : Cut} :
    (cuts t).getLast? = some a ↔ a.Divides t ∧ IsWord a.after := by
  rw [List.getLast?_eq_some_iff]
  constructor
  · rintro ⟨as, hcuts⟩
    have ha : a.Divides t := mem_cuts_iff.1 (by rw [hcuts]; simp)
    have hne : a.after ≠ [] := by
      intro hnil
      rw [← ha.eq, hnil, List.append_nil] at ht
      exact ha.gap_ne_nil (ha.isBlanks_gap.behind.eq_nil (ht.of_append ha.gap_ne_nil))
    by_cases hrest : afterLeadingWord a.after = []
    · have hword := leadingWord_append_afterLeadingWord a.after
      rw [hrest, List.append_nil] at hword
      exact ⟨ha, hne, hword ▸ isSolid_leadingWord a.after⟩
    · obtain ⟨b, hb, hab⟩ := ha.exists_later hne hrest
      have hlt := hab.length_lt
      have hmem := mem_cuts_iff.2 hb
      rw [hcuts] at hmem
      rcases List.mem_append.1 hmem with hmem | hmem
      · have := (precedes_of_mem_before hcuts hmem).length_lt
        omega
      · rw [List.mem_singleton.1 hmem] at hlt
        omega
  · rintro ⟨ha, hword⟩
    obtain ⟨as, bs, hcuts⟩ := List.append_of_mem (mem_cuts_iff.2 ha)
    cases bs with
    | nil => exact ⟨as, hcuts⟩
    | cons b bs =>
      obtain ⟨w, -, hbefore⟩ := precedes_of_mem_behind hcuts List.mem_cons_self
      have hb : b.Divides t := mem_cuts_iff.1 (by rw [hcuts]; simp)
      have heq : a.before ++ a.gap ++ a.after = a.before ++ a.gap ++ (w ++ (b.gap ++ b.after)) := by
        rw [ha.eq, ← hb.eq, hbefore]
        simp
      have hsolid := hword.isSolid
      rw [List.append_cancel_left heq, isSolid_append, isSolid_append] at hsolid
      exact absurd (hb.isBlanks_gap.ahead.eq_nil hsolid.2.1.ahead) hb.gap_ne_nil

end Surface.Text
