import Mathlib.Data.List.Pairwise
import Mathlib.Data.List.Sort
import Mathlib.Logic.ExistsUnique
import Surface.Proofs.Text.Offsets

/-! # The ranges of the gaps

Ranges of bytes mark the gaps of a text if every blank stands in exactly one of them and no other
character in any, if a character stands between any two, and if the text cut at their ends falls
into its words and gaps. The ranges that are found by offsets mark the gaps, and no others do.
-/

namespace Surface.Offsets

open Text

/-- The bytes of the character are among those from `start` up to `stop`. -/
def Within (start stop : Nat) (c : Nat × Char) : Prop :=
  start ≤ c.1 ∧ c.1 + c.2.utf8Size ≤ stop

/-- The text from `start` on, cut at both ends of each range: in turn what stands in front of a
range and what stands in it, and last what stands behind all ranges. -/
def partsFrom (t : Text) (start : Nat) : List (Nat × Nat) → Except Fault (List Text)
  | [] => return [← sliceFrom t start]
  | r :: ranges => do
    let front ← slice t start r.1
    let inside ← slice t r.1 r.2
    return front :: inside :: (← partsFrom t r.2 ranges)

/-- Every blank stands in one of the ranges and no other character does, and the parts of the text
between the ends of the ranges are its words and gaps. -/
structure MarksGaps (t : Text) (ranges : List (Nat × Nat)) : Prop where
  nonempty : ∀ r ∈ ranges, r.1 < r.2
  apart : ranges.Pairwise fun r s => ∃ c ∈ chars t, Within r.2 s.1 c
  isBlank_of_within : ∀ r ∈ ranges, ∀ c ∈ chars t, Within r.1 r.2 c → isBlank c.2 = true
  existsUnique_within : ∀ c ∈ chars t, isBlank c.2 = true → ∃! r, r ∈ ranges ∧ Within r.1 r.2 c
  parts : ∃ parts, partsFrom t 0 ranges = .ok parts ∧ parts.flatten = t ∧
    Alternating (parts.filter fun p => !p.isEmpty)

variable {t before gap after : Text} {c : Nat × Char} {a b : Cut} {r s : Nat × Nat}
  {ranges : List (Nat × Nat)} {m n : Nat}

theorem mem_charsFrom_iff : c ∈ charsFrom n t ↔
    ∃ before after, t = before ++ c.2 :: after ∧ n + before.byteSize = c.1 := by
  induction t generalizing n with
  | nil => simp [charsFrom]
  | cons d t ih =>
    rw [charsFrom, List.mem_cons, ih]
    constructor
    · rintro (rfl | ⟨before, after, rfl, hn⟩)
      · exact ⟨[], t, rfl, rfl⟩
      · exact ⟨d :: before, after, rfl, by rw [byteSize_cons, ← Nat.add_assoc, hn]⟩
    · rintro ⟨_ | ⟨x, before⟩, after, ht, hn⟩
      · obtain ⟨rfl, rfl⟩ := List.cons.inj ht
        exact .inl (Prod.ext hn.symm rfl)
      · obtain ⟨rfl, rfl⟩ := List.cons.inj ht
        exact .inr ⟨before, after, rfl, by rw [Nat.add_assoc, ← byteSize_cons, hn]⟩

theorem mem_chars_iff : c ∈ chars t ↔
    ∃ before after, t = before ++ c.2 :: after ∧ before.byteSize = c.1 := by
  simp [chars, mem_charsFrom_iff]

theorem mem_chars_append (before : Text) (x : Char) (after : Text) :
    (before.byteSize, x) ∈ chars (before ++ x :: after) :=
  mem_chars_iff.2 ⟨before, after, rfl, rfl⟩

theorem Within.lt (h : Within m n c) : m < n := by
  have := c.2.utf8Size_pos
  have := h.1
  have := h.2
  omega

theorem exists_append_of_byteSize_le {x y x' y' : Text} (h : x ++ y = x' ++ y')
    (hle : x.byteSize ≤ x'.byteSize) : ∃ w, x' = x ++ w ∧ y = w ++ y' := by
  rcases List.append_eq_append_iff.1 h with hw | ⟨w, rfl, rfl⟩
  · exact hw
  · have hnil : w = [] := Decidable.byContradiction fun hne => by
      have := byteSize_pos hne
      rw [byteSize_append] at hle
      omega
    exact ⟨[], by simp [hnil], by simp [hnil]⟩

theorem mem_of_within (hc : c ∈ chars (before ++ gap ++ after))
    (h : Within before.byteSize (before.byteSize + gap.byteSize) c) : c.2 ∈ gap := by
  obtain ⟨front, rest, ht, hn⟩ := mem_chars_iff.1 hc
  rw [List.append_assoc] at ht
  obtain ⟨w, rfl, hw⟩ := exists_append_of_byteSize_le ht (hn ▸ h.1)
  have hle : (w ++ [c.2]).byteSize ≤ gap.byteSize := by
    have := h.2
    simp only [← hn, byteSize_append, byteSize_cons, byteSize_nil] at this ⊢
    omega
  rw [List.append_cons] at hw
  obtain ⟨v, rfl, -⟩ := exists_append_of_byteSize_le hw.symm hle
  simp

theorem exists_within_of_mem {x : Char} (h : x ∈ gap) (before after : Text) :
    ∃ n, (n, x) ∈ chars (before ++ gap ++ after) ∧
      Within before.byteSize (before.byteSize + gap.byteSize) (n, x) := by
  obtain ⟨front, rest, rfl⟩ := List.append_of_mem h
  have hc := mem_chars_append (before ++ front) x (rest ++ after)
  refine ⟨(before ++ front).byteSize, by simpa using hc, ?_⟩
  simp only [Within, byteSize_append, byteSize_cons]
  omega

theorem isBlank_of_within (ha : a.Divides t) (hc : c ∈ chars t)
    (h : Within a.range.1 a.range.2 c) : isBlank c.2 = true := by
  rw [← ha.eq] at hc
  exact ha.isBlanks_gap c.2 (mem_of_within hc h)

/-- The gap around a blank goes as far as blanks stand on either side of it. -/
theorem exists_cut_within (hc : c ∈ chars t) (hblank : isBlank c.2 = true) :
    ∃ a : Cut, a.Divides t ∧ Within a.range.1 a.range.2 c := by
  obtain ⟨front, rest, rfl, hn⟩ := mem_chars_iff.1 hc
  obtain ⟨g, hg, hfront⟩ := exists_trimEnd_blanks front
  obtain ⟨g', hg', hrest⟩ := exists_blanks_trimStart rest
  have hsize := congrArg byteSize hfront
  rw [byteSize_append, hn] at hsize
  refine ⟨⟨trimEnd front, g ++ c.2 :: g', trimStart rest⟩,
    ⟨?_, by simp, ?_, solidBehind_trimEnd front, solidAhead_trimStart rest⟩, ?_⟩
  · rw [List.append_assoc, List.append_assoc, List.cons_append, ← hrest, ← List.append_assoc,
      ← hfront]
  · refine isBlanks_append.2 ⟨hg, fun x hx => ?_⟩
    rcases List.mem_cons.1 hx with rfl | hx
    · exact hblank
    · exact hg' x hx
  · simp only [Within, Cut.range, byteSize_append, byteSize_cons, hsize]
    omega

theorem exists_within_of_precedes (h : a.Precedes b) (hb : b.Divides t) :
    ∃ c ∈ chars t, Within a.range.2 b.range.1 c := by
  obtain ⟨w, hne, hbefore⟩ := h
  obtain ⟨x, w, rfl⟩ := List.exists_cons_of_ne_nil hne
  have hc := mem_chars_append (a.before ++ a.gap) x (w ++ b.gap ++ b.after)
  have ht : a.before ++ a.gap ++ x :: (w ++ b.gap ++ b.after) = t := by
    rw [← hb.eq, hbefore]
    simp
  rw [ht] at hc
  refine ⟨_, hc, ?_⟩
  simp only [Within, Cut.range, hbefore, byteSize_append, byteSize_cons]
  omega

theorem not_within_of_precedes (hab : a.Precedes b) (hb : b.Divides t)
    (h : Within a.range.1 a.range.2 c) : ¬ Within b.range.1 b.range.2 c := by
  intro h'
  obtain ⟨d, -, hd⟩ := exists_within_of_precedes hab hb
  have hpos := c.2.utf8Size_pos
  have hlt := hd.lt
  have hstop := h.2
  have hstart := h'.1
  omega

theorem range_eq_of_within (ha : a.Divides t) (hb : b.Divides t)
    (h : Within a.range.1 a.range.2 c) (h' : Within b.range.1 b.range.2 c) :
    a.range = b.range := by
  rcases ha.eq_or_precedes hb with hba | rfl | hab
  · exact absurd h (not_within_of_precedes hba ha h')
  · rfl
  · exact absurd h' (not_within_of_precedes hab hb h)

/-- From a word, which may be empty, in front of a gap the parts go on with the gap. -/
theorem partsFrom_cutsAfter {ps : List Text} (h : Alternating ps) (front word : Text)
    (hgap : word ≠ [] → ∀ p ∈ ps.head?, isGap p = true) :
    ∃ parts, partsFrom (front ++ word ++ ps.flatten) front.byteSize
        ((cutsAfter (front ++ word) ps).map Cut.range) = .ok parts ∧
      parts.filter (fun p => !p.isEmpty) = [word].filter (fun p => !p.isEmpty) ++ ps := by
  induction ps generalizing front word with
  | nil =>
    refine ⟨[word], ?_, by simp⟩
    simp only [cutsAfter, List.map_nil, partsFrom, List.flatten_nil, List.append_nil,
      sliceFrom_append, ok_bind]
    rfl
  | cons p ps ih =>
    have hne : p ≠ [] := by
      cases h with
      | cons => exact List.cons_ne_nil _ _
    rw [cutsAfter]
    cases hp : isGap p with
    | true =>
      obtain ⟨parts, hparts, hfilter⟩ :=
        ih h.tail (front ++ word ++ p) [] fun hnil => absurd rfl hnil
      have hword := slice_append front word (p ++ ps.flatten)
      have hinside := slice_append (front ++ word) p ps.flatten
      rw [← byteSize_append, ← List.append_assoc] at hword
      rw [List.append_nil, byteSize_append] at hparts
      rw [if_pos rfl, List.flatten_cons, ← List.append_assoc, List.map_cons, partsFrom]
      simp only [Cut.range, hword, hinside, hparts, ok_bind]
      refine ⟨word :: p :: parts, rfl, ?_⟩
      cases word <;> simp [hne, hfilter]
    | false =>
      cases word with
      | cons x word =>
        have hgap := hgap (List.cons_ne_nil x word) p rfl
        rw [hp] at hgap
        cases hgap
      | nil =>
        have hturn : p ≠ [] → ∀ q ∈ ps.head?, isGap q = true := by
          intro _ q hq
          obtain ⟨qs, rfl⟩ := List.head?_eq_some_iff.1 hq
          rw [h.head?_isGap, hp]
          rfl
        obtain ⟨parts, hparts, hfilter⟩ := ih h.tail front p hturn
        exact ⟨parts, by simpa using hparts, by simpa [hne] using hfilter⟩

theorem marksGaps_gapRanges (t : Text) : MarksGaps t (gapRanges t) where
  nonempty := by
    intro r hr
    obtain ⟨a, ha, rfl⟩ := List.mem_map.1 hr
    have := byteSize_pos (mem_cuts_iff.1 ha).gap_ne_nil
    simpa [Cut.range] using this
  apart := by
    refine List.pairwise_map.2 ((pairwise_cuts t).imp_of_mem fun _ hb hab => ?_)
    exact exists_within_of_precedes hab (mem_cuts_iff.1 hb)
  isBlank_of_within := by
    intro r hr c hc hwithin
    obtain ⟨a, ha, rfl⟩ := List.mem_map.1 hr
    exact isBlank_of_within (mem_cuts_iff.1 ha) hc hwithin
  existsUnique_within := by
    intro c hc hblank
    obtain ⟨a, ha, hwithin⟩ := exists_cut_within hc hblank
    refine ⟨a.range, ⟨List.mem_map_of_mem (mem_cuts_iff.2 ha), hwithin⟩, ?_⟩
    rintro r ⟨hr, hr'⟩
    obtain ⟨b, hb, rfl⟩ := List.mem_map.1 hr
    exact range_eq_of_within (mem_cuts_iff.1 hb) ha hr' hwithin
  parts := by
    have halt := alternating_pieces t
    obtain ⟨parts, hparts, hfilter⟩ := partsFrom_cutsAfter halt [] [] fun h => absurd rfl h
    rw [List.nil_append, List.nil_append, flatten_pieces] at hparts
    have hpieces : parts.filter (fun p => !p.isEmpty) = pieces t := hfilter
    refine ⟨parts, hparts, ?_, hpieces ▸ halt⟩
    rw [← List.flatten_filter_not_isEmpty, hpieces, flatten_pieces]

theorem exists_ok_of_bind {α β : Type} {x : Except Fault α} {f : α → Except Fault β} {b : β}
    (h : (x >>= f) = .ok b) : ∃ a, x = .ok a ∧ f a = .ok b := by
  cases x with
  | error => cases h
  | ok a => exact ⟨a, rfl, h⟩

theorem exists_slice_of_partsFrom {parts : List Text} (h : partsFrom t n ranges = .ok parts)
    (hr : r ∈ ranges) : ∃ inside, slice t r.1 r.2 = .ok inside := by
  induction ranges generalizing n parts with
  | nil => cases hr
  | cons s ranges ih =>
    obtain ⟨front, -, h⟩ := exists_ok_of_bind h
    obtain ⟨inside, hinside, h⟩ := exists_ok_of_bind h
    obtain ⟨behind, hbehind, -⟩ := exists_ok_of_bind h
    rcases List.mem_cons.1 hr with rfl | hr
    · exact ⟨inside, hinside⟩
    · exact ih hbehind hr

namespace MarksGaps

theorem eq_or_apart (h : MarksGaps t ranges) (hr : r ∈ ranges) (hs : s ∈ ranges) :
    r = s ∨ r.2 < s.1 ∨ s.2 < r.1 := by
  have hsymm : Std.Symm fun r s : Nat × Nat => r.2 < s.1 ∨ s.2 < r.1 := ⟨fun _ _ h => h.symm⟩
  have hapart : ranges.Pairwise fun r s => r.2 < s.1 ∨ s.2 < r.1 :=
    h.apart.imp fun ⟨_, _, hc⟩ => .inl hc.lt
  exact or_iff_not_imp_left.2 fun hne => hapart.forall hr hs hne

/-- A blank beside a range would stand in another one, which touches the first. -/
theorem isBlank_eq_false {x : Char} (h : MarksGaps t ranges) (hr : r ∈ ranges)
    (hc : (n, x) ∈ chars t) (hbeside : n + x.utf8Size = r.1 ∨ n = r.2) :
    isBlank x = false := by
  rw [← Bool.not_eq_true]
  intro hblank
  obtain ⟨s, ⟨hs, hwithin⟩, -⟩ := h.existsUnique_within (n, x) hc hblank
  have hpos := x.utf8Size_pos
  have hlt := h.nonempty r hr
  have hstart : s.1 ≤ n := hwithin.1
  have hstop : n + x.utf8Size ≤ s.2 := hwithin.2
  rcases h.eq_or_apart hr hs with rfl | hrs | hsr <;> omega

theorem exists_cut (h : MarksGaps t ranges) (hr : r ∈ ranges) :
    ∃ a : Cut, a.Divides t ∧ a.range = r := by
  obtain ⟨parts, hparts, -⟩ := h.parts
  obtain ⟨gap, hslice⟩ := exists_slice_of_partsFrom hparts hr
  obtain ⟨before, after, rfl, hstart, hstop⟩ := slice_eq_ok_iff.1 hslice
  have hlt := h.nonempty r hr
  refine ⟨⟨before, gap, after⟩, ⟨rfl, ?_, ?_, ?_, ?_⟩, ?_⟩
  · rintro rfl
    simp only [byteSize_nil] at hstop
    omega
  · intro x hx
    obtain ⟨n, hc, hwithin⟩ := exists_within_of_mem hx before after
    rw [hstart, hstop] at hwithin
    exact h.isBlank_of_within r hr (n, x) hc hwithin
  · intro x hx
    obtain ⟨front, rfl⟩ := List.getLast?_eq_some_iff.1 hx
    have hc := mem_chars_append front x (gap ++ after)
    rw [List.append_cons, ← List.append_assoc] at hc
    exact h.isBlank_eq_false hr hc (.inl (by simpa using hstart))
  · intro x hx
    obtain ⟨rest, rfl⟩ := List.head?_eq_some_iff.1 hx
    have hc := mem_chars_append (before ++ gap) x rest
    rw [byteSize_append, hstart, hstop] at hc
    exact h.isBlank_eq_false hr hc (.inr rfl)
  · exact Prod.ext hstart (by rw [← hstop, ← hstart]; rfl)

theorem range_mem (h : MarksGaps t ranges) (ha : a.Divides t) : a.range ∈ ranges := by
  obtain ⟨x, hx⟩ := List.exists_mem_of_ne_nil a.gap ha.gap_ne_nil
  obtain ⟨n, hc, hwithin⟩ := exists_within_of_mem hx a.before a.after
  rw [ha.eq] at hc
  obtain ⟨r, ⟨hr, hr'⟩, -⟩ := h.existsUnique_within _ hc (ha.isBlanks_gap x hx)
  obtain ⟨b, hb, rfl⟩ := h.exists_cut hr
  rwa [range_eq_of_within ha hb hwithin hr']

theorem pairwise_lt (h : MarksGaps t ranges) : ranges.Pairwise fun r s => r.1 < s.1 :=
  h.apart.imp_of_mem fun hr _ ⟨_, _, hc⟩ => Nat.lt_trans (h.nonempty _ hr) hc.lt

theorem eq_gapRanges (h : MarksGaps t ranges) : ranges = gapRanges t := by
  have hirrefl : Std.Irrefl fun r s : Nat × Nat => r.1 < s.1 := ⟨fun r => Nat.lt_irrefl r.1⟩
  have hantisymm : Std.Antisymm fun r s : Nat × Nat => r.1 < s.1 :=
    ⟨fun r s hrs hsr => absurd hsr (Nat.lt_asymm hrs)⟩
  refine h.pairwise_lt.eq_of_mem_iff (marksGaps_gapRanges t).pairwise_lt fun {r} => ?_
  constructor
  · intro hr
    obtain ⟨a, ha, rfl⟩ := h.exists_cut hr
    exact List.mem_map_of_mem (mem_cuts_iff.2 ha)
  · intro hr
    obtain ⟨a, ha, rfl⟩ := List.mem_map.1 hr
    exact h.range_mem (mem_cuts_iff.1 ha)

end MarksGaps

/-- The scan by offsets finds the gaps of the text, and no other ranges mark them. -/
theorem gaps_exact (t : Text) :
    gaps t = gapRanges t ∧ ∀ ranges, MarksGaps t ranges ↔ ranges = gapRanges t := by
  refine ⟨gaps_eq t, fun ranges => ⟨MarksGaps.eq_gapRanges, ?_⟩⟩
  rintro rfl
  exact marksGaps_gapRanges t

example : gaps ['é', '\u2003', 'b', ' '] = [(2, 5), (6, 7)] := by decide

end Surface.Offsets
