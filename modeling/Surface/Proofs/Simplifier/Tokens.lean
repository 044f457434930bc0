import Surface.Proofs.Simplifier

/-! # Simplification token by token

The boundaries of a text stand between its tokens. Simplification keeps the boundaries and works on
each token by itself: of a token it keeps the longest end without a qualifier, and the mark of
variadic parameters behind that.
-/

namespace Surface

namespace Text

/-- An end of the text without `c` reaches no further than to the last `c`. -/
theorem suffix_afterLast {c : Char} {v t : Text} (hv : v <:+ t) (hc : c ∉ v) :
    v <:+ afterLast c t := by
  unfold afterLast
  split
  next upTo rest h =>
    obtain ⟨rfl, hlast, -⟩ := splitAfterLast?_eq_some h
    obtain ⟨front, rfl⟩ := List.getLast?_eq_some_iff.1 hlast
    have hrest : c :: rest <:+ front ++ [c] ++ rest := ⟨front, by simp⟩
    rcases List.suffix_or_suffix_of_suffix hv hrest with hshort | hlong
    · rcases List.suffix_cons_iff.1 hshort with rfl | hsuffix
      · exact absurd List.mem_cons_self hc
      · exact hsuffix
    · exact absurd (hlong.subset List.mem_cons_self) hc
  next => exact hv

theorem byteSize_le_of_sublist {s t : Text} (h : s.Sublist t) : byteSize s ≤ byteSize t := by
  induction h with
  | slnil => exact Nat.le_refl 0
  | cons c _ ih =>
    rw [byteSize_cons]
    omega
  | cons_cons c _ ih =>
    rw [byteSize_cons, byteSize_cons]
    omega

end Text

namespace Simplifier

/-- No end of the name that is simple is longer than the simple end `w`. -/
structure IsSimpleEnd (w name : Text) : Prop where
  suffix : w <:+ name
  isSimple : IsSimple w
  longest : ∀ v, v <:+ name → IsSimple v → v.length ≤ w.length

/-- A name is shortened to its longest simple end, and the mark behind a name stays. -/
inductive Shortens : Text → Text → Prop
  | plain {name w : Text} : ¬ variadicMarker <:+ name → IsSimpleEnd w name → Shortens name w
  | variadic {name w : Text} :
      IsSimpleEnd w name → Shortens (name ++ variadicMarker) (w ++ variadicMarker)

variable {s : Simplifier} {b : Char} {name w t : Text}

theorem isSimpleEnd_simpleName (name : Text) : IsSimpleEnd (simpleName name) name where
  suffix := simpleName_suffix name
  isSimple :=
    ⟨fun h => Text.notMem_afterLast '.' name ((Text.afterLast_suffix '$' _).subset h),
      Text.notMem_afterLast '$' _⟩
  longest _ hv hsimple :=
    (Text.suffix_afterLast (Text.suffix_afterLast hv hsimple.1) hsimple.2).length_le

theorem IsSimple.isSimpleEnd (h : IsSimple name) : IsSimpleEnd name name :=
  ⟨List.suffix_refl name, h, fun _ hv _ => hv.length_le⟩

theorem IsSimpleEnd.eq {v : Text} (hv : IsSimpleEnd v name) (hw : IsSimpleEnd w name) : v = w := by
  have hvw := hw.longest v hv.suffix hv.isSimple
  have hwv := hv.longest w hw.suffix hw.isSimple
  apply (List.suffix_of_suffix_length_le hv.suffix hw.suffix hvw).eq_of_length
  omega

theorem shortens_iff : Shortens name w ↔ simplifyName name = w := by
  constructor
  · intro h
    cases h with
    | plain hplain hw =>
      rw [simplifyName_plain hplain]
      exact (isSimpleEnd_simpleName name).eq hw
    | @variadic front w hw => rw [simplifyName_variadic, (isSimpleEnd_simpleName front).eq hw]
  · rintro rfl
    by_cases h : variadicMarker <:+ name
    · obtain ⟨front, rfl⟩ := h
      rw [simplifyName_variadic]
      exact .variadic (isSimpleEnd_simpleName front)
    · rw [simplifyName_plain h]
      exact .plain h (isSimpleEnd_simpleName name)

theorem Shortens.suffix (h : Shortens name w) : w <:+ name := by
  cases h with
  | plain _ hw => exact hw.suffix
  | variadic hw =>
    obtain ⟨front, rfl⟩ := hw.suffix
    exact ⟨front, by simp⟩

/-- What stands between the boundaries of a text, from the first token to the last. -/
def tokens (s : Simplifier) (t : Text) : List Text := t.splitOnP s.isBoundary

theorem IsToken.of_subset {u : Text} (h : s.IsToken t) (hu : u ⊆ t) : s.IsToken u :=
  fun c hc => h c (hu hc)

theorem IsToken.simplify (h : s.IsToken t) : s.IsToken (s.simplify t) :=
  h.of_subset (simplify_sublist s t).subset

theorem IsToken.tokens_eq (h : s.IsToken t) : s.tokens t = [t] := List.splitOnP_eq_singleton h

theorem IsToken.boundaries_eq (h : s.IsToken t) : s.boundaries t = [] := by
  rw [boundaries, List.filter_eq_nil_iff]
  intro c hc
  simp [h c hc]

theorem tokens_append (h : s.isBoundary b = true) (x y : Text) :
    s.tokens (x ++ b :: y) = s.tokens x ++ s.tokens y := List.splitOnP_append_cons x y h

theorem boundaries_append (h : s.isBoundary b = true) (x y : Text) :
    s.boundaries (x ++ b :: y) = s.boundaries x ++ b :: s.boundaries y := by
  rw [boundaries, List.filter_append, List.filter_cons_of_pos h, boundaries, boundaries]

theorem isToken_of_mem_tokens (h : w ∈ s.tokens t) : s.IsToken w := by
  induction t using token_induction (s := s) with
  | token t ht =>
    rw [ht.tokens_eq] at h
    rwa [List.mem_singleton.1 h]
  | boundary x b y hx hb ih =>
    rw [tokens_append hb, hx.tokens_eq] at h
    rcases List.mem_cons.1 h with rfl | h
    · exact hx
    · exact ih h

theorem IsToken.simplify_eq_iff (h : s.IsToken t) : s.simplify t = w ↔ Shortens t w := by
  rw [h.simplify_eq, shortens_iff]

theorem IsToken.simplify_suffix (h : s.IsToken t) : s.simplify t <:+ t :=
  (h.simplify_eq_iff.1 rfl).suffix

theorem boundaries_simplify (s : Simplifier) (t : Text) :
    s.boundaries (s.simplify t) = s.boundaries t := by
  induction t using token_induction (s := s) with
  | token t ht => rw [ht.simplify.boundaries_eq, ht.boundaries_eq]
  | boundary x b y hx hb ih =>
    rw [simplify_append hb, boundaries_append hb, boundaries_append hb, ih,
      hx.simplify.boundaries_eq, hx.boundaries_eq]

theorem tokens_simplify (s : Simplifier) (t : Text) :
    s.tokens (s.simplify t) = (s.tokens t).map s.simplify := by
  induction t using token_induction (s := s) with
  | token t ht =>
    rw [ht.simplify.tokens_eq, ht.tokens_eq]
    rfl
  | boundary x b y hx hb ih =>
    rw [simplify_append hb, tokens_append hb, tokens_append hb, ih, hx.simplify.tokens_eq,
      hx.tokens_eq]
    rfl

/-- Simplification goes through boundaries, and a token is shortened. So all boundaries stay, each
token gives an end of itself, and no text gets longer. -/
theorem simplify_tokenwise (s : Simplifier) :
    (∀ x b y, s.isBoundary b = true →
      s.simplify (x ++ b :: y) = s.simplify x ++ b :: s.simplify y) ∧
    (∀ t w, s.IsToken t → (s.simplify t = w ↔ Shortens t w)) ∧
    ∀ t, s.boundaries (s.simplify t) = s.boundaries t ∧
      s.tokens (s.simplify t) = (s.tokens t).map s.simplify ∧
      (∀ w ∈ s.tokens t, s.simplify w <:+ w) ∧
      (s.simplify t).length ≤ t.length ∧
      Text.byteSize (s.simplify t) ≤ Text.byteSize t := by
  refine ⟨fun x b y hb => simplify_append hb x y, fun t w ht => ht.simplify_eq_iff, fun t => ?_⟩
  have hsublist := simplify_sublist s t
  refine ⟨boundaries_simplify s t, tokens_simplify s t, fun w hw => ?_, hsublist.length_le,
    Text.byteSize_le_of_sublist hsublist⟩
  exact (isToken_of_mem_tokens hw).simplify_suffix

/-- Of four points in a row the last three are the mark, and nothing is left of the name. -/
theorem simplify_tokenwise_list :
    let s := Dialect.classic.simplifier
    s.isBoundary '<' = true ∧ s.IsToken "@b.Set$Node....".toList ∧
    "@b.Set$Node....".toList ∈ s.tokens "a.List<@b.Set$Node....>".toList ∧
    s.simplify "a.List<@b.Set$Node....>".toList =
      s.simplify "a.List".toList ++ '<' :: s.simplify "@b.Set$Node....>".toList ∧
    Shortens "@b.Set$Node....".toList "...".toList ∧
    s.simplify "@b.Set$Node....".toList <:+ "@b.Set$Node....".toList := by
  intro s
  have hboundary : s.isBoundary '<' = true := by decide
  have htoken : s.IsToken "@b.Set$Node....".toList := by decide
  have hmem : "@b.Set$Node....".toList ∈ s.tokens "a.List<@b.Set$Node....>".toList := by decide
  obtain ⟨happend, hshortens, hall⟩ := simplify_tokenwise s
  obtain ⟨-, -, hsuffix, -⟩ := hall "a.List<@b.Set$Node....>".toList
  exact ⟨hboundary, htoken, hmem, happend "a.List".toList '<' _ hboundary,
    (hshortens _ _ htoken).1 (by decide), hsuffix _ hmem⟩

end Simplifier
end Surface
