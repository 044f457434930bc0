import Surface.Proofs.Simplifier.Tokens

/-! # Simplified texts

A text is simplified already if each of its tokens is simple, but for a mark of variadic parameters
at its end. Simplification makes all tokens so, and more boundaries find nothing left to do: they
cut such tokens into tokens of the same form.
-/

namespace Surface.Simplifier

/-- A text without a qualifier in it, perhaps with the mark of variadic parameters behind. -/
def IsNormal (t : Text) : Prop := ∃ w, IsSimple w ∧ (t = w ∨ t = w ++ variadicMarker)

variable {s s' : Simplifier} {t : Text}

theorem isBoundary_point (s : Simplifier) : s.isBoundary '.' = false := by
  obtain ⟨_ | _⟩ := s <;> decide

theorem IsToken.append_variadic (h : s.IsToken t) : s.IsToken (t ++ variadicMarker) := by
  intro c hc
  rcases List.mem_append.1 hc with hc | hc
  · exact h c hc
  · have hpoints : variadicMarker = List.replicate 3 '.' := rfl
    rw [hpoints] at hc
    rw [List.eq_of_mem_replicate hc]
    exact isBoundary_point s

/-- Whatever boundaries a normal text has, nothing in it is a qualifier. -/
theorem simplify_of_isNormal (h : IsNormal t) (s : Simplifier) : s.simplify t = t := by
  obtain ⟨w, hw, rfl | rfl⟩ := h
  · exact simplify_of_isSimple hw s
  · induction w using token_induction (s := s) with
    | token w htoken => exact htoken.append_variadic.simplify_eq_iff.2 (.variadic hw.isSimpleEnd)
    | boundary x b y _ hb ih =>
      have hx : IsSimple x := hw.of_subset (List.subset_append_left x _)
      have hy : IsSimple y := hw.of_subset (by simp)
      rw [List.append_assoc, List.cons_append, simplify_append hb, simplify_of_isSimple hx, ih hy]

theorem Shortens.isNormal {name w : Text} (h : Shortens name w) : IsNormal w := by
  cases h with
  | plain _ hw => exact ⟨w, hw.isSimple, .inl rfl⟩
  | variadic hw => exact ⟨_, hw.isSimple, .inr rfl⟩

theorem IsToken.isNormal_simplify (h : s.IsToken t) : IsNormal (s.simplify t) :=
  (h.simplify_eq_iff.1 rfl).isNormal

/-- A simplifier with further boundaries leaves simplified texts as they are. -/
theorem simplify_simplify (h : ∀ c, s.isBoundary c = true → s'.isBoundary c = true) (t : Text) :
    s'.simplify (s.simplify t) = s.simplify t := by
  induction t using token_induction (s := s) with
  | token t ht => exact simplify_of_isNormal ht.isNormal_simplify s'
  | boundary x b y hx hb ih =>
    rw [simplify_append hb, simplify_append (h b hb), ih,
      simplify_of_isNormal hx.isNormal_simplify s']

theorem isBoundary_extended {c : Char} (h : Dialect.classic.simplifier.isBoundary c = true) :
    Dialect.extended.simplifier.isBoundary c = true := by
  simp_all [isBoundary, Dialect.simplifier]

theorem isNormal_of_mem_tokens (h : s.simplify t = t) : ∀ w ∈ s.tokens t, IsNormal w := by
  have htokens := tokens_simplify s t
  rw [h] at htokens
  intro w hw
  rw [htokens] at hw
  obtain ⟨v, hv, rfl⟩ := List.mem_map.1 hw
  exact (isToken_of_mem_tokens hv).isNormal_simplify

theorem simplify_of_tokens (h : ∀ w ∈ s.tokens t, IsNormal w) : s.simplify t = t := by
  induction t using token_induction (s := s) with
  | token t ht =>
    rw [ht.tokens_eq] at h
    exact simplify_of_isNormal (h t List.mem_cons_self) s
  | boundary x b y hx hb ih =>
    rw [tokens_append hb, hx.tokens_eq, List.singleton_append, List.forall_mem_cons] at h
    rw [simplify_append hb, simplify_of_isNormal h.1, ih h.2]

/-- A text is simplified once and for all: the texts that stay as they are have normal tokens only,
and a simplified text is one of them, also where `@` becomes a boundary only afterwards. -/
theorem simplify_normalForm (s : Simplifier) (t : Text) :
    s.simplify (s.simplify t) = s.simplify t ∧
    (s.simplify t = t ↔ ∀ w ∈ s.tokens t, IsNormal w) ∧
    Dialect.extended.simplifier.simplify (Dialect.classic.simplifier.simplify t) =
      Dialect.classic.simplifier.simplify t :=
  ⟨simplify_simplify (fun _ h => h) t, ⟨isNormal_of_mem_tokens, simplify_of_tokens⟩,
    simplify_simplify (fun _ => isBoundary_extended) t⟩

/-- An `@` that is no boundary stays in the name when it is simplified, and parts it afterwards. -/
example : Dialect.classic.simplifier.simplify "a@b.c@D...".toList = "c@D...".toList := by decide

end Surface.Simplifier
