import Surface.Proofs.Declaration.Shape

/-! # Displays that are declarations

Nothing can be left out around a declarator: it starts with a word that is no modifier, it ends with
a word, and it has no initializer. The display of a member with its type is a declarator up to the
end of its signature. No earlier form fits this part unless it fits the whole, so the display
declares the member again and is displayed as itself.
-/

namespace Surface.Declaration

open Text

/-- No blanks, modifiers or initializer stand around the text. -/
structure IsCanonical (b : Text) : Prop where
  solidAhead : SolidAhead b
  solidBehind : SolidBehind b
  noModifier : ¬ StartsWithModifier b
  noInitializer : ¬ HasInitializer b

variable {policy : DisplayPolicy} {b t rest before signature name : Text} {c : Classification}

theorem StartsWithModifier.append (h : StartsWithModifier t) (rest : Text) :
    StartsWithModifier (t ++ rest) := by
  obtain ⟨m, hm, c, behind, hc, rfl⟩ := h
  exact ⟨m, hm, c, behind ++ rest, hc, by simp⟩

/-- A front that ends with another word than `=` has no initializer of its own. -/
theorem HasInitializer.append (h : HasInitializer t) (hlast : t.getLast? ≠ some '=')
    (rest : Text) : HasInitializer (t ++ rest) := by
  obtain ⟨front, behind, rfl, hne, hfront, hbehind⟩ := h
  have hbne : behind ≠ [] := by
    rintro rfl
    simp at hlast
  refine ⟨front, behind ++ rest, by simp, hne, hfront, ?_⟩
  cases behind with
  | nil => exact absurd rfl hbne
  | cons c behind => exact hbehind

theorem IsCanonical.front (h : IsCanonical (t ++ rest)) (hsolid : SolidBehind t)
    (hlast : t.getLast? ≠ some '=') : IsCanonical t where
  solidAhead := by
    cases t with
    | nil => simp [SolidAhead]
    | cons c t => exact h.solidAhead
  solidBehind := hsolid
  noModifier hm := h.noModifier (hm.append rest)
  noInitializer hinit := h.noInitializer (hinit.append hlast rest)

theorem isCanonical_declarator (line : Text) : IsCanonical (declarator line) := by
  obtain ⟨r, hr, hb⟩ := isDeclarator_iff.2 (rfl : declarator line = declarator line)
  obtain ⟨behind, hbehind⟩ : declarator line <+: r := by
    rw [cutsInitializer_iff.1 hb]
    exact dropInitializer_isPrefix r
  subst hbehind
  constructor
  · cases hd : declarator line with
    | nil => simp [SolidAhead]
    | cons c d =>
      have hahead := hr.solidAhead
      rw [hd] at hahead
      exact hahead
  · exact solidBehind_declarator line
  · exact fun hm => hr.noModifier (hm.append behind)
  · exact hb.noInitializer

/-- Canonical texts are those that are their own declarators. -/
theorem isCanonical_iff : IsCanonical b ↔ declarator b = b := by
  constructor
  · intro h
    rw [declarator, trim_eq_self h.solidAhead h.solidBehind,
      stripModifiers_of_noModifier h.solidAhead h.noModifier,
      dropInitializer_of_not_hasInitializer h.noInitializer]
  · intro h
    rw [← h]
    exact isCanonical_declarator b

/-- The name of a type may go on behind the front. -/
theorem DeclaresType.append (h : DeclaresType t name) (rest : Text) :
    ∃ longer, DeclaresType (t ++ rest) longer := by
  obtain ⟨keyword, hmem, gap, behind, rfl, hne, hgap, hname, -⟩ := h
  refine ⟨name ++ leadingWord (behind ++ rest), keyword, hmem, gap,
    afterLeadingWord (behind ++ rest), ?_, hne, hgap, ⟨?_, ?_⟩, blankAhead_afterLeadingWord _⟩
  · simp
  · simp [hname.ne_nil]
  · exact isSolid_append.2 ⟨hname.isSolid, isSolid_leadingWord _⟩

theorem not_declaresType_of_append (h : ∀ longer, ¬ DeclaresType (t ++ rest) longer)
    (name : Text) : ¬ DeclaresType t name := by
  intro hname
  obtain ⟨longer, hlonger⟩ := hname.append rest
  exact h longer hlonger

theorem SignatureAt.append (h : SignatureAt t before signature) (hrest : ')' ∉ rest) :
    SignatureAt (t ++ rest) before signature := by
  obtain ⟨behind, rfl, hsignature⟩ := h.parts
  refine ⟨h.blankBehind, behind ++ rest, by simp, hsignature.parts, ?_⟩
  simp [hsignature.last, hrest]

/-- Where a signature begins behind the first word, there is an earliest one. -/
theorem SignatureAt.exists_declaresMethod (h : SignatureAt b before signature)
    (hne : before ≠ []) : ∃ earliest, DeclaresMethod b earliest := by
  obtain ⟨a, ha, -, behind, hsignature⟩ := h.exists_cut hne
  cases hread : readMethod? default b with
  | some c =>
    obtain ⟨earlier, earliest, hat, -⟩ := readMethod?_eq_some_iff.1 hread
    exact ⟨earliest, earlier, hat⟩
  | none =>
    rw [readMethod?, List.findSome?_eq_none_iff] at hread
    have hnone := hread a (mem_cuts_iff.2 ha)
    simp [hsignature] at hnone

/-- The text can be cut off behind a signature. -/
theorem SignatureAt.exists_front (h : SignatureAt b before signature) :
    ∃ rest, b = before ++ signature ++ rest ∧ ')' ∉ rest ∧
      SignatureAt (before ++ signature) before signature := by
  obtain ⟨rest, hb, hsignature⟩ := h.parts
  refine ⟨rest, hb, hsignature.last, h.blankBehind, [], by simp, hsignature.parts, ?_⟩
  simp

theorem MethodAt.of_append (h : MethodAt (t ++ rest) before signature)
    (hat : SignatureAt t before signature) (hrest : ')' ∉ rest) : MethodAt t before signature where
  ne_nil := h.ne_nil
  signatureAt := hat
  earliest front other hne hother := h.earliest front other hne (hother.append hrest)

theorem SignatureAt.isCanonical (h : SignatureAt b before signature) (hb : IsCanonical b) :
    IsCanonical (before ++ signature) := by
  obtain ⟨rest, rfl, -⟩ := h.exists_front
  have hlast : (before ++ signature).getLast? = some ')' := by
    simp [List.getLast?_append, h.admits.2]
  apply hb.front
  · intro c hc
    rw [hlast] at hc
    cases hc
    decide
  · simp [hlast]

/-- With its type a member is displayed as a declarator, which is read as the member again: a
method's signature in the front of the text would begin one in the whole. -/
theorem readDeclarator?_short (hb : IsCanonical b) (hdecorate : policy.decorateShortDisplay = true)
    (h : readDeclarator? policy b = some c) (hkind : c.kind ≠ .type) :
    IsCanonical c.short ∧ readDeclarator? policy c.short = some c := by
  rcases readDeclarator?_eq_some_iff.1 h with
    htype | ⟨notype, hmethod | ⟨nomethod, hconstructor | ⟨-, hfield⟩⟩⟩
  · exact absurd (declaresType_of_readType? htype).1 hkind
  · obtain ⟨before, signature, hat, rfl⟩ := readMethod?_eq_some_iff.1 hmethod
    have hcanonical := hat.signatureAt.isCanonical hb
    obtain ⟨rest, rfl, hrest, hfront⟩ := hat.signatureAt.exists_front
    simp only [hdecorate, if_true]
    refine ⟨hcanonical, readDeclarator?_eq_some_iff.2
      (.inr ⟨not_declaresType_of_append notype, .inl ?_⟩)⟩
    apply readMethod?_eq_some_iff.2
    exact ⟨before, signature, hat.of_append hfront hrest, by simp [hdecorate]⟩
  · obtain ⟨signature, hat, rfl⟩ := readConstructor?_eq_some_iff.1 hconstructor
    have hcanonical := SignatureAt.isCanonical hat hb
    obtain ⟨rest, rfl, hrest, hfront⟩ := SignatureAt.exists_front hat
    refine ⟨hcanonical, readDeclarator?_eq_some_iff.2
      (.inr ⟨not_declaresType_of_append notype, .inr ⟨?_, .inl ?_⟩⟩)⟩
    · rintro other ⟨front, hother⟩
      obtain ⟨method, hmethod⟩ :=
        (hother.signatureAt.append hrest).exists_declaresMethod hother.ne_nil
      exact nomethod method hmethod
    · exact readConstructor?_eq_some_iff.2 ⟨signature, hfront, rfl⟩
  · obtain ⟨name, -, rfl⟩ := (readField?_eq_some_iff hb.solidBehind).1 hfield
    simp only [hdecorate, if_true] at h ⊢
    exact ⟨hb, h⟩

/-- A member that is displayed with its type is classified from its display as from its line. -/
theorem classify_short (hdecorate : policy.decorateShortDisplay = true) {line : Text}
    (h : classify policy line = .ok c) (hkind : c.kind ≠ .type) :
    classify policy c.short = .ok c := by
  rw [classify_eq_ok_iff] at h ⊢
  obtain ⟨hcanonical, hread⟩ :=
    readDeclarator?_short (isCanonical_declarator line) hdecorate h hkind
  rwa [isCanonical_iff.1 hcanonical]

/-- The parenthesis left open in front of the value is no part of the display. -/
theorem classify_short_put :
    let line := "final a (b) put(K k) throws E( = f(x)".toList
    let put : Classification :=
      ⟨.method, "put(K k)".toList, "a (b) put(K k)".toList, "method".toList⟩
    (default : DisplayPolicy).decorateShortDisplay = true ∧ classify default line = .ok put ∧
    put.kind ≠ .type ∧ classify default put.short = .ok put := by
  intro line put
  have hline : classify default line = .ok put := classify_eq_ok_iff.2 (by decide +kernel)
  exact ⟨rfl, hline, by decide, classify_short rfl hline (by decide)⟩

end Surface.Declaration
