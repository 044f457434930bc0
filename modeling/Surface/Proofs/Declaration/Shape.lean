import Surface.Proofs.Declaration.Grammar

/-! # The shape of signatures

A signature is a part of the declarator that it is read from, and its kind shows in it: the names of
types and fields are single words, and the signatures of constructors and methods run from a name
through a closing parenthesis. However a declaration is displayed, its signature ends the display,
and its label is one of a few words.
-/

namespace Surface

open Text

/-- What the signatures of the kind look like. -/
def Kind.Admits : Kind → Text → Prop
  | type, signature => IsWord signature
  | field, signature => IsWord signature ∧ '(' ∉ signature ∧ ')' ∉ signature
  | constructor, signature | method, signature =>
    '(' ∈ signature.tail ∧ signature.getLast? = some ')'

theorem Kind.Admits.ne_nil {kind : Kind} {signature : Text} (h : kind.Admits signature) :
    signature ≠ [] := by
  rintro rfl
  cases kind with
  | type => exact IsWord.ne_nil h rfl
  | field => exact h.1.ne_nil rfl
  | constructor | method => cases h.2

namespace Declaration

variable {policy : DisplayPolicy} {b before signature rest name : Text} {kind : Kind}
  {c : Classification}

theorem IsSignature.admits (h : IsSignature signature rest) :
    '(' ∈ signature.tail ∧ signature.getLast? = some ')' := by
  obtain ⟨c, name, parameters, rfl, -, -⟩ := h.parts
  constructor
  · simp
  · rw [List.getLast?_append]
    rfl

theorem SignatureAt.isInfix (h : SignatureAt b before signature) : signature <:+: b := by
  obtain ⟨rest, rfl, -⟩ := h.parts
  exact ⟨before, rest, rfl⟩

theorem SignatureAt.admits (h : SignatureAt b before signature) :
    '(' ∈ signature.tail ∧ signature.getLast? = some ')' := by
  obtain ⟨rest, -, hsignature⟩ := h.parts
  exact hsignature.admits

theorem Declares.isInfix (h : Declares b kind signature) : signature <:+: b := by
  cases h with
  | type htype =>
    obtain ⟨keyword, -, gap, rest, rfl, -⟩ := htype
    exact ⟨keyword ++ gap, rest, rfl⟩
  | method _ hmethod =>
    obtain ⟨before, hat⟩ := hmethod
    exact hat.signatureAt.isInfix
  | constructor _ _ hconstructor => exact hconstructor.isInfix
  | field _ _ _ hfield =>
    obtain ⟨before, -, rfl, -⟩ := hfield
    exact (List.suffix_append before signature).isInfix

theorem Declares.admits (h : Declares b kind signature) : kind.Admits signature := by
  cases h with
  | type htype =>
    obtain ⟨_, _, _, _, _, _, _, hname, _⟩ := htype
    exact hname
  | method _ hmethod =>
    obtain ⟨before, hat⟩ := hmethod
    exact hat.signatureAt.admits
  | constructor _ _ hconstructor => exact hconstructor.admits
  | field _ _ _ hfield =>
    obtain ⟨_, _, _, _, hname, hparens⟩ := hfield
    exact ⟨hname, hparens⟩

def labels : List Text :=
  ["annotation", "class", "interface", "enum", "constructor", "field", "method"]

/-- A type is shown by its name, which may be marked. -/
theorem display_of_readType? (h : readType? policy b = some c) :
    (c.short = c.signature ∨ c.short = '@' :: c.signature) ∧ c.label ∈ labels := by
  unfold readType? at h
  dsimp only at h
  split at h
  next hcond =>
    cases h
    constructor
    · dsimp only
      split
      · exact .inr rfl
      · exact .inl rfl
    · have hkeyword : leadingWord b ∈ typeKeywords := by simpa using hcond.1
      have hlabels : ∀ keyword ∈ typeKeywords, keyword ∈ labels := by decide
      dsimp only
      split
      · decide
      · split
        · exact hlabels _ hkeyword
        · decide
  next => cases h

/-- What is shown in front of a signature is the mark, or the display is a part of the declarator:
methods and fields are shown with all that stands in front, or with nothing of it. -/
theorem exists_front_short (hb : SolidBehind b) (h : readDeclarator? policy b = some c) :
    ∃ front, c.short = front ++ c.signature ∧ (front = ['@'] ∨ c.short <:+: b) := by
  have hsignature : c.signature <:+: b := ((declares_iff hb policy).2 ⟨c, h, rfl, rfl⟩).isInfix
  have hdecorated : ∀ {before : Text}, before ++ c.signature <:+: b →
      (c.short = if policy.decorateShortDisplay then before ++ c.signature else c.signature) →
      ∃ front, c.short = front ++ c.signature ∧ (front = ['@'] ∨ c.short <:+: b) := by
    intro before hbefore hshort
    split at hshort
    · exact ⟨before, hshort, .inr (hshort ▸ hbefore)⟩
    · exact ⟨[], hshort, .inr (hshort ▸ hsignature)⟩
  rcases readDeclarator?_eq_some_iff.1 h with htype | ⟨-, hmethod | ⟨-, hconstructor | ⟨-, hfield⟩⟩⟩
  · rcases (display_of_readType? htype).1 with hshort | hshort
    · exact ⟨[], hshort, .inr (hshort ▸ hsignature)⟩
    · exact ⟨['@'], hshort, .inl rfl⟩
  · obtain ⟨before, signature, hat, rfl⟩ := readMethod?_eq_some_iff.1 hmethod
    obtain ⟨rest, rfl, -⟩ := hat.signatureAt.parts
    exact hdecorated (List.prefix_append _ rest).isInfix rfl
  · obtain ⟨signature, -, rfl⟩ := readConstructor?_eq_some_iff.1 hconstructor
    exact ⟨[], rfl, .inr hsignature⟩
  · obtain ⟨name, ⟨before, -, rfl, -⟩, rfl⟩ := (readField?_eq_some_iff hb).1 hfield
    exact hdecorated List.infix_rfl rfl

theorem signature_suffix_short (hb : SolidBehind b) (h : readDeclarator? policy b = some c) :
    c.signature <:+ c.short := by
  obtain ⟨front, hfront, -⟩ := exists_front_short hb h
  exact ⟨front, hfront.symm⟩

theorem label_mem_labels (hb : SolidBehind b) (h : readDeclarator? policy b = some c) :
    c.label ∈ labels := by
  have hkind : ∀ kind : Kind, kind.label ∈ labels := fun kind => by cases kind <;> decide
  rcases readDeclarator?_eq_some_iff.1 h with htype | ⟨-, hmethod | ⟨-, hconstructor | ⟨-, hfield⟩⟩⟩
  · exact (display_of_readType? htype).2
  · obtain ⟨before, signature, -, rfl⟩ := readMethod?_eq_some_iff.1 hmethod
    exact hkind .method
  · obtain ⟨signature, -, rfl⟩ := readConstructor?_eq_some_iff.1 hconstructor
    exact hkind .constructor
  · obtain ⟨name, -, rfl⟩ := (readField?_eq_some_iff hb).1 hfield
    exact hkind .field

end Declaration
end Surface
