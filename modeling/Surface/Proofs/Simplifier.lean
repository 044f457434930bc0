import Mathlib.Data.List.Basic
import Surface.Simplifier

/-! # What simplification keeps of a text

A simplified text has its characters from the text, in the same order. It has the boundaries of the
text in their places and between them the simple names, so two texts are simplified alike exactly
if their boundaries and their simple names agree.
-/

namespace Surface.Simplifier

theorem simpleName_suffix (name : Text) : simpleName name <:+ name :=
  (Text.afterLast_suffix '$' _).trans (Text.afterLast_suffix '.' name)

theorem simplifyName_plain {name : Text} (h : ¬ variadicMarker <:+ name) :
    simplifyName name = simpleName name := by
  rw [simplifyName, if_neg (by rwa [List.isSuffixOf_iff_suffix])]

theorem simplifyName_variadic (name : Text) :
    simplifyName (name ++ variadicMarker) = simpleName name ++ variadicMarker := by
  have hsuffix : variadicMarker.isSuffixOf (name ++ variadicMarker) = true :=
    List.isSuffixOf_iff_suffix.2 (List.suffix_append name variadicMarker)
  rw [simplifyName, if_pos hsuffix, List.length_append, Nat.add_sub_cancel, List.take_left]

theorem simplifyName_sublist (name : Text) : (simplifyName name).Sublist name := by
  by_cases h : variadicMarker <:+ name
  · obtain ⟨front, rfl⟩ := h
    rw [simplifyName_variadic]
    exact (simpleName_suffix front).sublist.append_right _
  · rw [simplifyName_plain h]
    exact (simpleName_suffix name).sublist

/-- A text without a qualifier in it. -/
def IsSimple (t : Text) : Prop := '.' ∉ t ∧ '$' ∉ t

theorem IsSimple.of_subset {t u : Text} (h : IsSimple t) (hu : u ⊆ t) : IsSimple u :=
  ⟨fun hc => h.1 (hu hc), fun hc => h.2 (hu hc)⟩

theorem simplifyName_of_isSimple {name : Text} (h : IsSimple name) : simplifyName name = name := by
  have hplain : ¬ variadicMarker <:+ name := fun hsuffix => h.1 (hsuffix.subset (by decide))
  rw [simplifyName_plain hplain, simpleName, Text.afterLast_of_notMem h.1,
    Text.afterLast_of_notMem h.2]

/-- The names of a text with the boundaries between them: the first name, and what is behind it. -/
abbrev Names := Text × List BoundedName

namespace Names

def text (p : Names) : Text := p.1 ++ p.2.flatMap fun b => b.boundary :: b.name

/-- The boundaries of the simplifier divide the text of the names into these names. -/
structure Divide (s : Simplifier) (p : Names) : Prop where
  first : ∀ c ∈ p.1, s.isBoundary c = false
  boundary : ∀ b ∈ p.2, s.isBoundary b.boundary = true
  name : ∀ b ∈ p.2, ∀ c ∈ b.name, s.isBoundary c = false

def simple (p : Names) : Names :=
  (simplifyName p.1, p.2.map fun b => ⟨b.boundary, simplifyName b.name⟩)

theorem Divide.simple {s : Simplifier} {p : Names} (h : p.Divide s) : p.simple.Divide s where
  first c hc := h.first c ((simplifyName_sublist p.1).subset hc)
  boundary := by
    intro b hb
    obtain ⟨a, ha, rfl⟩ := List.mem_map.1 hb
    exact h.boundary a ha
  name := by
    intro b hb c hc
    obtain ⟨a, ha, rfl⟩ := List.mem_map.1 hb
    exact h.name a ha c ((simplifyName_sublist a.name).subset hc)

end Names

variable {s : Simplifier} {b c : Char}

theorem names_cons_boundary (h : s.isBoundary b = true) (t : Text) :
    s.names (b :: t) = ([], ⟨b, (s.names t).1⟩ :: (s.names t).2) := by
  simp [names, h]

theorem names_cons (h : s.isBoundary c = false) (t : Text) :
    s.names (c :: t) = (c :: (s.names t).1, (s.names t).2) := by
  simp [names, h]

theorem names_append (h : s.isBoundary b = true) (x y : Text) :
    s.names (x ++ b :: y) =
      ((s.names x).1, (s.names x).2 ++ ⟨b, (s.names y).1⟩ :: (s.names y).2) := by
  induction x with
  | nil => exact names_cons_boundary h y
  | cons c x ih =>
    rw [List.cons_append]
    cases hc : s.isBoundary c with
    | true => rw [names_cons_boundary hc, names_cons_boundary hc, ih, List.cons_append]
    | false => rw [names_cons hc, names_cons hc, ih]

theorem names_of_solid {name : Text} (h : ∀ c ∈ name, s.isBoundary c = false) :
    s.names name = (name, []) := by
  induction name with
  | nil => rfl
  | cons c name ih =>
    rw [names_cons (h c List.mem_cons_self), ih fun d hd => h d (List.mem_cons_of_mem c hd)]

theorem divide_names (s : Simplifier) (t : Text) : Names.Divide s (s.names t) := by
  induction t with
  | nil => constructor <;> simp [names]
  | cons c t ih =>
    cases hc : s.isBoundary c with
    | true =>
      rw [names_cons_boundary hc]
      constructor
      · simp
      · simpa [hc] using ih.boundary
      · simpa using ⟨ih.first, ih.name⟩
    | false =>
      rw [names_cons hc]
      refine ⟨?_, ih.boundary, ih.name⟩
      simpa [hc] using ih.first

/-- Names without boundaries are found again in the text that the boundaries make of them. -/
theorem names_text {p : Names} (h : p.Divide s) : s.names p.text = p := by
  obtain ⟨first, rest⟩ := p
  induction rest generalizing first with
  | nil =>
    simp only [Names.text, List.flatMap_nil, List.append_nil]
    exact names_of_solid h.first
  | cons b rest ih =>
    have hrest : Names.Divide s (b.name, rest) :=
      ⟨h.name b List.mem_cons_self, fun d hd => h.boundary d (List.mem_cons_of_mem b hd),
        fun d hd => h.name d (List.mem_cons_of_mem b hd)⟩
    have htext : Names.text (first, b :: rest) =
        first ++ b.boundary :: Names.text (b.name, rest) := by
      simp [Names.text]
    rw [htext, names_append (h.boundary b List.mem_cons_self), ih _ hrest, names_of_solid h.first]
    simp

/-- The names of a text as they are displayed. -/
def simpleNames (s : Simplifier) (t : Text) : Names := Names.simple (s.names t)

theorem simplify_eq_text (s : Simplifier) (t : Text) : s.simplify t = (s.simpleNames t).text := by
  simp only [simplify, simpleNames, Names.text, Names.simple, List.flatMap_map]

theorem names_simplify (s : Simplifier) (t : Text) : s.names (s.simplify t) = s.simpleNames t := by
  rw [simplify_eq_text, names_text (p := s.simpleNames t) (divide_names s t).simple]

theorem simplify_eq_iff {t u : Text} :
    s.simplify t = s.simplify u ↔ s.simpleNames t = s.simpleNames u := by
  constructor
  · intro h
    rw [← names_simplify, h, names_simplify]
  · intro h
    rw [simplify_eq_text, h, simplify_eq_text]

theorem simplify_append (h : s.isBoundary b = true) (x y : Text) :
    s.simplify (x ++ b :: y) = s.simplify x ++ b :: s.simplify y := by
  simp only [simplify, names_append h, List.flatMap_append, List.flatMap_cons, List.append_assoc,
    List.cons_append]

def IsToken (s : Simplifier) (t : Text) : Prop := ∀ c ∈ t, s.isBoundary c = false

instance (s : Simplifier) (t : Text) : Decidable (s.IsToken t) :=
  List.decidableBAll (fun c => s.isBoundary c = false) t

/-- A text is a token, or a token with a boundary and a text behind it. -/
theorem token_induction {P : Text → Prop} (token : ∀ t, s.IsToken t → P t)
    (boundary : ∀ x b y, s.IsToken x → s.isBoundary b = true → P y → P (x ++ b :: y)) (t : Text) :
    P t := by
  have collect : ∀ x, s.IsToken x → P (x ++ t) := by
    induction t with
    | nil =>
      intro x hx
      rw [List.append_nil]
      exact token x hx
    | cons c t ih =>
      intro x hx
      cases hc : s.isBoundary c with
      | true =>
        apply boundary x c t hx hc
        exact ih [] (by simp [IsToken])
      | false =>
        rw [List.append_cons]
        apply ih
        intro d hd
        rcases List.mem_append.1 hd with hd | hd
        · exact hx d hd
        · rwa [List.mem_singleton.1 hd]
  exact collect [] (by simp [IsToken])

theorem IsToken.simplify_eq {t : Text} (h : s.IsToken t) : s.simplify t = simplifyName t := by
  simp [Simplifier.simplify, names_of_solid h]

theorem simplify_sublist (s : Simplifier) (t : Text) : (s.simplify t).Sublist t := by
  induction t using token_induction (s := s) with
  | token t ht =>
    rw [ht.simplify_eq]
    exact simplifyName_sublist t
  | boundary x b y hx hb ih =>
    rw [simplify_append hb, hx.simplify_eq]
    exact (simplifyName_sublist x).append (ih.cons_cons b)

theorem notMem_simplify {c : Char} {t : Text} (h : c ∉ t) (s : Simplifier) :
    c ∉ s.simplify t := fun hc => h ((simplify_sublist s t).subset hc)

theorem simplify_of_isSimple {t : Text} (h : IsSimple t) (s : Simplifier) : s.simplify t = t := by
  induction t using token_induction (s := s) with
  | token t ht => rw [ht.simplify_eq, simplifyName_of_isSimple h]
  | boundary x b y hx hb ih =>
    have hfront : IsSimple x := h.of_subset (List.subset_append_left x _)
    have hbehind : IsSimple y := h.of_subset (by simp)
    rw [simplify_append hb, hx.simplify_eq, simplifyName_of_isSimple hfront, ih hbehind]

end Surface.Simplifier
