import Surface.Text.Pieces

/-! # Declarators

The declarator of a line is the part that says what is declared: the modifiers in front of it and
an initializer behind it are left out.
-/

namespace Surface.Declaration

open Text

def modifiers : List Text :=
  ["public", "protected", "private", "static", "abstract", "final", "native", "strictfp",
    "synchronized", "transient", "volatile", "default"]

/-- Drops modifiers with the gaps behind them, as long as the pieces start with one. -/
def dropModifiers : List Text → List Text
  | word :: gap :: rest =>
    if word ∈ modifiers then dropModifiers rest else word :: gap :: rest
  | ps => ps

/-- The text behind its leading modifiers; a modifier counts only if a gap follows it. -/
def stripModifiers (t : Text) : Text := (dropModifiers (pieces (trimStart t))).flatten

/-- The first cut whose gap is followed by the word `=`. -/
def initializerCut? (t : Text) : Option Cut := (cuts t).find? fun c => leadingWord c.after == ['=']

def initializerStart? (t : Text) : Option Nat := (initializerCut? t).map fun c => c.before.byteSize

/-- The text without its initializer and the gap in front of that. -/
def dropInitializer (t : Text) : Text :=
  match initializerCut? t with
  | some c => c.before
  | none => t

def declarator (line : Text) : Text := dropInitializer (stripModifiers (trim line))

theorem dropModifiers_suffix (ps : List Text) : dropModifiers ps <:+ ps := by
  fun_induction dropModifiers ps with
  | case1 word gap rest h ih => exact ih.trans ⟨[word, gap], rfl⟩
  | case2 => exact List.suffix_refl _
  | case3 => exact List.suffix_refl _

theorem stripModifiers_suffix (t : Text) : stripModifiers t <:+ t := by
  obtain ⟨front, h⟩ := dropModifiers_suffix (pieces (trimStart t))
  refine List.IsSuffix.trans ⟨front.flatten, ?_⟩ (trimStart_suffix t)
  rw [stripModifiers, ← List.flatten_append, h, flatten_pieces]

theorem dropInitializer_isPrefix (t : Text) : dropInitializer t <+: t := by
  unfold dropInitializer
  split
  next c h => exact ⟨c.gap ++ c.after, by simpa using eq_of_mem_cuts (List.mem_of_find?_eq_some h)⟩
  next => exact List.prefix_refl t

end Surface.Declaration
