import Surface.Proofs.Simplifier
import Surface.Proofs.Text.Offsets

/-! # Simplifying by offsets

Names can be cut out of a text by the offsets of the boundaries around them, and a name can be cut
down by the offset of its last qualifier. A variadic name is cut by the sizes of its parts, so two
sizes are subtracted from that of the whole. All this leads to no fault, and the names are those of
the text.
-/

namespace Surface.Offsets

open Text Simplifier

/-- What follows the last `c`, or the whole text when it has none. -/
def afterLast (c : Char) (t : Text) : Except Fault Text :=
  match findLast? (· == c) t with
  | some n => sliceFrom t (n + c.utf8Size)
  | none => .ok t

/-- The name in a token, with the marker behind it if there is one: both stand together at the end of
the token, so one slice takes them. -/
def simplifyName (token : Text) : Except Fault Text :=
  if variadicMarker.isSuffixOf token then do
    let front := token.take (token.length - variadicMarker.length)
    let name ← afterLast '$' (← afterLast '.' front)
    let size ← difference token.byteSize name.byteSize
    sliceFrom token (← difference size variadicMarker.byteSize)
  else do afterLast '$' (← afterLast '.' token)

/-- Simplifies what stands behind `start`, where the name begins that is being passed over. -/
def simplifyFrom (s : Simplifier) (t : Text) : Nat → List (Nat × Char) → Except Fault Text
  | start, [] => do simplifyName (← sliceFrom t start)
  | start, (n, c) :: cs =>
    if s.isBoundary c then do
      let name ← simplifyName (← slice t start n)
      let rest ← simplifyFrom s t (n + c.utf8Size) cs
      return name ++ c :: rest
    else simplifyFrom s t start cs

def simplify (s : Simplifier) (t : Text) : Except Fault Text := simplifyFrom s t 0 (chars t)

variable {s : Simplifier} {name : Text}

theorem afterLast_eq (c : Char) (t : Text) : afterLast c t = .ok (Text.afterLast c t) := by
  rw [afterLast, Text.afterLast]
  cases h : splitAfterLast? c t with
  | none =>
    have hnot := splitAfterLast?_eq_none_iff.1 h
    have hlast := findLast?_append (beq_eq_false_of_notMem hnot) []
    rw [List.nil_append] at hlast
    rw [hlast]
    rfl
  | some parts =>
    obtain ⟨upTo, rest⟩ := parts
    obtain ⟨rfl, hlast, hrest⟩ := splitAfterLast?_eq_some h
    obtain ⟨front, rfl⟩ := List.getLast?_eq_some_iff.1 hlast
    have hfind := findLast?_append_cons (p := (· == c)) (beq_self_eq_true c)
      (beq_eq_false_of_notMem hrest) front
    have hslice := sliceFrom_append (front ++ [c]) rest
    rw [← List.append_cons] at hslice ⊢
    rw [hfind]
    simpa using hslice

theorem difference_add (a b : Nat) : difference (a + b) b = .ok a := by
  simp [difference]

theorem simplifyName_eq (token : Text) :
    simplifyName token = .ok (Simplifier.simplifyName token) := by
  rw [simplifyName]
  split
  next hmarker =>
    obtain ⟨front, rfl⟩ := List.isSuffixOf_iff_suffix.1 hmarker
    obtain ⟨before, hfront⟩ := simpleName_suffix front
    have hsize : byteSize (front ++ variadicMarker) =
        byteSize before + variadicMarker.byteSize + (simpleName front).byteSize := by
      have := congrArg byteSize hfront
      simp only [byteSize_append] at this ⊢
      omega
    have hslice := sliceFrom_append before (simpleName front ++ variadicMarker)
    rw [← List.append_assoc, hfront] at hslice
    simp only [List.length_append, Nat.add_sub_cancel, List.take_left, afterLast_eq, ok_bind]
    rw [← simpleName, hsize, difference_add, ok_bind, difference_add, ok_bind, hslice,
      simplifyName_variadic]
  next hmarker =>
    rw [List.isSuffixOf_iff_suffix] at hmarker
    rw [afterLast_eq, ok_bind, afterLast_eq, simplifyName_plain hmarker, simpleName]

/-- The name that is being passed over begins at the start, and what is still to come follows it. -/
theorem simplifyFrom_eq (hname : s.IsToken name) (front rest : Text) :
    simplifyFrom s (front ++ name ++ rest) front.byteSize
      (charsFrom (front ++ name).byteSize rest) = .ok (s.simplify (name ++ rest)) := by
  induction rest generalizing front name with
  | nil =>
    rw [List.append_nil, List.append_nil, charsFrom, simplifyFrom, sliceFrom_append, ok_bind,
      simplifyName_eq, hname.simplify_eq]
  | cons c rest ih =>
    rw [charsFrom, simplifyFrom]
    by_cases hc : s.isBoundary c = true
    · have hslice := slice_append front name (c :: rest)
      have hnil : s.IsToken [] := by simp [IsToken]
      have hrest := ih hnil (front ++ name ++ [c])
      simp only [List.append_nil, List.append_assoc, List.cons_append, List.nil_append,
        byteSize_append, byteSize_cons, byteSize_nil, Nat.add_zero, ← Nat.add_assoc]
        at hslice hrest ⊢
      rw [if_pos hc, hslice, ok_bind, simplifyName_eq, ok_bind, hrest, ok_bind, simplify_append hc,
        hname.simplify_eq]
      rfl
    · have hlonger : s.IsToken (name ++ [c]) := by
        intro x hx
        rcases List.mem_append.1 hx with hx | hx
        · exact hname x hx
        · rw [List.mem_singleton.1 hx]
          simpa using hc
      have hrest := ih hlonger front
      rw [if_neg hc]
      simpa [Nat.add_assoc] using hrest

theorem simplify_eq (s : Simplifier) (t : Text) : simplify s t = .ok (s.simplify t) := by
  have hnil : s.IsToken [] := by simp [IsToken]
  simpa [simplify, chars] using simplifyFrom_eq hnil [] t

end Surface.Offsets
