import Surface.Text.Blank

/-! # Callable signatures

A signature `name(parameters)` starts with a character that is no blank and has its opening
parenthesis inside the leading word, behind that character. It runs through the last closing
parenthesis of the whole text, so a parameter list may contain blanks and parentheses.
-/

namespace Surface.Declaration

open Text

/-- The signature that a text starts with, and what follows it. -/
def signature? : Text → Option (Text × Text)
  | [] => none
  | c :: t =>
    if isBlank c then none
    else
      let inName := fun x => !isBlank x && x != '('
      match t.dropWhile inName with
      | '(' :: parameters =>
        (splitAfterLast? ')' parameters).map fun (upTo, rest) =>
          (c :: t.takeWhile inName ++ '(' :: upTo, rest)
      | _ => none

theorem eq_of_signature? {t sig rest : Text} (h : signature? t = some (sig, rest)) :
    t = sig ++ rest := by
  revert h
  fun_cases signature? t with
  | case1 => simp
  | case2 => simp
  | case3 c t hc inName parameters hp =>
    intro h
    obtain ⟨⟨u, r⟩, hs, he⟩ := Option.map_eq_some_iff.1 h
    simp only [Prod.mk.injEq] at he
    obtain ⟨rfl, rfl⟩ := he
    have := (splitAfterLast?_eq_some hs).1
    subst this
    have := List.takeWhile_append_dropWhile (p := inName) (l := t)
    rw [hp] at this
    simpa using this.symm
  | case4 => simp

/-- The size in bytes of the signature that a text starts with. -/
def signatureSize? (t : Text) : Option Nat := (signature? t).map fun (sig, _) => sig.byteSize

end Surface.Declaration
