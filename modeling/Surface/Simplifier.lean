import Surface.Policy
import Surface.Text.Blank

/-! # Simple names

For display a qualified or nested name is cut down to its last part. Boundary characters divide
the text into names and stay as they are; a trailing `...` stays with its name.
-/

namespace Surface

structure Simplifier where
  /-- An `@` divides names too. -/
  atIsBoundary : Bool
  deriving DecidableEq, Repr

def Dialect.simplifier (d : Dialect) : Simplifier := ⟨d == extended⟩

/-- A name with the boundary character in front of it. -/
structure BoundedName where
  boundary : Char
  name : Text
  deriving DecidableEq, Repr

namespace Simplifier

def isBoundary (s : Simplifier) (c : Char) : Bool :=
  c == '(' || c == ')' || c == '<' || c == '>' || c == ',' || Text.isBlank c ||
    (s.atIsBoundary && c == '@')

/-- The name before the first boundary, and the names behind the boundaries. -/
def names (s : Simplifier) : Text → Text × List BoundedName
  | [] => ([], [])
  | c :: t =>
    let (name, rest) := s.names t
    if s.isBoundary c then ([], ⟨c, name⟩ :: rest) else (c :: name, rest)

def boundaries (s : Simplifier) (t : Text) : Text := t.filter s.isBoundary

def variadicMarker : Text := "..."

/-- What follows the last `.` and then the last `$`. -/
def simpleName (name : Text) : Text := Text.afterLast '$' (Text.afterLast '.' name)

def simplifyName (name : Text) : Text :=
  if variadicMarker.isSuffixOf name then
    simpleName (name.take (name.length - variadicMarker.length)) ++ variadicMarker
  else simpleName name

def simplify (s : Simplifier) (t : Text) : Text :=
  let (name, rest) := s.names t
  simplifyName name ++ rest.flatMap fun b => b.boundary :: simplifyName b.name

theorem names_eq (s : Simplifier) (t : Text) :
    (s.names t).1 ++ (s.names t).2.flatMap (fun b => b.boundary :: b.name) = t := by
  induction t with
  | nil => rfl
  | cons c t ih =>
    simp only [names]
    split
    next => simpa using ih
    next => simpa using ih

end Simplifier
end Surface
