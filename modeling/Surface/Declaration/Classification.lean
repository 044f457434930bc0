import Surface.Declaration.Declarator
import Surface.Declaration.Signature
import Surface.Failure
import Surface.Policy
import Surface.Symbol

/-! # Classification of declaration lines

The declarator of a line is read as a type, else as a method, else as a constructor, else as a
field. Each form is broader than those before it, so the order matters.
-/

namespace Surface

structure Classification where
  kind : Kind
  signature : Text
  short : Text
  label : Text
  deriving DecidableEq, Repr

namespace Declaration

open Text

def typeKeywords : List Text := ["class", "interface", "enum"]

/-- The clause behind a type's name says only that the type extends the marker. -/
def extendsOnly (marker clause : Text) : Bool :=
  ((pieces clause).filter fun p => !isGap p) == ["extends".toList, marker]

def readType? (policy : DisplayPolicy) (t : Text) : Option Classification :=
  let keyword := leadingWord t
  let named := trimStart (afterLeadingWord t)
  let name := leadingWord named
  if typeKeywords.contains keyword ∧ name ≠ [] then
    let isMarked := policy.detectAnnotations && keyword == "interface".toList &&
      extendsOnly policy.annotationMarker (afterLeadingWord named)
    some
      { kind := .type
        signature := name
        short := if isMarked then '@' :: name else name
        label :=
          if isMarked then "annotation"
          else if policy.distinguishTypeLabels then keyword
          else Kind.type.label }
  else none

/-- The shortest return type that leaves a signature behind it. -/
def readMethod? (policy : DisplayPolicy) (t : Text) : Option Classification :=
  (cuts t).findSome? fun c => (signature? c.after).map fun (sig, _) =>
    { kind := .method
      signature := sig
      short := if policy.decorateShortDisplay then c.before ++ c.gap ++ sig else sig
      label := Kind.method.label }

def readConstructor? (t : Text) : Option Classification :=
  (signature? t).map fun (sig, _) =>
    { kind := .constructor, signature := sig, short := sig, label := Kind.constructor.label }

/-- The last word names the field, and at least one word stands before it. -/
def readField? (policy : DisplayPolicy) (t : Text) : Option Classification :=
  match (cuts t).getLast? with
  | some c =>
    if '(' ∈ c.after ∨ ')' ∈ c.after then none
    else some
      { kind := .field
        signature := c.after
        short := if policy.decorateShortDisplay then t else c.after
        label := Kind.field.label }
  | none => none

def readDeclarator? (policy : DisplayPolicy) (t : Text) : Option Classification :=
  readType? policy t <|> readMethod? policy t <|> readConstructor? t <|> readField? policy t

/-- What a line declares; its statement terminator has to be gone already. -/
def classify? (policy : DisplayPolicy) (line : Text) : Option Classification :=
  readDeclarator? policy (declarator line)

def classify (policy : DisplayPolicy) (line : Text) : Except Cause Classification :=
  match classify? policy line with
  | some c => .ok c
  | none => .error (.unparseable (trim line))

/-- The declaration on a line of a listing: the last character ends the statement. -/
def textOf (raw : Text) : Text := trim (trim raw).dropLast

end Declaration
end Surface
