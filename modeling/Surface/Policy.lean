import Surface.Choice

/-! # Policies

A dialect chooses how declarations are displayed. What identifies a declaration never depends on
the display policy.
-/

namespace Surface

inductive Dialect where
  | extended
  | classic
  deriving DecidableEq, Repr, Inhabited

instance : Choice Dialect where
  all := [.extended, .classic]
  name
    | .extended => "extended"
    | .classic => "classic"
  find_name d := by cases d <;> decide

structure DisplayPolicy where
  /-- Label a type by its keyword instead of by the word for all types. -/
  distinguishTypeLabels : Bool
  /-- Relabel an interface that extends exactly the marker. -/
  detectAnnotations : Bool
  /-- Show methods and fields with their declared type. -/
  decorateShortDisplay : Bool
  annotationMarker : Text
  deriving DecidableEq, Repr

def Dialect.policy (d : Dialect) : DisplayPolicy where
  distinguishTypeLabels := d == extended
  detectAnnotations := d == extended
  decorateShortDisplay := d == extended
  annotationMarker := "java.lang.annotation.Annotation"

instance : Inhabited DisplayPolicy := ⟨Dialect.extended.policy⟩

/-- What a second definition of the same identity does. -/
inductive DuplicatePolicy where
  | overwrite
  | fail
  deriving DecidableEq, Repr, Inhabited

instance : Choice DuplicatePolicy where
  all := [.overwrite, .fail]
  name
    | .overwrite => "overwrite"
    | .fail => "fail"
  find_name d := by cases d <;> decide

end Surface
