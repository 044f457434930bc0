import Surface.Listing
import Surface.Simplifier

/-! # Configurations

The settings of one run: how declarations are shown, what a repeated symbol does, and in which
format the report is written.
-/

namespace Surface

inductive Format where
  | markdown
  | json
  deriving DecidableEq, Repr, Inhabited

instance : Choice Format where
  all := [.markdown, .json]
  name
    | .markdown => "markdown"
    | .json => "json"
  find_name f := by cases f <;> decide

structure Config where
  dialect : Dialect := default
  duplicates : DuplicatePolicy := default
  format : Format := default
  deriving DecidableEq, Repr, Inhabited

namespace Config

def readOptions (c : Config) : ReadOptions := ⟨c.dialect.policy, c.duplicates⟩

def simplifier (c : Config) : Simplifier := c.dialect.simplifier

end Config
end Surface
