import Surface.Report.Basic
import Surface.Simplifier

/-! # Reports as Markdown

One section for each class, in the order of the simplified class names; classes of one simple name
stay in the order of their full names.
-/

namespace Surface.Markdown

def headline (s : Simplifier) (word : Text) (d : Definition) : Text :=
  '*' :: word ++ "* ".toList ++ d.label ++ ": `".toList ++ s.simplify d.short ++ "`".toList

def row (s : Simplifier) (name full : Text) : Text :=
  "| ".toList ++ name ++ " | ".toList ++ s.simplify full ++ " |".toList

/-- A modification stands under its new definition and shows both full declarations. -/
def entry (s : Simplifier) : Change → Text
  | .addition _ d => headline s "new" d
  | .deletion _ d => headline s "removed" d
  | .modification _ old new =>
    headline s "modified" new ++ "\n\n".toList ++
      row s "From:" old.full ++ "\n".toList ++ row s "To:" new.full

def classSection (s : Simplifier) (title : Text) (changes : List Change) : Text :=
  "## ".toList ++ title ++ "\n\n".toList ++
    "\n\n".toList.intercalate (changes.map (entry s)) ++ "\n\n\n".toList

/-- The classes with their simplified names, in the order of their sections. -/
def sections (s : Simplifier) (report : Report) : List (Text × List Change) :=
  (report.entries.map fun (c, changes) => (s.simplify c, changes)).mergeSort
    fun a b => (compare a.1 b.1).isLE

def render (s : Simplifier) (report : Report) : Text :=
  (sections s report).flatMap fun (title, changes) => classSection s title changes

end Surface.Markdown
