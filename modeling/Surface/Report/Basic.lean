import Surface.OrderedMap
import Surface.Symbol

/-! # Change reports

A report groups changes by declaring class, in increasing order of the class names. Within a class
the changes keep the order in which they were added.
-/

namespace Surface

inductive Change where
  | addition (id : SymbolId) (definition : Definition)
  | deletion (id : SymbolId) (definition : Definition)
  | modification (id : SymbolId) (old new : Definition)
  deriving DecidableEq, Repr

namespace Change

def id : Change → SymbolId
  | addition id _ | deletion id _ | modification id _ _ => id

/-- The definition of the symbol as it now stands, or as it last stood. -/
def current : Change → Definition
  | addition _ definition | deletion _ definition => definition
  | modification _ _ new => new

def variantName : Change → Text
  | addition _ _ => "addition"
  | deletion _ _ => "deletion"
  | modification _ _ _ => "modification"

def isAddition : Change → Bool
  | addition _ _ => true
  | _ => false

def isDeletion : Change → Bool
  | deletion _ _ => true
  | _ => false

def isModification : Change → Bool
  | modification _ _ _ => true
  | _ => false

end Change

abbrev Report := OrderedMap Text (List Change)

structure Summary where
  additions : Nat
  deletions : Nat
  modifications : Nat
  classes : Nat
  deriving DecidableEq, Repr

namespace Report

def changesFor (report : Report) (declaringClass : Text) : List Change :=
  (report.get? declaringClass).getD []

/-- Appends a change to those of its declaring class. -/
def push (report : Report) (change : Change) : Report :=
  let declaringClass := change.id.declaringClass
  report.insert declaringClass (report.changesFor declaringClass ++ [change])

def ofChanges (changes : List Change) : Report := changes.foldl push ∅

/-- All changes, class after class. -/
def changes (report : Report) : List Change := report.entries.flatMap Prod.snd

def summary (report : Report) : Summary where
  additions := report.changes.countP Change.isAddition
  deletions := report.changes.countP Change.isDeletion
  modifications := report.changes.countP Change.isModification
  classes := report.size

@[simp] theorem changesFor_empty (c : Text) : (∅ : Report).changesFor c = [] := rfl

theorem changesFor_push (report : Report) (change : Change) (c : Text) :
    (report.push change).changesFor c =
      report.changesFor c ++ if c = change.id.declaringClass then [change] else [] := by
  unfold changesFor push
  rw [OrderedMap.get?_insert]
  split
  next h => simp [h, changesFor]
  next => simp

theorem changesFor_ofChanges (changes : List Change) (c : Text) :
    (ofChanges changes).changesFor c = changes.filter fun ch => c = ch.id.declaringClass := by
  have : ∀ (report : Report), (changes.foldl push report).changesFor c =
      report.changesFor c ++ changes.filter fun ch => c = ch.id.declaringClass := by
    induction changes with
    | nil => simp
    | cons ch rest ih =>
      intro report
      rw [List.foldl_cons, ih, changesFor_push, List.filter_cons]
      split <;> simp_all
  simpa [ofChanges] using this ∅

end Report
end Surface
