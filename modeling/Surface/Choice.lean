import Surface.Text.Basic

/-! # Named alternatives

A closed set of alternatives, each with a name of its own by which settings and data refer to it.
-/

namespace Surface

class Choice (α : Type) where
  all : List α
  name : α → Text
  find_name (a : α) : (all.find? fun b => name b == name a) = some a

namespace Choice

variable {α : Type} [Choice α]

def ofName? (t : Text) : Option α := all.find? fun a => name a == t

@[simp] theorem ofName?_name (a : α) : ofName? (name a) = some a := find_name a

theorem name_of_ofName? {t : Text} {a : α} (h : ofName? t = some a) : name a = t := by
  simpa using List.find?_some h

theorem name_injective {a b : α} (h : name a = name b) : a = b := by
  have := ofName?_name a
  rw [h, ofName?_name] at this
  exact (Option.some.inj this).symm

theorem mem_all (a : α) : a ∈ all := List.mem_of_find?_eq_some (find_name a)

end Choice
end Surface
