import Surface.Text.Basic

/-! # Lines

A line ends at a line feed, and one carriage return right before the line feed belongs to the
line's end. A text that ends with a line feed has no further, empty line behind it.
-/

namespace Surface.Text

def lines : Text → List Text
  | [] => []
  | '\n' :: t => [] :: lines t
  | '\r' :: '\n' :: t => [] :: lines t
  | c :: t =>
    match lines t with
    | [] => [[c]]
    | l :: ls => (c :: l) :: ls

@[simp] theorem lines_eq_nil_iff {t : Text} : lines t = [] ↔ t = [] := by
  fun_cases lines t <;> simp_all

theorem notMem_of_mem_lines {t l : Text} (h : l ∈ lines t) : '\n' ∉ l := by
  fun_induction lines t generalizing l <;> grind

end Surface.Text
