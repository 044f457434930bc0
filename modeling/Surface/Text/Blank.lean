import Surface.Text.Basic

/-! # Blank characters, words and trimming

A blank is a character with the Unicode property `White_Space`. Trimming removes blanks from the
ends of a text, and the leading word of a text is what stands before its first blank.
-/

namespace Surface.Text

def isBlank (c : Char) : Bool :=
  let n := c.toNat
  (0x09 ≤ n && n ≤ 0x0D) || n == 0x20 || n == 0x85 || n == 0xA0 || n == 0x1680 ||
  (0x2000 ≤ n && n ≤ 0x200A) || n == 0x2028 || n == 0x2029 || n == 0x202F || n == 0x205F ||
  n == 0x3000

theorem isBlank_of_isWhitespace {c : Char} (h : c.isWhitespace = true) : isBlank c = true := by
  simp only [Char.isWhitespace, Bool.or_eq_true, decide_eq_true_eq] at h
  rcases h with ((rfl | rfl) | rfl) | rfl <;> decide

/-- The 25 blanks, by code point. -/
theorem isBlank_iff_mem {c : Char} : isBlank c = true ↔
    c.toNat ∈ [0x09, 0x0A, 0x0B, 0x0C, 0x0D, 0x20, 0x85, 0xA0, 0x1680, 0x2000, 0x2001, 0x2002,
      0x2003, 0x2004, 0x2005, 0x2006, 0x2007, 0x2008, 0x2009, 0x200A, 0x2028, 0x2029, 0x202F,
      0x205F, 0x3000] := by
  simp only [isBlank, Bool.or_eq_true, Bool.and_eq_true, decide_eq_true_eq, beq_iff_eq,
    List.mem_cons, List.not_mem_nil, or_false]
  omega

def trimStart (t : Text) : Text := t.dropWhile isBlank

def trimEnd (t : Text) : Text := (t.reverse.dropWhile isBlank).reverse

def trim (t : Text) : Text := trimEnd (trimStart t)

def leadingWord (t : Text) : Text := t.takeWhile fun c => !isBlank c

def afterLeadingWord (t : Text) : Text := t.dropWhile fun c => !isBlank c

@[simp] theorem leadingWord_append_afterLeadingWord (t : Text) :
    leadingWord t ++ afterLeadingWord t = t := List.takeWhile_append_dropWhile

theorem trimStart_suffix (t : Text) : trimStart t <:+ t := List.dropWhile_suffix _

theorem trimEnd_isPrefix (t : Text) : trimEnd t <+: t := by
  simpa [trimEnd] using List.reverse_prefix.2 (List.dropWhile_suffix isBlank (l := t.reverse))

theorem head_trimStart {c : Char} {t s : Text} (h : trimStart t = c :: s) : isBlank c = false := by
  have := List.head?_dropWhile_not isBlank t
  simp_all [trimStart]

end Surface.Text
