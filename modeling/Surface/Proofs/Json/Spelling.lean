import Surface.Json.Printer
import Surface.Json.Reader
import Surface.Proofs.Text.Reader

/-! # How a text is spelled in JSON

A character stands for itself, or is escaped by a letter, by its code point or by two surrogates. A
text may be spelled in many ways. The printer uses one of them, and the reader understands all.
-/

namespace Surface.Json

open Reader

/-- The letters of short escapes with what they stand for. -/
def shortEscapes : List (Char × Char) :=
  [('"', '"'), ('\\', '\\'), ('/', '/'), ('b', '\x08'), ('f', '\x0c'), ('n', '\n'), ('r', '\r'),
    ('t', '\t')]

inductive FourDigits : Text → Nat → Prop
  | intro {a b c d : Char} {i j k l : Nat} : Text.hexDigit? a = some i →
      Text.hexDigit? b = some j → Text.hexDigit? c = some k → Text.hexDigit? d = some l →
      FourDigits [a, b, c, d] (4096 * i + 256 * j + 16 * k + l)

inductive SpellsChar : Char → Text → Prop
  | plain {c : Char} : c ≠ '"' → c ≠ '\\' → 0x20 ≤ c.toNat → SpellsChar c [c]
  | short {c letter : Char} : (letter, c) ∈ shortEscapes → SpellsChar c ['\\', letter]
  | codePoint {c : Char} {digits : Text} : FourDigits digits c.toNat →
      SpellsChar c (['\\', 'u'] ++ digits)
  | surrogates {c : Char} {digits digits' : Text} {high low : Nat} : FourDigits digits high →
      FourDigits digits' low → 0xD800 ≤ high → high < 0xDC00 → 0xDC00 ≤ low → low < 0xE000 →
      c.toNat = 0x10000 + 0x400 * (high - 0xD800) + (low - 0xDC00) →
      SpellsChar c (['\\', 'u'] ++ (digits ++ (['\\', 'u'] ++ digits')))

inductive Spells : Text → Text → Prop
  | nil : Spells [] []
  | cons {c : Char} {t w w' : Text} : SpellsChar c w → Spells t w' → Spells (c :: t) (w ++ w')

/-- The text in quotes, spelled in some way. -/
inductive Quotes (t : Text) : Text → Prop
  | intro {w : Text} : Spells t w → Quotes t ('"' :: w ++ ['"'])

theorem FourDigits.takes {digits : Text} {n : Nat} (h : FourDigits digits n) (rest : Text) :
    (hexNumber 4).Takes digits n rest := by
  cases h with
  | @intro a b c d i j k l ha hb hc hd =>
    have hfrom := takes_hexNumberFrom (.cons ha (.cons hb (.cons hc (.cons hd .nil)))) 0 rest
    have hvalue : [i, j, k, l].foldl (fun n d => 16 * n + d) 0 =
        4096 * i + 256 * j + 16 * k + l := by
      simp only [List.foldl_cons, List.foldl_nil]
      omega
    rwa [hvalue] at hfrom

theorem plainChar_eq_none {c : Char} (h : c = '"' ∨ c = '\\' ∨ c.toNat < 0x20) (t : Text) :
    plainChar (c :: t) = none := by
  refine if_neg ?_
  rcases h with rfl | rfl | h
  · decide
  · decide
  · simp only [Bool.and_eq_true, decide_eq_true_eq]
    omega

/-- The reader of an escape, from its letter on. -/
theorem takes_escape {letter c : Char} {w rest : Text}
    (h : Takes escape ('\\' :: letter :: w) c rest) :
    (plainChar <|> escape).Takes ('\\' :: letter :: w) c rest :=
  h.orElse_of_none (plainChar_eq_none (.inr (.inl rfl)) _)

theorem isValidChar_toNat (c : Char) : c.toNat.isValidChar := c.valid

theorem SpellsChar.takes {c : Char} {w : Text} (h : SpellsChar c w) (rest : Text) :
    (plainChar <|> escape).Takes w c rest := by
  cases h with
  | plain hquote hback hcontrol =>
    refine (takes_satisfy ?_ rest).orElse escape
    simp [hquote, hback, hcontrol]
  | short h =>
    refine takes_escape ?_
    simp only [shortEscapes, List.mem_cons, Prod.mk.injEq, List.not_mem_nil, or_false] at h
    rcases h with ⟨rfl, rfl⟩ | ⟨rfl, rfl⟩ | ⟨rfl, rfl⟩ | ⟨rfl, rfl⟩ | ⟨rfl, rfl⟩ | ⟨rfl, rfl⟩ |
      ⟨rfl, rfl⟩ | ⟨rfl, rfl⟩ <;> rfl
  | @codePoint digits h =>
    refine takes_escape ?_
    refine (takes_char '\\' _).bind ((takes_next 'u' _).bind ?_)
    refine (h.takes rest).bind_nil ?_
    rw [if_pos (isValidChar_toNat c), Char.ofNat_toNat]
    exact takes_pure c rest
  | @surrogates digits digits' high low hhigh hlow h1 h2 h3 h4 hc =>
    refine takes_escape ?_
    refine (takes_char '\\' _).bind ((takes_next 'u' _).bind ?_)
    refine (hhigh.takes _).bind ?_
    have hinvalid : ¬ high.isValidChar := by
      unfold Nat.isValidChar
      omega
    rw [if_neg hinvalid, if_pos h2]
    refine ((takes_literal ['\\', 'u'] _).seqRight (hlow.takes _)).bind_nil ?_
    rw [if_pos ⟨h3, h4⟩, ← hc, Char.ofNat_toNat]
    exact takes_pure c rest

theorem SpellsChar.ne_nil {c : Char} {w : Text} (h : SpellsChar c w) : w ≠ [] := by
  cases h <;> simp

theorem Spells.takes {t w : Text} (h : Spells t w) (rest : Text) :
    Takes (many (plainChar <|> escape)) w t ('"' :: rest) := by
  induction h with
  | nil =>
    refine takes_many_nil ?_
    rw [orElse_apply, plainChar_eq_none (.inl rfl)]
    rfl
  | cons hc _ ih => exact (hc.takes _).many_cons hc.ne_nil ih

theorem Quotes.takes {t w : Text} (h : Quotes t w) (rest : Text) : Takes quoted w t rest := by
  cases h with
  | intro h => exact ((takes_char '"' _).seqRight (h.takes _)).seqLeft (takes_char '"' _)

theorem fourDigits_control {n : Nat} (h : n < 0x20) :
    FourDigits ('0' :: '0' :: [Text.hexDigit (n / 16), Text.hexDigit (n % 16)]) n := by
  have hn : n = 4096 * 0 + 256 * 0 + 16 * (n / 16) + n % 16 := by omega
  have hdigits : FourDigits ('0' :: '0' :: [Text.hexDigit (n / 16), Text.hexDigit (n % 16)])
      (4096 * 0 + 256 * 0 + 16 * (n / 16) + n % 16) :=
    .intro rfl rfl (Text.hexDigit?_hexDigit (by omega)) (Text.hexDigit?_hexDigit (by omega))
  rwa [← hn] at hdigits

theorem eq_of_toNat_eq {c d : Char} (h : c.toNat = d.toNat) : c = d := Char.toNat_inj.1 h

theorem spellsChar_escapeChar (c : Char) : SpellsChar c (escapeChar c) := by
  unfold escapeChar
  split_ifs with hquote hback hline hreturn htab hbell hfeed hcontrol
  · exact .short (by rw [hquote]; decide)
  · exact .short (by rw [hback]; decide)
  · exact .short (by rw [hline]; decide)
  · exact .short (by rw [hreturn]; decide)
  · exact .short (by rw [htab]; decide)
  · exact .short (by rw [eq_of_toNat_eq (d := '\x08') hbell]; decide)
  · exact .short (by rw [eq_of_toNat_eq (d := '\x0c') hfeed]; decide)
  · exact .codePoint (fourDigits_control hcontrol)
  · exact .plain hquote hback (by omega)

theorem spells_escaped (t : Text) : Spells t (t.flatMap escapeChar) := by
  induction t with
  | nil => exact .nil
  | cons c t ih =>
    rw [List.flatMap_cons]
    exact .cons (spellsChar_escapeChar c) ih

theorem quotes_quote (t : Text) : Quotes t (quote t) := .intro (spells_escaped t)

end Surface.Json
