import Surface.Proofs.Json.Grammar

/-! # Reading what is written in JSON

The reader takes each written form of a value for that value. So a document has one value only, and
the reader finds it.
-/

namespace Surface.Json

open Reader

theorem takes_space {w rest : Text} (hw : IsSpaces w) (hrest : StopsAt isSpace rest) :
    space.Takes w w rest := takes_takeWhile hw hrest

theorem isDigit_of_isSpace {c : Char} (h : isSpace c = true) : c.isDigit = false := by
  simp only [isSpace, Bool.or_eq_true, beq_iff_eq] at h
  rcases h with ((rfl | rfl) | rfl) | rfl <;> rfl

theorem IsSpaces.stopsAt_digit {w rest : Text} (h : IsSpaces w)
    (hrest : StopsAt Char.isDigit rest) : StopsAt Char.isDigit (w ++ rest) := by
  cases w with
  | nil => exact hrest
  | cons c w => exact stopsAt_cons.2 (isDigit_of_isSpace (h c List.mem_cons_self))

/-- A mark that ends a list, and nothing else. -/
structure Closes (closing : Char) : Prop where
  isSpace : isSpace closing = false
  isDigit : closing.isDigit = false
  ne_comma : closing ≠ ','

theorem Further.stopsAt {ws : List Text} {more rest : Text} {closing : Char} {p : Char → Bool}
    (h : Further ws more) (hcomma : p ',' = false) (hclosing : p closing = false) :
    StopsAt p (more ++ closing :: rest) := by
  cases h with
  | nil => exact stopsAt_cons.2 hclosing
  | cons => exact stopsAt_cons.2 hcomma

/-- The reader takes each written element, and an element begins with no blank. -/
structure TakesEach {α : Type} (r : Reader α) (elements : List (α × Text)) : Prop where
  takes : ∀ e ∈ elements, ∀ rest, StopsAt Char.isDigit rest → r.Takes e.2 e.1 rest
  solid : ∀ e ∈ elements, ∀ rest, StopsAt isSpace (e.2 ++ rest)

section Lists

variable {α : Type} {r : Reader α} {e : α × Text} {elements : List (α × Text)} {ws : List Text}
  {w behind more rest : Text} {closing : Char}

theorem TakesEach.tail (h : TakesEach r (e :: elements)) : TakesEach r elements where
  takes e' he' := h.takes e' (List.mem_cons_of_mem _ he')
  solid e' he' := h.solid e' (List.mem_cons_of_mem _ he')

/-- An element with the blanks behind it, in front of further elements. -/
theorem TakesEach.takes_head (h : TakesEach r (e :: elements)) (hclosing : Closes closing)
    (hbehind : IsSpaces behind) (hmore : Further ws more) :
    (r <* space).Takes (e.2 ++ behind) e.1 (more ++ closing :: rest) := by
  have hdigit : StopsAt Char.isDigit (more ++ closing :: rest) :=
    hmore.stopsAt rfl hclosing.isDigit
  have hspace : StopsAt Json.isSpace (more ++ closing :: rest) :=
    hmore.stopsAt rfl hclosing.isSpace
  exact (h.takes e List.mem_cons_self _ (hbehind.stopsAt_digit hdigit)).seqLeft
    (takes_space hbehind hspace)

theorem TakesEach.solid_head (h : TakesEach r (e :: elements)) :
    StopsAt isSpace (e.2 ++ behind ++ more ++ rest) := by
  rw [List.append_assoc, List.append_assoc]
  exact h.solid e List.mem_cons_self _

theorem Further.takes (h : Further ws w) (hws : elements.map Prod.snd = ws)
    (hr : TakesEach r elements) (hclosing : Closes closing) :
    Takes (many (char ',' *> space *> (r <* space))) w (elements.map Prod.fst)
      (closing :: rest) := by
  induction h generalizing elements with
  | nil =>
    rw [List.map_eq_nil_iff.1 hws]
    have hcomma : char ',' (closing :: rest) = none :=
      char_eq_none fun h => hclosing.ne_comma (Option.some.inj h)
    exact takes_many_nil (seqRight_eq_none (seqRight_eq_none hcomma _) _)
  | @cons ws w before behind more hbefore hbehind hmore ih =>
    obtain ⟨e, elements, rfl, rfl, htail⟩ := List.map_eq_cons_iff.1 hws
    refine Takes.many_cons ?_ (by simp) (ih htail hr.tail)
    refine ((takes_char ',' _).seqRight (takes_space hbefore ?_)).seqRight
      (hr.takes_head hclosing hbehind hmore)
    rw [← List.append_assoc]
    exact hr.solid_head

theorem takes_separated_nil (hnone : r (closing :: rest) = none) :
    Takes (separated (r <* space) (char ',' *> space)) [] [] (closing :: rest) :=
  (takes_pure _ _).orElse_of_none (bind_eq_none (seqLeft_eq_none hnone _) _)

theorem TakesEach.takes_separated (hr : TakesEach r (e :: elements)) (hclosing : Closes closing)
    (hbehind : IsSpaces behind) (hmore : Further (elements.map Prod.snd) more) :
    Takes (separated (r <* space) (char ',' *> space)) (e.2 ++ behind ++ more)
      (e.1 :: elements.map Prod.fst) (closing :: rest) := by
  refine Takes.orElse ?_ _
  refine (hr.takes_head hclosing hbehind hmore).bind ?_
  refine (hmore.takes rfl hr.tail hclosing).bind_nil ?_
  exact takes_pure _ _

/-- The reader of a list between brackets takes its elements. -/
theorem Listed.takes (h : Listed (elements.map Prod.snd) w) (hr : TakesEach r elements)
    (hclosing : Closes closing) (hnone : r (closing :: rest) = none) (opening : Char) :
    (char opening *> space *> separated (r <* space) (char ',' *> space) <* char closing).Takes
      (opening :: w ++ [closing]) (elements.map Prod.fst) rest := by
  refine Takes.seqLeft ?_ (takes_char closing rest)
  generalize hws : elements.map Prod.snd = ws at h
  cases h with
  | nil hgap =>
    rw [List.map_eq_nil_iff.1 hws]
    have hspace : StopsAt isSpace (closing :: rest) := stopsAt_cons.2 hclosing.isSpace
    have htakes := ((takes_char opening _).seqRight (takes_space hgap hspace)).seqRight
      (takes_separated_nil hnone)
    rwa [List.append_nil] at htakes
  | cons hbefore hbehind hmore =>
    obtain ⟨e, elements, rfl, rfl, rfl⟩ := List.map_eq_cons_iff.1 hws
    exact ((takes_char opening _).seqRight (takes_space hbefore hr.solid_head)).seqRight
      (hr.takes_separated hclosing hbehind hmore)

end Lists

theorem isDigit_decimal {n : Nat} {c : Char} (h : c ∈ Text.decimal n) : c.isDigit = true :=
  Nat.isDigit_of_mem_toDigits (by decide) (by decide) h

theorem decimal_ne_nil (n : Nat) : Text.decimal n ≠ [] := Nat.toDigits_ne_nil

/-- Only zero is written with a zero in front. -/
theorem eq_zero_of_head?_decimal {n : Nat} (h : (Text.decimal n).head? = some '0') : n = 0 := by
  induction n using Nat.strongRecOn with
  | ind n ih =>
    unfold Text.decimal at *
    by_cases hn : n < 10
    · rw [Nat.toDigits_of_lt_base hn] at h
      exact Nat.digitChar_eq_zero.1 (Option.some.inj h)
    · rw [Nat.toDigits_of_base_le (by decide) (by omega),
        List.head?_append_of_ne_nil _ Nat.toDigits_ne_nil] at h
      have hzero := ih (n / 10) (by omega) h
      omega

theorem takes_natural (n : Nat) {rest : Text} (hrest : StopsAt Char.isDigit rest) :
    natural.Takes (Text.decimal n) n rest := by
  refine (takes_takeWhile1 (fun _ => isDigit_decimal) (decimal_ne_nil n) hrest).bind_nil ?_
  have hzero : ¬ ((Text.decimal n).head? = some '0' ∧ Text.decimal n ≠ ['0']) := by
    rintro ⟨hhead, hne⟩
    rw [eq_zero_of_head?_decimal hhead] at hne
    exact hne rfl
  rw [if_neg hzero]
  have hvalue := Nat.ofDigitChars_toDigits (b := 10) (n := n) (by decide) (by decide)
  unfold Nat.ofDigitChars at hvalue
  unfold Text.decimal
  rw [hvalue]
  exact takes_pure n rest

theorem quoted_eq_none {t : Text} (h : t.head? ≠ some '"') : quoted t = none :=
  seqLeft_eq_none (seqRight_eq_none (char_eq_none h) _) _

theorem natural_eq_none {t : Text} (h : StopsAt Char.isDigit t) : natural t = none :=
  bind_eq_none (takeWhile1_eq_none h) _

theorem arrayOf_eq_none {t : Text} (h : t.head? ≠ some '[') (item : Reader Json) :
    arrayOf item t = none := by
  have hopening := seqRight_eq_none (seqRight_eq_none (char_eq_none h) space)
    (separated (item <* space) (char ',' *> space))
  exact bind_eq_none (seqLeft_eq_none hopening _) _

theorem objectOf_eq_none {t : Text} (h : t.head? ≠ some '{') (item : Reader Json) :
    objectOf item t = none := by
  unfold objectOf
  have hopening := seqRight_eq_none (char_eq_none h) space
  exact bind_eq_none (seqLeft_eq_none (seqRight_eq_none hopening _) _) _

/-- A mark that begins neither a text nor a number is left to the readers of lists. -/
theorem value_of_mark {c : Char} (hquote : c ≠ '"') (hdigit : c.isDigit = false) (depth : Nat)
    (t : Text) :
    value (depth + 1) (c :: t) =
      (arrayOf (value depth) <|> objectOf (value depth)) (c :: t) := by
  have hhead : (c :: t).head? ≠ some '"' := fun h => hquote (Option.some.inj h)
  rw [value, orElse_apply, orElse_apply, map_eq_none (quoted_eq_none hhead),
    map_eq_none (natural_eq_none (stopsAt_cons.2 hdigit))]
  rfl

/-- A mark that closes a list begins no value. -/
theorem value_closing {closing : Char} (h : closing = ']' ∨ closing = '}') (depth : Nat)
    (rest : Text) : value depth (closing :: rest) = none := by
  cases depth with
  | zero => rfl
  | succ depth =>
    have hquote : closing ≠ '"' := by rcases h with rfl | rfl <;> decide
    have hdigit : closing.isDigit = false := by rcases h with rfl | rfl <;> rfl
    have harray : (closing :: rest).head? ≠ some '[' := by rcases h with rfl | rfl <;> simp
    have hobject : (closing :: rest).head? ≠ some '{' := by rcases h with rfl | rfl <;> simp
    rw [value_of_mark hquote hdigit, orElse_apply, arrayOf_eq_none harray,
      objectOf_eq_none hobject]
    rfl

theorem Quotes.exists_cons {t w : Text} (h : Quotes t w) : ∃ w', w = '"' :: w' := by
  cases h with
  | intro => exact ⟨_, rfl⟩

/-- The written form of a value begins with a character that is no blank. -/
theorem Writes.exists_cons {v : Json} {w : Text} (h : Writes v w) :
    ∃ c w', w = c :: w' ∧ isSpace c = false := by
  cases h with
  | number n =>
    obtain ⟨c, w, hw⟩ := List.exists_cons_of_ne_nil (decimal_ne_nil n)
    have hdigit : c.isDigit = true := isDigit_decimal (hw ▸ List.mem_cons_self)
    refine ⟨c, w, hw, Bool.eq_false_iff.2 fun hspace => ?_⟩
    rw [isDigit_of_isSpace hspace] at hdigit
    cases hdigit
  | text h =>
    obtain ⟨w', rfl⟩ := h.exists_cons
    exact ⟨_, w', rfl, rfl⟩
  | array => exact ⟨_, _, rfl, rfl⟩
  | object => exact ⟨_, _, rfl, rfl⟩

theorem Writes.solid {v : Json} {w : Text} (h : Writes v w) (rest : Text) :
    StopsAt isSpace (w ++ rest) := by
  obtain ⟨c, w', rfl, hc⟩ := h.exists_cons
  exact stopsAt_cons.2 hc

theorem Writes.length_pos {v : Json} {w : Text} (h : Writes v w) : 0 < w.length := by
  obtain ⟨c, w', rfl, -⟩ := h.exists_cons
  exact Nat.succ_pos _

theorem Further.length_le {ws : List Text} {w t : Text} (h : Further ws w) (ht : t ∈ ws) :
    t.length ≤ w.length := by
  induction h with
  | nil => cases ht
  | cons _ _ _ ih =>
    simp only [List.length_append, List.length_cons]
    rcases List.mem_cons.1 ht with rfl | ht
    · omega
    · have := ih ht
      omega

theorem Listed.length_le {ws : List Text} {w t : Text} (h : Listed ws w) (ht : t ∈ ws) :
    t.length ≤ w.length := by
  cases h with
  | nil => cases ht
  | cons _ _ hmore =>
    simp only [List.length_append]
    rcases List.mem_cons.1 ht with rfl | ht
    · omega
    · have := hmore.length_le ht
      omega

theorem Writes.exists_depth {v : Json} {w : Text} (h : Writes v w) {depth : Nat}
    (hdepth : w.length ≤ depth) : ∃ d, depth = d + 1 := by
  have hlength := h.length_pos
  exact ⟨depth - 1, by omega⟩

theorem Member.length_written_le (m : Member) : m.written.length ≤ m.text.length := by
  rw [Member.text, List.length_append]
  exact Nat.le_add_left _ _

/-- The reader of a member of an object. -/
def memberOf (value : Reader Json) : Reader (Text × Json) := do
  let name ← quoted <* space <* char ':' <* space
  return (name, ← value)

theorem Member.Named.takes {m : Member} (h : m.Named) {r : Reader Json} {rest : Text}
    (hr : r.Takes m.written m.value rest) (hsolid : StopsAt isSpace (m.written ++ rest)) :
    (memberOf r).Takes m.text m.entry rest := by
  have hcolon : StopsAt isSpace ([':'] ++ (m.behind ++ (m.written ++ rest))) := stopsAt_cons.2 rfl
  refine ((((h.quotes.takes _).seqLeft (takes_space h.before hcolon)).seqLeft
    (takes_char ':' _)).seqLeft (takes_space h.behind hsolid)).bind ?_
  exact hr.bind_nil (takes_pure _ rest)

theorem memberOf_closing (r : Reader Json) (rest : Text) : memberOf r ('}' :: rest) = none := by
  have hquoted : quoted ('}' :: rest) = none := quoted_eq_none (by simp)
  exact bind_eq_none (seqLeft_eq_none (seqLeft_eq_none (seqLeft_eq_none hquoted _) _) _) _

theorem Member.Named.solid {m : Member} (h : m.Named) (rest : Text) :
    StopsAt isSpace (m.text ++ rest) := by
  obtain ⟨w, hw⟩ := h.quotes.exists_cons
  rw [Member.text, hw]
  exact stopsAt_cons.2 rfl

theorem takes_text {t w : Text} (h : Quotes t w) (depth : Nat) (rest : Text) :
    (value (depth + 1)).Takes w (.text t) rest := ((h.takes rest).map text).orElse _

theorem takes_number (n depth : Nat) {rest : Text} (hrest : StopsAt Char.isDigit rest) :
    (value (depth + 1)).Takes (Text.decimal n) (.number n) rest := by
  have hquote : (Text.decimal n ++ rest).head? ≠ some '"' := by
    rw [List.head?_append_of_ne_nil _ (decimal_ne_nil n)]
    intro h
    have hdigit := isDigit_decimal (List.mem_of_mem_head? h)
    revert hdigit
    decide
  exact (((takes_natural n hrest).map number).orElse _).orElse_of_none
    (map_eq_none (quoted_eq_none hquote) text)

theorem Listed.takes_array {items : List (Json × Text)} {w : Text} {depth : Nat}
    (hw : Listed (items.map Prod.snd) w) (hr : TakesEach (value depth) items) (rest : Text) :
    (value (depth + 1)).Takes ('[' :: w ++ [']']) (.array (items.map Prod.fst)) rest := by
  have hlist : (arrayOf (value depth)).Takes ('[' :: w ++ [']'])
      (.array (items.map Prod.fst)) rest :=
    (hw.takes hr ⟨rfl, rfl, by decide⟩ (value_closing (.inl rfl) depth rest) '[').bind_nil
      (takes_pure _ rest)
  unfold Takes
  rw [List.cons_append, List.cons_append, value_of_mark (by decide) rfl]
  exact hlist.orElse _

theorem Listed.takes_object {members : List Member} {w : Text} {depth : Nat}
    (hw : Listed (members.map Member.text) w) (hnamed : ∀ m ∈ members, m.Named)
    (hr : TakesEach (value depth) (members.map fun m => (m.value, m.written))) (rest : Text) :
    (value (depth + 1)).Takes ('{' :: w ++ ['}']) (.object (members.map Member.entry)) rest := by
  have heach : TakesEach (memberOf (value depth)) (members.map fun m => (m.entry, m.text)) := by
    constructor <;> rw [List.forall_mem_map] <;> intro m hm rest
    · intro hrest
      have hmem := List.mem_map_of_mem (f := fun m : Member => (m.value, m.written)) hm
      exact (hnamed m hm).takes (hr.takes _ hmem rest hrest) (hr.solid _ hmem rest)
    · exact (hnamed m hm).solid rest
  have hw' : Listed ((members.map fun m => (m.entry, m.text)).map Prod.snd) w := by
    rwa [List.map_map]
  have hlist : (objectOf (value depth)).Takes ('{' :: w ++ ['}'])
      (.object (members.map Member.entry)) rest := by
    have htakes := hw'.takes heach ⟨rfl, rfl, by decide⟩ (memberOf_closing _ rest) '{'
    rw [List.map_map] at htakes
    exact htakes.bind_nil (takes_pure _ rest)
  unfold Takes
  rw [List.cons_append, List.cons_append, value_of_mark (by decide) rfl]
  exact hlist.orElse_of_none (arrayOf_eq_none (by simp) _)

/-- A value that is no deeper than its written form is long is read from that form. -/
theorem Writes.takes {v : Json} {w : Text} (h : Writes v w) {depth : Nat}
    (hdepth : w.length ≤ depth) {rest : Text} (hrest : StopsAt Char.isDigit rest) :
    (value depth).Takes w v rest := by
  induction h generalizing depth rest with
  | number n =>
    obtain ⟨depth, rfl⟩ := (Writes.number n).exists_depth hdepth
    exact takes_number n depth hrest
  | text h =>
    obtain ⟨depth, rfl⟩ := (Writes.text h).exists_depth hdepth
    exact takes_text h depth rest
  | @array items w hitems hw ih =>
    obtain ⟨depth, rfl⟩ := (Writes.array hitems hw).exists_depth hdepth
    simp only [List.length_append, List.length_cons] at hdepth
    refine hw.takes_array ⟨fun e he rest hrest => ?_, fun e he => (hitems e he).solid⟩ rest
    have hlength := hw.length_le (List.mem_map_of_mem he)
    exact ih e he (by omega) hrest
  | @object members w hnamed hmembers hw ih =>
    obtain ⟨depth, rfl⟩ := (Writes.object hnamed hmembers hw).exists_depth hdepth
    simp only [List.length_append, List.length_cons] at hdepth
    refine hw.takes_object hnamed ?_ rest
    constructor <;> rw [List.forall_mem_map] <;> intro m hm rest
    · intro hrest
      have hlength := hw.length_le (List.mem_map_of_mem hm)
      have hwritten := m.length_written_le
      exact ih m hm (by omega) hrest
    · exact (hmembers m hm).solid rest

/-- A document is read as the value that it stands for. -/
theorem Document.parse? {v : Json} {t : Text} (h : Document v t) : Json.parse? t = some v := by
  cases h with
  | @intro before w behind hbefore hw hbehind =>
    have hspace : StopsAt isSpace ([] : Text) := by
      intro c hc
      cases hc
    have hdigit : StopsAt Char.isDigit (behind ++ ([] : Text)) := by
      refine hbehind.stopsAt_digit fun c hc => ?_
      cases hc
    have hlength : w.length ≤ (before ++ w ++ behind).length := by
      simp only [List.length_append]
      omega
    exact readAll_of_takes (((takes_space hbefore (hw.solid _)).seqRight
      (hw.takes hlength hdigit)).seqLeft (takes_space hbehind hspace))

end Surface.Json
