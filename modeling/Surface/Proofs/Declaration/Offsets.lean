import Surface.Proofs.Declaration.Grammar
import Surface.Proofs.Text.Offsets

/-! # Reading declarations by offsets

A declaration line can be read by cutting it at offsets: behind its modifiers, in front of its
initializer, and around the signature. An offset found in one part of the line is used in another
part, and all of them are offsets of characters there. So no line leads to a fault, and what is read
is what classification says.
-/

namespace Surface.Offsets

open Text Declaration

variable {policy : DisplayPolicy} {t word behind name : Text} {c : Char} {n : Nat}

theorem length_lt_of_slices (hword : slice t 0 n = .ok word) (hne : word ≠ [])
    (hbehind : sliceFrom t n = .ok behind) : behind.length < t.length := by
  obtain ⟨-, -, -, -, hsize⟩ := slice_eq_ok_iff.1 hword
  obtain ⟨before, after, rfl, hbefore, -⟩ := slice_eq_ok_iff.1 hbehind
  have hpos := byteSize_pos hne
  have hlong : before ≠ [] := by
    rintro rfl
    simp only [byteSize_nil] at hbefore
    omega
  have := List.length_pos_iff.2 hlong
  simp only [List.length_append]
  omega

/-- Drops the modifiers in front of a text that starts with a word. -/
def dropModifiers (t : Text) : Except Fault Text :=
  match find? isBlank t with
  | none => .ok t
  | some n =>
    match _hword : slice t 0 n with
    | .error f => .error f
    | .ok word =>
      if _hmem : word ∈ modifiers then
        match _hbehind : sliceFrom t n with
        | .error f => .error f
        | .ok behind => dropModifiers (trimStart behind)
      else .ok t
termination_by t.length
decreasing_by
  have hshort := length_lt_of_slices _hword (ne_nil_of_mem_modifiers _hmem) _hbehind
  exact Nat.lt_of_le_of_lt (trimStart_suffix behind).length_le hshort

def stripModifiers (line : Text) : Except Fault Text := dropModifiers (trimStart line)

theorem slices_of_find? (h : find? isBlank t = some n) : slice t 0 n = .ok (leadingWord t) ∧
    sliceFrom t n = .ok (afterLeadingWord t) ∧ afterLeadingWord t ≠ [] := by
  rw [find?_isBlank] at h
  split at h
  next => cases h
  next hne =>
    cases h
    have hword := slice_zero (leadingWord t) (afterLeadingWord t)
    have hbehind := sliceFrom_append (leadingWord t) (afterLeadingWord t)
    rw [leadingWord_append_afterLeadingWord] at hword hbehind
    exact ⟨hword, hbehind, hne⟩

theorem dropModifiers_eq (ht : SolidAhead t) :
    dropModifiers t = .ok (Declaration.stripModifiers t) := by
  fun_induction dropModifiers t with
  | case1 t hfind =>
    have hno : ¬ StartsWithModifier t := by
      rw [find?_isBlank] at hfind
      rw [startsWithModifier_iff]
      simp_all
    rw [stripModifiers_of_noModifier ht hno]
  | case2 t n hfind f hword =>
    rw [(slices_of_find? hfind).1] at hword
    cases hword
  | case3 t n hfind word hword hmem f hbehind =>
    rw [(slices_of_find? hfind).2.1] at hbehind
    cases hbehind
  | case4 t n hfind word hword hmem behind hbehind ih =>
    obtain ⟨hslice, hsliceFrom, hne⟩ := slices_of_find? hfind
    rw [hslice] at hword
    rw [hsliceFrom] at hbehind
    cases hword
    cases hbehind
    obtain ⟨gap, hgapne, hgap, heq⟩ := (blankAhead_afterLeadingWord t).exists_gap hne
    have hstrip := stripModifiers_modifier hmem hgapne hgap (trimStart (afterLeadingWord t))
    rw [List.append_assoc, ← heq, leadingWord_append_afterLeadingWord] at hstrip
    rw [ih (solidAhead_trimStart _), hstrip]
  | case5 t n hfind word hword hmem =>
    rw [(slices_of_find? hfind).1] at hword
    cases hword
    have hno : ¬ StartsWithModifier t := fun h => hmem (startsWithModifier_iff.1 h).1
    rw [stripModifiers_of_noModifier ht hno]

theorem stripModifiers_eq (line : Text) :
    stripModifiers line = .ok (Declaration.stripModifiers line) := by
  obtain ⟨g, hg, hline⟩ := exists_blanks_trimStart line
  have hblanks := stripModifiers_blanks hg (trimStart line)
  rw [← hline] at hblanks
  rw [stripModifiers, dropModifiers_eq (solidAhead_trimStart line), hblanks]

/-- Where the gap in front of the first word `=` begins. -/
def initializerStart (t : Text) : Except Fault (Option Nat) :=
  (gaps t).findSomeM? fun gap => do
    let (word, _) ← splitWord (← sliceFrom t gap.2)
    return if word = ['='] then some gap.1 else none

def dropInitializer (t : Text) : Except Fault Text := do
  match ← initializerStart t with
  | some start => slice t 0 start
  | none => return t

def declarator (line : Text) : Except Fault Text := do
  dropInitializer (← stripModifiers (trim line))

theorem initializerStart_eq (t : Text) : initializerStart t = .ok (initializerStart? t) := by
  rw [initializerStart, gaps_eq, gapRanges, findSomeM?_map (g := fun a : Cut =>
    if leadingWord a.after = ['='] then some a.before.byteSize else none)]
  · congr 1
    rw [initializerStart?, initializerCut?]
    induction cuts t with
    | nil => rfl
    | cons a as ih =>
      by_cases ha : leadingWord a.after = ['='] <;> simp [ha, ih]
  · intro a ha
    simp only [sliceFrom_behind ha, splitWord_eq, ok_bind]
    rfl

theorem dropInitializer_eq (t : Text) :
    dropInitializer t = .ok (Declaration.dropInitializer t) := by
  rw [dropInitializer, initializerStart_eq, ok_bind, initializerStart?, Declaration.dropInitializer]
  cases h : initializerCut? t with
  | none => rfl
  | some a => exact slice_before (List.mem_of_find?_eq_some h)

theorem declarator_eq (line : Text) : declarator line = .ok (Declaration.declarator line) := by
  rw [declarator, stripModifiers_eq, ok_bind, dropInitializer_eq, Declaration.declarator]

/-- The size of the signature that the text starts with. -/
def signatureSize (t : Text) : Except Fault (Option Nat) := do
  let (word, _) ← splitWord t
  match ((chars word).drop 1).find? fun c => c.2 == '(' with
  | none => return none
  | some (opening, _) =>
    match findLast? (· == ')') t with
    | none => return none
    | some closing => return if opening < closing then some (closing + 1) else none

/-- The opening parenthesis stands inside the leading word, behind its first character. -/
theorem exists_opening (h : '(' ∈ (leadingWord t).tail) : ∃ c name u,
    IsSolid (c :: name) ∧ '(' ∉ name ∧ t = c :: name ++ '(' :: u := by
  have hsolid := isSolid_leadingWord t
  have ht := leadingWord_append_afterLeadingWord t
  cases hword : leadingWord t with
  | nil => simp [hword] at h
  | cons c w =>
    rw [hword, List.tail_cons] at h
    obtain ⟨name, v, rfl, hname⟩ := List.eq_append_cons_of_mem h
    rw [hword, ← List.cons_append] at hsolid
    refine ⟨c, name, v ++ afterLeadingWord t, (isSolid_append.1 hsolid).1, hname, ?_⟩
    rw [hword] at ht
    simpa using ht.symm

theorem leadingWord_opening (hword : IsSolid (c :: name)) (u : Text) :
    leadingWord (c :: name ++ '(' :: u) = c :: (name ++ '(' :: leadingWord u) := by
  have hopen : isBlank '(' = false := by decide
  have hall : ∀ x ∈ c :: name, (!isBlank x) = true := by
    intro x hx
    simp [hword x hx]
  rw [leadingWord, List.takeWhile_append_of_pos hall]
  simp [hopen, leadingWord]

theorem signatureSize?_eq_none (h : '(' ∉ (leadingWord t).tail) : signatureSize? t = none := by
  rw [signatureSize?]
  cases hsome : signature? t with
  | none => rfl
  | some parts =>
    obtain ⟨ht, hsignature⟩ := signature?_eq_some_iff.1 hsome
    obtain ⟨c, name, parameters, heq, hword, -⟩ := hsignature.parts
    have htext : t = c :: name ++ '(' :: (parameters ++ ')' :: parts.2) := by simp [ht, heq]
    rw [htext, leadingWord_opening hword] at h
    simp at h

theorem signatureSize?_opening (hword : IsSolid (c :: name)) (hname : '(' ∉ name) (u : Text) :
    signatureSize? (c :: name ++ '(' :: u) = (splitAfterLast? ')' u).map fun parts =>
      byteSize (c :: name ++ '(' :: parts.1) := by
  have hc : isBlank c = false := hword c List.mem_cons_self
  have hin : ∀ x ∈ name, (!isBlank x && x != '(') = true := by
    intro x hx
    simp [hword x (List.mem_cons_of_mem c hx), ne_of_mem_of_not_mem hx hname]
  simp only [signatureSize?, List.cons_append, signature?, hc, Bool.false_eq_true, if_false,
    List.dropWhile_append_of_pos hin, List.takeWhile_append_of_pos hin]
  simp [Function.comp_def]

theorem signatureSize_eq_none (h : '(' ∉ (leadingWord t).tail) : signatureSize t = .ok none := by
  rw [signatureSize, splitWord_eq, ok_bind]
  cases hword : leadingWord t with
  | nil => rfl
  | cons c w =>
    rw [hword, List.tail_cons] at h
    simp only [chars, charsFrom, Nat.zero_add, List.drop_one, List.tail_cons,
      find?_charsFrom_eq_none (beq_eq_false_of_notMem h)]
    rfl

/-- Behind the opening parenthesis it is the last closing one that counts. -/
theorem signatureSize_opening (hword : IsSolid (c :: name)) (hname : '(' ∉ name) (u : Text) :
    signatureSize (c :: name ++ '(' :: u) =
      .ok ((findLast? (· == ')') (c :: name ++ '(' :: u)).bind fun closing =>
        if byteSize (c :: name) < closing then some (closing + 1) else none) := by
  have hfind := find?_charsFrom_append (beq_eq_false_of_notMem hname) (beq_self_eq_true '(')
    c.utf8Size (leadingWord u)
  simp only [signatureSize, splitWord_eq, ok_bind, leadingWord_opening hword, chars, charsFrom,
    Nat.zero_add, List.drop_one, List.tail_cons, hfind]
  cases findLast? (· == ')') (c :: name ++ '(' :: u) <;> rfl

theorem signatureSize_eq (t : Text) : signatureSize t = .ok (signatureSize? t) := by
  by_cases hopening : '(' ∈ (leadingWord t).tail
  · obtain ⟨c, name, u, hword, hname, rfl⟩ := exists_opening hopening
    rw [signatureSize_opening hword hname, signatureSize?_opening hword hname]
    cases hclosing : splitAfterLast? ')' u with
    | none =>
      have hnot : ')' ∉ '(' :: u := by simpa using splitAfterLast?_eq_none_iff.1 hclosing
      rw [findLast?_append (beq_eq_false_of_notMem hnot)]
      cases hlast : findLast? (· == ')') (c :: name) with
      | none => rfl
      | some closing =>
        have hlt := findLast?_lt hlast
        simp only [Option.bind_some, Option.map_none, if_neg (Nat.not_lt.2 (Nat.le_of_lt hlt))]
    | some parts =>
      obtain ⟨upTo, rest⟩ := parts
      obtain ⟨rfl, hlast, hrest⟩ := splitAfterLast?_eq_some hclosing
      obtain ⟨parameters, rfl⟩ := List.getLast?_eq_some_iff.1 hlast
      have hfind := findLast?_append_cons (p := (· == ')')) (beq_self_eq_true ')')
        (beq_eq_false_of_notMem hrest) (c :: name ++ '(' :: parameters)
      have hsizes : '('.utf8Size = 1 ∧ ')'.utf8Size = 1 := by decide
      simp only [List.append_assoc, List.cons_append, List.nil_append] at hfind ⊢
      rw [hfind]
      simp [hsizes, Nat.add_assoc]
  · rw [signatureSize_eq_none hopening, signatureSize?_eq_none hopening]

def readType (policy : DisplayPolicy) (t : Text) : Except Fault (Option Classification) := do
  let (keyword, behind) ← splitWord t
  if keyword ∈ typeKeywords ∧ behind ≠ [] then
    let (name, clause) ← splitWord (trimStart behind)
    let isMarked := policy.detectAnnotations && keyword == "interface".toList &&
      extendsOnly policy.annotationMarker clause
    if name ≠ [] then
      return some
        { kind := .type
          signature := name
          short := if isMarked then '@' :: name else name
          label :=
            if isMarked then "annotation"
            else if policy.distinguishTypeLabels then keyword
            else Kind.type.label }
    else return none
  else return none

def readMethod (policy : DisplayPolicy) (t : Text) : Except Fault (Option Classification) :=
  ((gaps t).filter fun gap => gap.2 < t.byteSize).findSomeM? fun gap => do
    match ← signatureSize (← sliceFrom t gap.2) with
    | none => return none
    | some size =>
      let signature ← slice t gap.2 (gap.2 + size)
      let short ← if policy.decorateShortDisplay then slice t 0 (gap.2 + size) else pure signature
      return some { kind := .method, signature, short, label := Kind.method.label }

def readConstructor (t : Text) : Except Fault (Option Classification) := do
  match ← signatureSize t with
  | none => return none
  | some size =>
    let signature ← slice t 0 size
    return some
      { kind := .constructor, signature, short := signature, label := Kind.constructor.label }

def readField (policy : DisplayPolicy) (t : Text) : Except Fault (Option Classification) := do
  let t := trimEnd t
  match (gaps t).getLast? with
  | none => return none
  | some gap =>
    let name := trimStart (← sliceFrom t gap.1)
    if name = [] ∨ '(' ∈ name ∨ ')' ∈ name then return none
    return some
      { kind := .field
        signature := name
        short := if policy.decorateShortDisplay then t else name
        label := Kind.field.label }

theorem readType_eq (policy : DisplayPolicy) (t : Text) :
    readType policy t = .ok (readType? policy t) := by
  simp only [readType, splitWord_eq, ok_bind, readType?, List.contains_iff_mem]
  by_cases hname : leadingWord (trimStart (afterLeadingWord t)) = []
  · rw [if_neg (not_and_of_not_right _ (not_not_intro hname))]
    split
    next => rw [if_neg (not_not_intro hname)]; rfl
    next => rfl
  · have hbehind : afterLeadingWord t ≠ [] := by
      intro hnil
      simp [hnil, trimStart, leadingWord] at hname
    by_cases hkeyword : leadingWord t ∈ typeKeywords
    · rw [if_pos ⟨hkeyword, hbehind⟩, if_pos hname, if_pos (And.intro hkeyword hname)]
      rfl
    · rw [if_neg (not_and_of_not_left _ hkeyword), if_neg (not_and_of_not_left _ hkeyword)]
      rfl

/-- The slices at the signature behind a gap are that signature, and the line up to its end. -/
theorem slices_signature {a : Cut} {signature rest : Text} (ha : a ∈ cuts t)
    (h : signature? a.after = some (signature, rest)) :
    slice t a.range.2 (a.range.2 + signature.byteSize) = .ok signature ∧
      slice t 0 (a.range.2 + signature.byteSize) = .ok (a.before ++ a.gap ++ signature) := by
  have ht := eq_of_mem_cuts ha
  rw [eq_of_signature? h, ← List.append_assoc] at ht
  have hsignature := slice_append (a.before ++ a.gap) signature rest
  have hline := slice_zero (a.before ++ a.gap ++ signature) rest
  rw [ht, byteSize_append] at hsignature hline
  rw [byteSize_append] at hline
  exact ⟨hsignature, hline⟩

theorem readMethod_eq (policy : DisplayPolicy) (t : Text) :
    readMethod policy t = .ok (readMethod? policy t) := by
  rw [readMethod, gaps_eq, gapRanges, List.filter_map, findSomeM?_map (g := fun a : Cut =>
    (signature? a.after).map fun (signature, _) =>
      { kind := .method
        signature
        short := if policy.decorateShortDisplay then a.before ++ a.gap ++ signature else signature
        label := Kind.method.label })]
  · rw [readMethod?, findSome?_filter]
    intro a ha hend
    cases hafter : a.after with
    | nil => rfl
    | cons c u =>
      have hsize := congrArg byteSize (eq_of_mem_cuts ha)
      have hpos := c.utf8Size_pos
      have hlast := of_decide_eq_false hend
      simp only [hafter, byteSize_append, byteSize_cons] at hsize
      simp only [Cut.range] at hlast
      omega
  · intro a ha
    have ha := (List.mem_filter.1 ha).1
    simp only [sliceFrom_behind ha, signatureSize_eq, ok_bind, signatureSize?]
    cases h : signature? a.after with
    | none => rfl
    | some parts =>
      obtain ⟨hsignature, hline⟩ := slices_signature ha h
      simp only [Option.map_some, hsignature, hline, ok_bind]
      split <;> rfl

theorem readConstructor_eq (t : Text) : readConstructor t = .ok (readConstructor? t) := by
  rw [readConstructor, signatureSize_eq, ok_bind, signatureSize?, readConstructor?]
  cases h : signature? t with
  | none => rfl
  | some parts =>
    obtain ⟨signature, rest⟩ := parts
    have hslice := slice_zero signature rest
    rw [← eq_of_signature? h] at hslice
    simp only [Option.map_some, hslice, ok_bind]
    rfl

theorem readField_eq (policy : DisplayPolicy) (t : Text) :
    readField policy t = .ok (readField? policy (trimEnd t)) := by
  rw [readField, gaps_eq, gapRanges, List.getLast?_map, readField?]
  cases h : (cuts (trimEnd t)).getLast? with
  | none => rfl
  | some a =>
    obtain ⟨ha, hword⟩ := (getLast?_cuts_eq_some_iff (solidBehind_trimEnd t)).1 h
    have hslice := sliceFrom_append a.before (a.gap ++ a.after)
    rw [← List.append_assoc, ha.eq] at hslice
    have hname : trimStart (a.gap ++ a.after) = a.after := by
      rw [trimStart_append ha.isBlanks_gap, trimStart_of_solidAhead ha.solidAhead_after]
    simp only [Option.map_some, Cut.range, hslice, ok_bind, hname, hword.ne_nil, false_or]
    split <;> rfl

def readers (policy : DisplayPolicy) : List (Text → Except Fault (Option Classification)) :=
  [readType policy, readMethod policy, readConstructor, readField policy]

def classify (policy : DisplayPolicy) (line : Text) :
    Except Fault (Except Cause Classification) := do
  let b ← declarator line
  match ← (readers policy).findSomeM? fun read => read b with
  | some c => return .ok c
  | none => return .error (.unparseable (trim line))

/-- The text in front of the last character of a raw line, trimmed on both sides. -/
def textOf (raw : Text) : Except Fault Text := do
  let t := trim raw
  match (chars t).getLast? with
  | none => return trim t
  | some (n, _) => return trim (← slice t 0 n)

theorem findSomeM?_readers {t : Text} (ht : SolidBehind t) :
    (readers policy).findSomeM? (fun read => read t) = .ok (readDeclarator? policy t) := by
  have hfield := readField_eq policy t
  rw [trimEnd_of_solidBehind ht] at hfield
  simp only [readers, List.findSomeM?, readType_eq, readMethod_eq, readConstructor_eq, hfield,
    ok_bind, readDeclarator?]
  cases readType? policy t <;> cases readMethod? policy t <;> cases readConstructor? t <;>
    cases readField? policy t <;> rfl

theorem classify_eq (policy : DisplayPolicy) (line : Text) :
    classify policy line = .ok (Declaration.classify policy line) := by
  simp only [classify, declarator_eq, ok_bind, findSomeM?_readers (solidBehind_declarator line)]
  rw [Declaration.classify, classify?]
  cases readDeclarator? policy (Declaration.declarator line) <;> rfl

theorem textOf_eq (raw : Text) : textOf raw = .ok (Declaration.textOf raw) := by
  rw [textOf, Declaration.textOf]
  rcases List.eq_nil_or_concat (trim raw) with hnil | ⟨t, c, hlast⟩
  · rw [hnil]
    rfl
  · have hslice := slice_zero t [c]
    rw [List.concat_eq_append] at hlast
    simp only [hlast, chars, charsFrom_append, charsFrom, Nat.zero_add, List.getLast?_append,
      List.getLast?_singleton, Option.some_or, hslice, ok_bind, List.dropLast_concat]
    rfl

end Surface.Offsets
