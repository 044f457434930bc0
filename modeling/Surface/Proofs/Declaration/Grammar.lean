import Surface.Declaration.Classification
import Surface.Proofs.Declaration.Initializer
import Surface.Proofs.Declaration.Modifiers

/-! # The grammar of declaration lines

A line has exactly one declarator: what its leading modifiers and its initializer leave of it. The
forms of a declarator are stated by the words that it is made of, each form only where those before
it do not apply. Classification accepts exactly the declarators of one of these forms, with the kind
and the signature of the form, and refuses all others with the trimmed line as the offending text.
-/

namespace Surface.Declaration

open Text

/-- `b` is left of the trimmed line without its modifiers and without its initializer. -/
def IsDeclarator (line b : Text) : Prop := ∃ r, Strips (trim line) r ∧ CutsInitializer r b

/-- The text `name(parameters)` with the opening parenthesis inside a word, behind the word's first
character, and no closing parenthesis in what follows. -/
structure IsSignature (signature rest : Text) : Prop where
  parts : ∃ c name parameters, signature = c :: name ++ '(' :: parameters ++ [')'] ∧
    IsSolid (c :: name) ∧ '(' ∉ name
  last : ')' ∉ rest

/-- A word of `b` begins behind `before`, and with it a signature that runs through the last
closing parenthesis of `b`. -/
structure SignatureAt (b before signature : Text) : Prop where
  blankBehind : BlankBehind before
  parts : ∃ rest, b = before ++ signature ++ rest ∧ IsSignature signature rest

/-- A type keyword is the first word, and `name` the second. -/
def DeclaresType (b name : Text) : Prop :=
  ∃ keyword ∈ typeKeywords, ∃ gap rest, b = keyword ++ gap ++ name ++ rest ∧ gap ≠ [] ∧
    IsBlanks gap ∧ IsWord name ∧ BlankAhead rest

/-- Of the words behind the first one, the earliest that begins a signature stands behind
`before`. -/
structure MethodAt (b before signature : Text) : Prop where
  ne_nil : before ≠ []
  signatureAt : SignatureAt b before signature
  earliest : ∀ front other, front ≠ [] → SignatureAt b front other → before.length ≤ front.length

def DeclaresMethod (b signature : Text) : Prop := ∃ before, MethodAt b before signature

def DeclaresConstructor (b signature : Text) : Prop := SignatureAt b [] signature

/-- The name is the last of several words, and no parenthesis is in it. -/
def DeclaresField (b name : Text) : Prop :=
  ∃ before, before ≠ [] ∧ b = before ++ name ∧ BlankBehind before ∧ IsWord name ∧
    '(' ∉ name ∧ ')' ∉ name

inductive Declares (b : Text) : Kind → Text → Prop
  | type {name : Text} : DeclaresType b name → Declares b .type name
  | method {signature : Text} : (∀ name, ¬ DeclaresType b name) → DeclaresMethod b signature →
      Declares b .method signature
  | constructor {signature : Text} : (∀ name, ¬ DeclaresType b name) →
      (∀ other, ¬ DeclaresMethod b other) → DeclaresConstructor b signature →
      Declares b .constructor signature
  | field {name : Text} : (∀ name, ¬ DeclaresType b name) → (∀ other, ¬ DeclaresMethod b other) →
      (∀ other, ¬ DeclaresConstructor b other) → DeclaresField b name → Declares b .field name

theorem isDeclarator_iff {line b : Text} : IsDeclarator line b ↔ b = declarator line := by
  constructor
  · rintro ⟨r, hr, hb⟩
    rw [strips_iff (solidAhead_trim line)] at hr
    rw [declarator, ← hr]
    exact cutsInitializer_iff.1 hb
  · intro h
    exact ⟨stripModifiers (trim line), (strips_iff (solidAhead_trim line)).2 rfl,
      cutsInitializer_iff.2 h⟩

example : declarator "public static  final int MAX = 5".toList = "int MAX".toList := by
  decide +kernel

theorem solidBehind_declarator (line : Text) : SolidBehind (declarator line) := by
  obtain ⟨r, hr, hb⟩ := isDeclarator_iff.2 (rfl : declarator line = declarator line)
  rcases hb.cut with heq | ⟨hsolid, -⟩
  · obtain ⟨run, -, hline⟩ := hr.run
    rw [heq]
    by_cases hnil : r = []
    · rw [hnil]
      intro c hc
      cases hc
    · have htrim := solidBehind_trim line
      rw [hline] at htrim
      exact htrim.of_append hnil
  · exact hsolid

theorem declarator_isInfix (line : Text) : declarator line <:+: line :=
  (dropInitializer_isPrefix _).isInfix.trans
    ((stripModifiers_suffix _).isInfix.trans (trim_isInfix line))

theorem isSignature_of_signature? {t signature rest : Text}
    (h : signature? t = some (signature, rest)) : IsSignature signature rest := by
  revert h
  fun_cases signature? t with
  | case1 => simp
  | case2 => simp
  | case3 c t hc inName parameters hp =>
    intro h
    obtain ⟨⟨upTo, r⟩, hs, he⟩ := Option.map_eq_some_iff.1 h
    obtain ⟨rfl, rfl⟩ := Prod.mk.inj he
    obtain ⟨-, hlast, hrest⟩ := splitAfterLast?_eq_some hs
    obtain ⟨inner, rfl⟩ := List.getLast?_eq_some_iff.1 hlast
    have hname : ∀ x ∈ t.takeWhile inName, inName x = true :=
      fun x hx => List.all_eq_true.1 List.all_takeWhile x hx
    refine ⟨⟨c, t.takeWhile inName, inner, by simp, ?_, fun hx => ?_⟩, hrest⟩
    · intro x hx
      rcases List.mem_cons.1 hx with rfl | hx
      · simpa using hc
      · have := hname x hx
        simp only [inName, Bool.and_eq_true, Bool.not_eq_true'] at this
        exact this.1
    · have := hname _ hx
      simp [inName] at this
  | case4 => simp

theorem IsSignature.signature?_append {signature rest : Text} (h : IsSignature signature rest) :
    signature? (signature ++ rest) = some (signature, rest) := by
  obtain ⟨⟨c, name, parameters, rfl, hsolid, hname⟩, hrest⟩ := h
  have hc : isBlank c = false := hsolid c List.mem_cons_self
  have hin : ∀ x ∈ name, (!isBlank x && x != '(') = true := by
    intro x hx
    have hx' : x ≠ '(' := fun h => hname (h ▸ hx)
    simp [hsolid x (List.mem_cons_of_mem _ hx), hx']
  simp only [List.cons_append, List.append_assoc, signature?, hc, Bool.false_eq_true, if_false]
  rw [List.dropWhile_append_of_pos hin, List.takeWhile_append_of_pos hin]
  simp [splitAfterLast?_append parameters hrest]

theorem signature?_eq_some_iff {t signature rest : Text} :
    signature? t = some (signature, rest) ↔ t = signature ++ rest ∧ IsSignature signature rest := by
  constructor
  · intro h
    exact ⟨eq_of_signature? h, isSignature_of_signature? h⟩
  · rintro ⟨rfl, h⟩
    exact h.signature?_append

theorem IsSignature.solidAhead {signature rest : Text} (h : IsSignature signature rest) :
    SolidAhead (signature ++ rest) := by
  obtain ⟨c, name, parameters, rfl, hsolid, -⟩ := h.parts
  intro x hx
  cases hx
  exact hsolid c List.mem_cons_self

theorem isSolid_of_mem_typeKeywords {keyword : Text} (h : keyword ∈ typeKeywords) :
    IsSolid keyword := by
  have hall : ∀ keyword ∈ typeKeywords, IsSolid keyword := by decide
  exact hall keyword h

theorem declaresType_of_readType? {policy : DisplayPolicy} {t : Text} {c : Classification}
    (h : readType? policy t = some c) : c.kind = .type ∧ DeclaresType t c.signature := by
  simp only [readType?] at h
  split at h
  next hcond =>
    cases h
    obtain ⟨hkeyword, hname⟩ := hcond
    have hbehind : afterLeadingWord t ≠ [] := by
      intro hnil
      rw [hnil] at hname
      exact hname rfl
    obtain ⟨gap, hgapne, hgap, hnamed⟩ := (blankAhead_afterLeadingWord t).exists_gap hbehind
    refine ⟨rfl, leadingWord t, by simpa using hkeyword, gap,
      afterLeadingWord (trimStart (afterLeadingWord t)), ?_, hgapne, hgap,
      ⟨hname, isSolid_leadingWord _⟩, blankAhead_afterLeadingWord _⟩
    rw [List.append_assoc, leadingWord_append_afterLeadingWord, List.append_assoc, ← hnamed,
      leadingWord_append_afterLeadingWord]
  next => cases h

theorem DeclaresType.readType? {t name : Text} (h : DeclaresType t name) (policy : DisplayPolicy) :
    ∃ c, Declaration.readType? policy t = some c ∧ c.kind = .type ∧ c.signature = name := by
  obtain ⟨keyword, hmem, gap, rest, rfl, hne, hgap, hname, hrest⟩ := h
  have hkeyword := isSolid_of_mem_typeKeywords hmem
  have htail : keyword ++ gap ++ name ++ rest = keyword ++ (gap ++ (name ++ rest)) := by simp
  have hahead := hgap.ahead_append hne (name ++ rest)
  have hnamed : trimStart (gap ++ (name ++ rest)) = name ++ rest := by
    rw [trimStart_append hgap, trimStart_of_solidAhead (hname.isSolid.ahead.append hname.ne_nil)]
  have hcond : typeKeywords.contains keyword = true := by simpa using hmem
  simp only [Declaration.readType?, htail, leadingWord_append hkeyword hahead,
    afterLeadingWord_append hkeyword hahead, hnamed, leadingWord_append hname.isSolid hrest, hcond,
    hname.ne_nil, ne_eq, not_false_eq_true, and_self, if_true]
  exact ⟨_, rfl, rfl, rfl⟩

theorem signatureAt_of_cut {t signature rest : Text} {a : Cut} (ha : a.Divides t)
    (h : signature? a.after = some (signature, rest)) :
    SignatureAt t (a.before ++ a.gap) signature := by
  obtain ⟨hafter, hsignature⟩ := signature?_eq_some_iff.1 h
  refine ⟨ha.isBlanks_gap.behind.append _ ha.gap_ne_nil, rest, ?_, hsignature⟩
  rw [List.append_assoc, ← hafter, ha.eq]

theorem SignatureAt.exists_cut {t before signature : Text} (h : SignatureAt t before signature)
    (hne : before ≠ []) : ∃ a : Cut, a.Divides t ∧ a.before ++ a.gap = before ∧
      ∃ rest, signature? a.after = some (signature, rest) := by
  obtain ⟨rest, rfl, hsignature⟩ := h.parts
  obtain ⟨a, ha, hbefore, hafter⟩ :=
    exists_cut_of_blankBehind hne h.blankBehind hsignature.solidAhead
  refine ⟨a, by rwa [List.append_assoc], hbefore, rest, ?_⟩
  rw [hafter]
  exact signature?_eq_some_iff.2 ⟨rfl, hsignature⟩

/-- A method is read at the earliest cut that a signature follows. -/
theorem readMethod?_eq_some_iff {policy : DisplayPolicy} {t : Text} {c : Classification} :
    readMethod? policy t = some c ↔ ∃ before signature, MethodAt t before signature ∧
      c = { kind := .method
            signature := signature
            short := if policy.decorateShortDisplay then before ++ signature else signature
            label := Kind.method.label } := by
  rw [readMethod?]
  constructor
  · intro h
    obtain ⟨as, a, bs, hcuts, ha, hfirst⟩ := List.findSome?_eq_some_iff.1 h
    obtain ⟨⟨signature, rest⟩, hsig, hc⟩ := Option.map_eq_some_iff.1 ha
    have hdiv : a.Divides t := mem_cuts_iff.1 (by rw [hcuts]; simp)
    refine ⟨a.before ++ a.gap, signature, ⟨by simp [hdiv.gap_ne_nil], signatureAt_of_cut hdiv hsig,
      fun front other hne hat => ?_⟩, hc.symm⟩
    obtain ⟨b, hb, hfront, rest', hother⟩ := hat.exists_cut hne
    rw [← hfront]
    rcases mem_or_precedes_of_cuts_eq hcuts hb with hmem | heq | hprec
    · have hnone := hfirst b hmem
      rw [hother] at hnone
      cases hnone
    · exact heq ▸ Nat.le_refl _
    · exact Nat.le_of_lt hprec.length_lt
  · rintro ⟨before, signature, hmethod, rfl⟩
    obtain ⟨a, ha, hbefore, rest, hsig⟩ := hmethod.signatureAt.exists_cut hmethod.ne_nil
    obtain ⟨as, bs, hcuts⟩ := List.append_of_mem (mem_cuts_iff.2 ha)
    refine List.findSome?_eq_some_iff.2 ⟨as, a, bs, hcuts, by rw [hsig, hbefore]; rfl,
      fun b hb => ?_⟩
    rw [Option.map_eq_none_iff, Option.eq_none_iff_forall_ne_some]
    rintro ⟨other, rest'⟩ hother
    have hbdiv : b.Divides t := mem_cuts_iff.1 (by rw [hcuts]; simp [hb])
    have hle := hmethod.earliest _ other (by simp [hbdiv.gap_ne_nil])
      (signatureAt_of_cut hbdiv hother)
    have hlt := (precedes_of_mem_before hcuts hb).length_lt
    rw [hbefore] at hlt
    omega

theorem readConstructor?_eq_some_iff {t : Text} {c : Classification} :
    readConstructor? t = some c ↔ ∃ signature, DeclaresConstructor t signature ∧
      c = { kind := .constructor
            signature := signature
            short := signature
            label := Kind.constructor.label } := by
  rw [readConstructor?, Option.map_eq_some_iff]
  constructor
  · rintro ⟨⟨signature, rest⟩, hsig, rfl⟩
    obtain ⟨ht, hsignature⟩ := signature?_eq_some_iff.1 hsig
    refine ⟨signature, ⟨?_, rest, ht, hsignature⟩, rfl⟩
    intro x hx
    cases hx
  · rintro ⟨signature, ⟨-, rest, ht, hsignature⟩, rfl⟩
    exact ⟨(signature, rest), signature?_eq_some_iff.2 ⟨ht, hsignature⟩, rfl⟩

theorem readField?_eq_some_iff {policy : DisplayPolicy} {t : Text} (ht : SolidBehind t)
    {c : Classification} :
    readField? policy t = some c ↔ ∃ name, DeclaresField t name ∧
      c = { kind := .field
            signature := name
            short := if policy.decorateShortDisplay then t else name
            label := Kind.field.label } := by
  rw [readField?]
  constructor
  · intro h
    cases hlast : (cuts t).getLast? with
    | none => rw [hlast] at h; cases h
    | some a =>
      obtain ⟨ha, hword⟩ := (getLast?_cuts_eq_some_iff ht).1 hlast
      simp only [hlast] at h
      split at h
      · cases h
      next hparen =>
        cases h
        rw [not_or] at hparen
        exact ⟨a.after, ⟨a.before ++ a.gap, by simp [ha.gap_ne_nil], ha.eq.symm,
          ha.isBlanks_gap.behind.append _ ha.gap_ne_nil, hword, hparen.1, hparen.2⟩, rfl⟩
  · rintro ⟨name, ⟨before, hne, rfl, hbehind, hword, hopen, hclose⟩, rfl⟩
    obtain ⟨a, ha, -, rfl⟩ := exists_cut_of_blankBehind hne hbehind hword.isSolid.ahead
    rw [(getLast?_cuts_eq_some_iff ht).2 ⟨ha, hword⟩]
    simp [hopen, hclose]

theorem readType?_eq_none_iff {policy : DisplayPolicy} {b : Text} :
    readType? policy b = none ↔ ∀ name, ¬ DeclaresType b name := by
  rw [Option.eq_none_iff_forall_ne_some]
  constructor
  · intro h name hname
    obtain ⟨c, hc, -⟩ := hname.readType? policy
    exact h c hc
  · intro h c hc
    exact h _ (declaresType_of_readType? hc).2

theorem readMethod?_eq_none_iff {policy : DisplayPolicy} {b : Text} :
    readMethod? policy b = none ↔ ∀ signature, ¬ DeclaresMethod b signature := by
  rw [Option.eq_none_iff_forall_ne_some]
  constructor
  · rintro h signature ⟨before, hat⟩
    exact h _ (readMethod?_eq_some_iff.2 ⟨before, signature, hat, rfl⟩)
  · intro h c hc
    obtain ⟨before, signature, hat, -⟩ := readMethod?_eq_some_iff.1 hc
    exact h signature ⟨before, hat⟩

theorem readConstructor?_eq_none_iff {b : Text} :
    readConstructor? b = none ↔ ∀ signature, ¬ DeclaresConstructor b signature := by
  rw [Option.eq_none_iff_forall_ne_some]
  constructor
  · intro h signature hsig
    exact h _ (readConstructor?_eq_some_iff.2 ⟨signature, hsig, rfl⟩)
  · intro h c hc
    obtain ⟨signature, hsig, -⟩ := readConstructor?_eq_some_iff.1 hc
    exact h signature hsig

/-- Each reader is asked only where those before it have nothing to say. -/
theorem readDeclarator?_eq_some_iff {policy : DisplayPolicy} {b : Text} {c : Classification} :
    readDeclarator? policy b = some c ↔
      readType? policy b = some c ∨ (∀ name, ¬ DeclaresType b name) ∧
        (readMethod? policy b = some c ∨ (∀ signature, ¬ DeclaresMethod b signature) ∧
          (readConstructor? b = some c ∨ (∀ signature, ¬ DeclaresConstructor b signature) ∧
            readField? policy b = some c)) := by
  simp only [readDeclarator?, Option.orElse_eq_orElse, Option.orElse_eq_or, Option.or_eq_some_iff,
    readType?_eq_none_iff, readMethod?_eq_none_iff, readConstructor?_eq_none_iff]

theorem declares_iff {b : Text} (hb : SolidBehind b) (policy : DisplayPolicy) {kind : Kind}
    {signature : Text} :
    Declares b kind signature ↔
      ∃ c, readDeclarator? policy b = some c ∧ c.kind = kind ∧ c.signature = signature := by
  simp only [readDeclarator?_eq_some_iff]
  constructor
  · intro h
    cases h with
    | type htype =>
      obtain ⟨c, hc, hkind, hsig⟩ := htype.readType? policy
      exact ⟨c, .inl hc, hkind, hsig⟩
    | method notype hmethod =>
      obtain ⟨before, hat⟩ := hmethod
      have hc : readMethod? policy b = some _ :=
        readMethod?_eq_some_iff.2 ⟨before, signature, hat, rfl⟩
      exact ⟨_, .inr ⟨notype, .inl hc⟩, rfl, rfl⟩
    | constructor notype nomethod hconstructor =>
      have hc := readConstructor?_eq_some_iff.2 ⟨signature, hconstructor, rfl⟩
      exact ⟨_, .inr ⟨notype, .inr ⟨nomethod, .inl hc⟩⟩, rfl, rfl⟩
    | field notype nomethod noconstructor hfield =>
      have hc : readField? policy b = some _ :=
        (readField?_eq_some_iff hb).2 ⟨signature, hfield, rfl⟩
      exact ⟨_, .inr ⟨notype, .inr ⟨nomethod, .inr ⟨noconstructor, hc⟩⟩⟩, rfl, rfl⟩
  · rintro ⟨c, hc, rfl, rfl⟩
    rcases hc with htype | ⟨notype, hmethod | ⟨nomethod, hconstructor | ⟨noconstructor, hfield⟩⟩⟩
    · obtain ⟨hkind, hdeclares⟩ := declaresType_of_readType? htype
      rw [hkind]
      exact .type hdeclares
    · obtain ⟨before, signature, hat, rfl⟩ := readMethod?_eq_some_iff.1 hmethod
      exact .method notype ⟨before, hat⟩
    · obtain ⟨signature, hdeclares, rfl⟩ := readConstructor?_eq_some_iff.1 hconstructor
      exact .constructor notype nomethod hdeclares
    · obtain ⟨name, hdeclares, rfl⟩ := (readField?_eq_some_iff hb).1 hfield
      exact .field notype nomethod noconstructor hdeclares

theorem classify_eq_ok_iff {policy : DisplayPolicy} {line : Text} {c : Classification} :
    classify policy line = .ok c ↔ readDeclarator? policy (declarator line) = some c := by
  unfold classify classify?
  cases readDeclarator? policy (declarator line) <;> simp

theorem classify_eq_error_iff {policy : DisplayPolicy} {line : Text} {cause : Cause} :
    classify policy line = .error cause ↔
      readDeclarator? policy (declarator line) = none ∧ cause = .unparseable (trim line) := by
  unfold classify classify?
  cases readDeclarator? policy (declarator line) <;> simp [eq_comm]

/-- The kind and the signature of the form of its only declarator are those of a line, and a line
without such a form is refused with its trimmed text. -/
theorem classify_iff_declares (policy : DisplayPolicy) (line : Text) :
    ∃ b, IsDeclarator line b ∧ (∀ other, IsDeclarator line other → other = b) ∧
      (∀ kind signature, Declares b kind signature ↔
        ∃ c, classify policy line = .ok c ∧ c.kind = kind ∧ c.signature = signature) ∧
      ((∀ kind signature, ¬ Declares b kind signature) ↔
        ∃ cause, classify policy line = .error cause ∧
          cause.failure.kind.code = "ERR_PARSE".toList ∧
          cause.failure.text = some (trim line)) := by
  have hb := solidBehind_declarator line
  refine ⟨declarator line, isDeclarator_iff.2 rfl, fun other => isDeclarator_iff.1,
    fun kind signature => ?_, ?_⟩
  · simp only [declares_iff hb policy, classify_eq_ok_iff]
  · constructor
    · intro h
      have hnone : readDeclarator? policy (declarator line) = none := by
        rw [Option.eq_none_iff_forall_ne_some]
        intro c hc
        exact h _ _ ((declares_iff hb policy).2 ⟨c, hc, rfl, rfl⟩)
      exact ⟨_, classify_eq_error_iff.2 ⟨hnone, rfl⟩, rfl, rfl⟩
    · rintro ⟨cause, hcause, -⟩ kind signature h
      obtain ⟨c, hc, -⟩ := (declares_iff hb policy).1 h
      rw [(classify_eq_error_iff.1 hcause).1] at hc
      cases hc

end Surface.Declaration
