import Surface.Proofs.Declaration.Surroundings

/-! # Written declarations

A declaration is written in one of four forms, with any blanks in its gaps. On a line it stands
between blanks and behind modifiers, and a field may have an initializer. Each form is classified as
itself: it is not taken for an earlier form, and modifiers and initializers take nothing of it away.
-/

namespace Surface.Declaration

open Text

structure IsGap (gap : Text) : Prop where
  ne_nil : gap ≠ []
  isBlanks : IsBlanks gap

/-- The type in front of a member's name; there may be gaps in it. -/
structure IsTypeText (type : Text) : Prop where
  ne_nil : type ≠ []
  solidAhead : SolidAhead type
  solidBehind : SolidBehind type
  noOpen : '(' ∉ type
  noClose : ')' ∉ type
  noModifier : leadingWord type ∉ modifiers
  noKeyword : leadingWord type ∉ typeKeywords

structure IsMemberName (name : Text) : Prop extends IsWord name where
  noOpen : '(' ∉ name
  noClose : ')' ∉ name

def call (name parameters : Text) : Text := name ++ '(' :: parameters ++ [')']

/-- The word `=` stands in the text. -/
def HasEquals (t : Text) : Prop :=
  ∃ front rest, t = front ++ '=' :: rest ∧ BlankBehind front ∧ BlankAhead rest

theorem HasEquals.equals_mem {t : Text} (h : HasEquals t) : '=' ∈ t := by
  obtain ⟨front, rest, rfl, -⟩ := h
  simp

/-- A word behind a gap has an opening parenthesis behind its first character. -/
def OpensBehindGap (t : Text) : Prop :=
  ∃ front c name rest, t = front ++ (c :: name ++ '(' :: rest) ∧ front ≠ [] ∧ BlankBehind front ∧
    IsSolid (c :: name)

/-- The text of a declaration, with the kind that is meant, its signature, and the display that
shows the type of a member. -/
inductive Written : Text → Kind → Text → Text → Prop
  | type {keyword gap name clause : Text} : keyword ∈ typeKeywords → IsGap gap → IsWord name →
      BlankAhead clause → Written (keyword ++ gap ++ name ++ clause) .type name name
  | method {type gap name parameters tail : Text} : IsTypeText type → IsGap gap →
      IsMemberName name → ')' ∉ tail →
      Written (type ++ gap ++ call name parameters ++ tail) .method (call name parameters)
        (type ++ gap ++ call name parameters)
  | constructor {name parameters tail : Text} : IsMemberName name → ¬ OpensBehindGap parameters →
      ')' ∉ tail →
      Written (call name parameters ++ tail) .constructor (call name parameters)
        (call name parameters)
  | field {type gap name : Text} : IsTypeText type → IsGap gap → IsMemberName name →
      Written (type ++ gap ++ name) .field name (type ++ gap ++ name)

/-- A line with one declaration on it. -/
inductive OnLine (t : Text) (kind : Kind) : Text → Prop
  | plain {before run after : Text} : IsBlanks before → ModifierRun run → IsBlanks after →
      OnLine t kind (before ++ run ++ t ++ after)
  | initialized {before run gap value : Text} : kind = .field → IsBlanks before →
      ModifierRun run → IsGap gap → BlankAhead value →
      OnLine t kind (before ++ run ++ t ++ gap ++ '=' :: value)

variable {b t type gap name parameters tail front signature : Text}

theorem IsGap.leadingWord_append (hgap : IsGap gap) (w rest : Text) :
    leadingWord (w ++ gap ++ rest) = leadingWord w := by
  rw [List.append_assoc]
  exact leadingWord_append_blank w (hgap.isBlanks.ahead_append hgap.ne_nil rest)

theorem leadingWord_of_declaresType (h : DeclaresType b name) : leadingWord b ∈ typeKeywords := by
  obtain ⟨keyword, hmem, gap, rest, rfl, hne, hgap, -⟩ := h
  have hword := (⟨hne, hgap⟩ : IsGap gap).leadingWord_append keyword (name ++ rest)
  have hkeyword := leadingWord_append (isSolid_of_mem_typeKeywords hmem) (t := [])
    (fun c hc => by cases hc)
  rw [List.append_nil] at hkeyword
  rw [List.append_assoc _ name rest, hword, hkeyword]
  exact hmem

theorem open_mem_leadingWord (hname : IsSolid name) (rest : Text) :
    '(' ∈ leadingWord (name ++ '(' :: rest) := by
  have hopen : IsSolid ['('] := by decide
  have hin : ∀ c ∈ name ++ ['('], (!isBlank c) = true := by
    intro c hc
    simp [(isSolid_append.2 ⟨hname, hopen⟩) c hc]
  unfold leadingWord
  rw [← List.singleton_append, ← List.append_assoc, List.takeWhile_append_of_pos hin]
  simp

/-- The word in which a signature begins holds its opening parenthesis. -/
theorem IsSignature.open_mem_leadingWord {rest : Text} (h : IsSignature signature rest) :
    '(' ∈ leadingWord (signature ++ rest) := by
  obtain ⟨c, name, parameters, rfl, hsolid, -⟩ := h.parts
  have hword := Declaration.open_mem_leadingWord hsolid (parameters ++ ')' :: rest)
  simpa using hword

theorem isSignature_call (hname : IsMemberName name) (parameters : Text) (htail : ')' ∉ tail) :
    IsSignature (call name parameters) tail := by
  obtain ⟨c, s, rfl⟩ := List.exists_cons_of_ne_nil hname.ne_nil
  refine ⟨⟨c, s, parameters, rfl, hname.isSolid, fun h => ?_⟩, htail⟩
  exact hname.noOpen (List.mem_cons_of_mem c h)

theorem open_mem_leadingWord_call (hname : IsMemberName name) (parameters tail : Text) :
    '(' ∈ leadingWord (call name parameters ++ tail) := by
  have h := open_mem_leadingWord hname.isSolid (parameters ++ ')' :: tail)
  simpa [call] using h

/-- No signature begins in a type or in the gap behind it: the word in which it begins would be one
of the type, or what is left of the gap would stand in front of it. -/
theorem SignatureAt.length_le {rest : Text} (h : SignatureAt (type ++ gap ++ rest) front signature)
    (hopen : '(' ∉ type) (hgap : IsGap gap) : (type ++ gap).length ≤ front.length := by
  obtain ⟨behind, heq, hsignature⟩ := h.parts
  rw [List.append_assoc, List.append_assoc] at heq
  rcases List.append_eq_append_iff.1 heq with ⟨u, hfront, hrest⟩ | ⟨u, htype, hrest⟩
  · rcases List.append_eq_append_iff.1 hrest with ⟨v, hu, -⟩ | ⟨v, hgapeq, hbehind⟩
    · simp [hfront, hu]
    · have hsolid := hsignature.solidAhead
      have hblanks := hgap.isBlanks
      rw [hgapeq, isBlanks_append] at hblanks
      have hv : v = [] := by
        rw [hbehind] at hsolid
        cases v with
        | nil => rfl
        | cons c v => exact hblanks.2.ahead.eq_nil hsolid
      simp [hfront, hgapeq, hv]
  · have hmem := hsignature.open_mem_leadingWord
    rw [hrest, leadingWord_append_blank u (hgap.isBlanks.ahead_append hgap.ne_nil rest)] at hmem
    have hsub : leadingWord u ⊆ u := List.takeWhile_subset _
    exact absurd (htype ▸ List.mem_append_right front (hsub hmem)) hopen

theorem mem_of_cons_eq_append {x y z : Char} {w rest : Text} (h : x :: tail = w ++ z :: rest)
    (hy : y ∈ rest) : y ∈ tail := by
  cases w with
  | nil =>
    obtain ⟨-, rfl⟩ := List.cons.inj h
    exact hy
  | cons x' w =>
    obtain ⟨-, rfl⟩ := List.cons.inj h
    simp [hy]

/-- Behind a call's first word no signature begins, unless a word of the parameters opens one. -/
theorem not_signatureAt_call (hname : IsMemberName name) (hopens : ¬ OpensBehindGap parameters)
    (htail : ')' ∉ tail) (hne : front ≠ []) :
    ¬ SignatureAt (call name parameters ++ tail) front signature := by
  intro h
  obtain ⟨behind, heq, ⟨⟨c, other, inner, rfl, hother, -⟩, -⟩⟩ := h.parts
  have hopen : IsSolid ['('] := by decide
  have hword : IsSolid (name ++ ['(']) := isSolid_append.2 ⟨hname.isSolid, hopen⟩
  have hwhole : name ++ ['('] ++ (parameters ++ ')' :: tail) =
      front ++ (c :: other ++ '(' :: (inner ++ ')' :: behind)) := by simpa [call] using heq
  rcases List.append_eq_append_iff.1 hwhole with ⟨u, hfront, hrest⟩ | ⟨u, hfront, -⟩
  · have hu : u ≠ [] := by
      intro hnil
      rw [hnil, List.append_nil] at hfront
      exact hne (h.blankBehind.eq_nil (hfront ▸ hword.behind))
    have hbehind : BlankBehind u := (hfront ▸ h.blankBehind).of_append hu
    rcases List.append_eq_append_iff.1 hrest with ⟨v, -, hsig⟩ | ⟨v, hparameters, hsig⟩
    · exact htail (mem_of_cons_eq_append hsig (by simp))
    · rcases List.append_eq_append_iff.1 hsig with ⟨w, hv, hinner⟩ | ⟨w, -, hinner⟩
      · cases w with
        | nil => cases hinner
        | cons x w =>
          obtain ⟨rfl, -⟩ := List.cons.inj hinner
          exact hopens ⟨u, c, other, w, hv ▸ hparameters, hu, hbehind, hother⟩
      · exact htail (mem_of_cons_eq_append hinner (by simp))
  · rw [hfront, isSolid_append] at hword
    exact hne (h.blankBehind.eq_nil hword.1.behind)

theorem not_declaresType (hb : leadingWord b ∉ typeKeywords) (name : Text) :
    ¬ DeclaresType b name := fun h => hb (leadingWord_of_declaresType h)

theorem readDeclarator?_method (policy : DisplayPolicy) (htype : IsTypeText type)
    (hgap : IsGap gap) (hname : IsMemberName name) (parameters : Text) (htail : ')' ∉ tail) :
    readDeclarator? policy (type ++ gap ++ call name parameters ++ tail) = some
      { kind := .method
        signature := call name parameters
        short := if policy.decorateShortDisplay then type ++ gap ++ call name parameters
          else call name parameters
        label := Kind.method.label } := by
  have hword : leadingWord (type ++ gap ++ call name parameters ++ tail) ∉ typeKeywords := by
    rw [List.append_assoc, hgap.leadingWord_append]
    exact htype.noKeyword
  have hbehind : BlankBehind (type ++ gap) := hgap.isBlanks.behind.append type hgap.ne_nil
  have hat : MethodAt (type ++ gap ++ call name parameters ++ tail) (type ++ gap)
      (call name parameters) := by
    refine ⟨by simp [htype.ne_nil], ⟨hbehind, tail, rfl, isSignature_call hname _ htail⟩, ?_⟩
    intro front other _ h
    rw [List.append_assoc] at h
    exact h.length_le htype.noOpen hgap
  apply readDeclarator?_eq_some_iff.2
  exact .inr ⟨not_declaresType hword, .inl (readMethod?_eq_some_iff.2 ⟨_, _, hat, rfl⟩)⟩

theorem readDeclarator?_constructor (policy : DisplayPolicy) (hname : IsMemberName name)
    (hopens : ¬ OpensBehindGap parameters) (htail : ')' ∉ tail) :
    readDeclarator? policy (call name parameters ++ tail) = some
      { kind := .constructor
        signature := call name parameters
        short := call name parameters
        label := Kind.constructor.label } := by
  have hkeywords : ∀ keyword ∈ typeKeywords, '(' ∉ keyword := by decide
  have hword : leadingWord (call name parameters ++ tail) ∉ typeKeywords :=
    fun h => hkeywords _ h (open_mem_leadingWord_call hname parameters tail)
  have hmethod : ∀ other, ¬ DeclaresMethod (call name parameters ++ tail) other := by
    rintro other ⟨front, hat⟩
    exact not_signatureAt_call hname hopens htail hat.ne_nil hat.signatureAt
  have hat : DeclaresConstructor (call name parameters ++ tail) (call name parameters) :=
    ⟨(fun c hc => by cases hc), tail, rfl, isSignature_call hname parameters htail⟩
  apply readDeclarator?_eq_some_iff.2
  exact .inr ⟨not_declaresType hword, .inr ⟨hmethod, .inl
    (readConstructor?_eq_some_iff.2 ⟨_, hat, rfl⟩)⟩⟩

theorem readDeclarator?_field (policy : DisplayPolicy) (htype : IsTypeText type) (hgap : IsGap gap)
    (hname : IsMemberName name) :
    readDeclarator? policy (type ++ gap ++ name) = some
      { kind := .field
        signature := name
        short := if policy.decorateShortDisplay then type ++ gap ++ name else name
        label := Kind.field.label } := by
  have hword : leadingWord (type ++ gap ++ name) ∉ typeKeywords := by
    rw [hgap.leadingWord_append]
    exact htype.noKeyword
  have hopen : '(' ∉ type ++ gap ++ name := by
    have hblank : '(' ∉ gap := fun h => absurd (hgap.isBlanks '(' h) (by decide)
    simp [htype.noOpen, hblank, hname.noOpen]
  have hmethod : ∀ other, ¬ DeclaresMethod (type ++ gap ++ name) other :=
    fun _ ⟨_, hat⟩ => hopen hat.signatureAt.open_mem
  have hconstructor : ∀ other, ¬ DeclaresConstructor (type ++ gap ++ name) other :=
    fun _ hat => hopen hat.open_mem
  have hfield : DeclaresField (type ++ gap ++ name) name :=
    ⟨type ++ gap, by simp [htype.ne_nil], rfl, hgap.isBlanks.behind.append type hgap.ne_nil,
      hname.toIsWord, hname.noOpen, hname.noClose⟩
  have hb : SolidBehind (type ++ gap ++ name) := hname.isSolid.behind.append _ hname.ne_nil
  apply readDeclarator?_eq_some_iff.2
  exact .inr ⟨not_declaresType hword, .inr ⟨hmethod, .inr ⟨hconstructor,
    (readField?_eq_some_iff hb).2 ⟨name, hfield, rfl⟩⟩⟩⟩

theorem HasEquals.of_trimEnd (h : HasEquals (trimEnd t)) : HasEquals t := by
  obtain ⟨front, rest, heq, hfront, hrest⟩ := h
  obtain ⟨g, hg, ht⟩ := exists_trimEnd_blanks t
  refine ⟨front, rest ++ g, ?_, hfront, hrest.append hg.ahead⟩
  rw [ht, heq]
  simp

theorem dropInitializer_of_not_hasEquals (h : ¬ HasEquals t) : dropInitializer t = t := by
  apply dropInitializer_of_not_hasInitializer
  rintro ⟨front, rest, heq, -, hfront, hrest⟩
  exact h ⟨front, rest, heq, hfront, hrest⟩

/-- Of the line only the declaration is left, without trailing blanks. -/
theorem OnLine.declarator_eq {kind : Kind} {line : Text} (h : OnLine t kind line)
    (ht : SolidAhead t) (hne : t ≠ []) (hm : leadingWord t ∉ modifiers) (hequals : ¬ HasEquals t) :
    declarator line = trimEnd t := by
  have hdrop : dropInitializer (trimEnd t) = trimEnd t :=
    dropInitializer_of_not_hasEquals fun h => hequals h.of_trimEnd
  cases h with
  | @plain before run after hbefore hrun hafter =>
    have hword : leadingWord (t ++ after) ∉ modifiers := by
      rwa [leadingWord_append_blank t hafter.ahead]
    rw [List.append_assoc _ t after, declarator_of_notMem_modifiers hbefore hrun (ht.append hne)
      (by simp [hne]) hword, trimEnd_append t hafter, hdrop]
  | @initialized before run gap value _ hbefore hrun hgap hvalue =>
    rw [declarator_initializer (not_onlyModifiers hbefore hrun ht hne hm) hgap.ne_nil
      hgap.isBlanks hvalue, declarator_of_notMem_modifiers hbefore hrun ht hne hm, hdrop]

/-- A declaration begins with a word that is no modifier. -/
theorem Written.begins {kind : Kind} {decorated : Text} (h : Written t kind signature decorated) :
    SolidAhead t ∧ t ≠ [] ∧ leadingWord t ∉ modifiers := by
  cases h with
  | @type keyword gap name clause hkeyword hgap hname hclause =>
    have hall : ∀ keyword ∈ typeKeywords, leadingWord keyword ∉ modifiers ∧ keyword ≠ [] := by
      decide
    obtain ⟨hm, hne⟩ := hall keyword hkeyword
    have hsolid := isSolid_of_mem_typeKeywords hkeyword
    simp only [List.append_assoc]
    refine ⟨hsolid.ahead.append hne, by simp [hne], ?_⟩
    rw [← List.append_assoc, hgap.leadingWord_append]
    exact hm
  | @method type gap name parameters tail htype hgap hname htail =>
    simp only [List.append_assoc]
    refine ⟨htype.solidAhead.append htype.ne_nil, by simp [htype.ne_nil], ?_⟩
    rw [← List.append_assoc, hgap.leadingWord_append]
    exact htype.noModifier
  | @constructor name parameters tail hname hopens htail =>
    refine ⟨(isSignature_call hname parameters htail).solidAhead, by simp [call], fun hm => ?_⟩
    exact open_notMem_of_mem_modifiers hm (open_mem_leadingWord_call hname parameters tail)
  | @field type gap name htype hgap hname =>
    rw [hgap.leadingWord_append, List.append_assoc]
    exact ⟨htype.solidAhead.append htype.ne_nil, by simp [htype.ne_nil], htype.noModifier⟩

theorem solidBehind_call (front name parameters : Text) :
    SolidBehind (front ++ call name parameters) := by
  have hclose : SolidBehind [')'] := by decide
  rw [call, ← List.append_assoc]
  exact hclose.append _ (List.cons_ne_nil _ _)

/-- Trailing blanks of the clause or the tail make no difference to what is read. -/
theorem Written.readDeclarator? {kind : Kind} {decorated : Text}
    (h : Written t kind signature decorated) (policy : DisplayPolicy) :
    ∃ c, Declaration.readDeclarator? policy (trimEnd t) = some c ∧ c.kind = kind ∧
      c.signature = signature ∧
      (kind ≠ .type → c.short = if policy.decorateShortDisplay then decorated else signature) := by
  have htrimmed : ∀ {tail : Text}, ')' ∉ tail → ')' ∉ trimEnd tail :=
    fun htail hmem => htail ((trimEnd_isPrefix _).subset hmem)
  cases h with
  | @type keyword gap _ clause hkeyword hgap hname hclause =>
    have hend : trimEnd (keyword ++ gap ++ signature ++ clause) =
        keyword ++ gap ++ signature ++ trimEnd clause :=
      trimEnd_append_of_solidBehind (hname.isSolid.behind.append _ hname.ne_nil) clause
    have htype : DeclaresType (keyword ++ gap ++ signature ++ trimEnd clause) signature :=
      ⟨keyword, hkeyword, gap, _, rfl, hgap.ne_nil, hgap.isBlanks, hname, hclause.trimEnd⟩
    obtain ⟨c, hc, hkind, hsignature⟩ := htype.readType? policy
    rw [hend]
    exact ⟨c, readDeclarator?_eq_some_iff.2 (.inl hc), hkind, hsignature, fun h => absurd rfl h⟩
  | @method type gap name parameters tail htype hgap hname htail =>
    rw [trimEnd_append_of_solidBehind (solidBehind_call _ name parameters)]
    exact ⟨_, readDeclarator?_method policy htype hgap hname parameters (htrimmed htail), rfl, rfl,
      fun _ => rfl⟩
  | @constructor name parameters tail hname hopens htail =>
    rw [trimEnd_append_of_solidBehind (by simpa using solidBehind_call [] name parameters)]
    exact ⟨_, readDeclarator?_constructor policy hname hopens (htrimmed htail), rfl, rfl,
      fun _ => (ite_self _).symm⟩
  | @field type gap name htype hgap hname =>
    rw [trimEnd_of_solidBehind (hname.isSolid.behind.append _ hname.ne_nil)]
    exact ⟨_, readDeclarator?_field policy htype hgap hname, rfl, rfl, fun _ => rfl⟩

/-- A written declaration is classified as the kind that is meant, with its own signature and
display. -/
theorem classify_written {line : Text} {kind : Kind} {decorated : Text} (hline : OnLine t kind line)
    (hwritten : Written t kind signature decorated) (hequals : ¬ HasEquals t)
    (policy : DisplayPolicy) :
    ∃ c, classify policy line = .ok c ∧ c.kind = kind ∧ c.signature = signature ∧
      (kind ≠ .type → c.short = if policy.decorateShortDisplay then decorated else signature) := by
  obtain ⟨hsolid, hne, hm⟩ := hwritten.begins
  obtain ⟨c, hc, hrest⟩ := hwritten.readDeclarator? policy
  refine ⟨c, classify_eq_ok_iff.2 ?_, hrest⟩
  rw [hline.declarator_eq hsolid hne hm hequals]
  exact hc

def getter : Text := "Map<K, V> get(K key, int n) throws E".toList

def sizeField : Text := "int size".toList

theorem classify_written_getter :
    (OnLine getter .method " public  static Map<K, V> get(K key, int n) throws E ".toList ∧
      Written getter .method "get(K key, int n)".toList "Map<K, V> get(K key, int n)".toList ∧
      ¬ HasEquals getter ∧
      ∃ c, classify default " public  static Map<K, V> get(K key, int n) throws E ".toList =
        .ok c ∧ c.kind = .method ∧ c.signature = "get(K key, int n)".toList ∧
        c.short = "Map<K, V> get(K key, int n)".toList) ∧
    (OnLine sizeField .field "static int size = n = f(2)".toList ∧
      Written sizeField .field "size".toList "int size".toList ∧ ¬ HasEquals sizeField ∧
      ∃ c, classify default "static int size = n = f(2)".toList = .ok c ∧ c.kind = .field ∧
        c.signature = "size".toList ∧ c.short = "int size".toList) := by
  have hspace : IsGap [' '] := ⟨by decide, by decide⟩
  have hpublic : "public".toList ∈ modifiers := by decide
  have hstatic : ModifierRun ("static".toList ++ [' '] ++ []) :=
    .cons (by decide) hspace.ne_nil hspace.isBlanks .nil
  constructor
  · have htype : IsTypeText "Map<K, V>".toList :=
      ⟨by decide, by decide, by decide, by decide, by decide, by decide, by decide⟩
    have hname : IsMemberName "get".toList := ⟨⟨by decide, by decide⟩, by decide, by decide⟩
    have hwritten : Written getter .method "get(K key, int n)".toList _ :=
      @Written.method _ _ _ "K key, int n".toList " throws E".toList htype hspace hname (by decide)
    have hrun := @ModifierRun.cons _ "  ".toList _ hpublic (by decide) (by decide) hstatic
    have hline : OnLine getter .method
        " public  static Map<K, V> get(K key, int n) throws E ".toList :=
      .plain hspace.isBlanks hrun hspace.isBlanks
    have hmem : '=' ∉ getter := by decide
    have hequals : ¬ HasEquals getter := fun h => hmem h.equals_mem
    obtain ⟨c, hc, hkind, hsignature, hshort⟩ := classify_written hline hwritten hequals default
    exact ⟨hline, hwritten, hequals, c, hc, hkind, hsignature, hshort (by decide)⟩
  · have htype : IsTypeText "int".toList :=
      ⟨by decide, by decide, by decide, by decide, by decide, by decide, by decide⟩
    have hname : IsMemberName "size".toList := ⟨⟨by decide, by decide⟩, by decide, by decide⟩
    have hwritten : Written sizeField .field "size".toList _ := .field htype hspace hname
    have hline : OnLine sizeField .field "static int size = n = f(2)".toList :=
      @OnLine.initialized _ _ [] _ _ " n = f(2)".toList rfl (by decide) hstatic hspace (by decide)
    have hmem : '=' ∉ sizeField := by decide
    have hequals : ¬ HasEquals sizeField := fun h => hmem h.equals_mem
    obtain ⟨c, hc, hkind, hsignature, hshort⟩ := classify_written hline hwritten hequals default
    exact ⟨hline, hwritten, hequals, c, hc, hkind, hsignature, hshort (by decide)⟩

/-- A closing parenthesis in the tail of a method is taken for its own, and a word that opens a
parenthesis among the parameters of a constructor begins the signature of a method. -/
theorem classify_unwritten :
    (IsTypeText "void".toList ∧ IsGap [' '] ∧ IsMemberName "close".toList ∧
      classify default ("void".toList ++ [' '] ++ call "close".toList [] ++
        " throws Failure(io)".toList) = .ok ⟨.method, "close() throws Failure(io)".toList,
          "void close() throws Failure(io)".toList, "method".toList⟩) ∧
    (IsMemberName "Widget".toList ∧
      classify default (call "Widget".toList "int size, Filter(a) f".toList) =
        .ok ⟨.method, "Filter(a) f)".toList, "Widget(int size, Filter(a) f)".toList,
          "method".toList⟩) := by
  constructor
  · exact ⟨⟨by decide, by decide, by decide, by decide, by decide, by decide, by decide⟩,
      ⟨by decide, by decide⟩, ⟨⟨by decide, by decide⟩, by decide, by decide⟩,
      classify_eq_ok_iff.2 (by decide +kernel)⟩
  · exact ⟨⟨⟨by decide, by decide⟩, by decide, by decide⟩,
      classify_eq_ok_iff.2 (by decide +kernel)⟩

end Surface.Declaration
