import Mathlib.Data.List.Basic
import Mathlib.Data.List.Induction
import Surface.Proofs.Listing.Reached
import Surface.Proofs.Text.Lines

/-! # Where the reading of a listing stops

A line is refused if it cannot be classified, if it is the first one and declares no type, or if it
declares an identity again that may be declared once only. Reading stops at the first refused line.
What it leaves is what the lines in front of that line give when they are a listing of their own.
-/

namespace Surface

/-- The failure says what is wrong with a line, and which line that is. -/
structure Failure.Reports (f : Failure) (source : Text) (line : Nat) (cause : Cause) : Prop where
  path : f.path = some source
  line : f.line = some line
  kind : f.kind = cause.kind
  text : f.text = cause.failure.text
  message : f.message = cause.message

namespace Listing

/-- The class that the first of the lines declares. -/
def declaringClass? (display : DisplayPolicy) : List Text → Option Text
  | [] => none
  | header :: _ =>
    (Declaration.classify? display (Declaration.textOf header)).map Classification.signature

/-- Why a line is refused when the lines `front` have led to the table. -/
inductive Refuses (options : ReadOptions) (front : List Text) (table : SymbolTable) (raw : Text) :
    Cause → Prop
  | unparseable {cause : Cause} :
      Declaration.classify options.display (Declaration.textOf raw) = .error cause →
      Refuses options front table raw cause
  | missingType {c : Classification} : front = [] →
      Declaration.classify options.display (Declaration.textOf raw) = .ok c → c.kind ≠ .type →
      Refuses options front table raw (.missingType c.label (Declaration.textOf raw))
  | duplicate {c : Classification} {declaringClass : Text} :
      Declaration.classify options.display (Declaration.textOf raw) = .ok c →
      (front = [] → c.kind = .type) →
      declaringClass? options.display (front ++ [raw]) = some declaringClass →
      options.duplicates = .fail →
      table.contains ⟨declaringClass, c.kind, c.signature⟩ = true →
      Refuses options front table raw (.duplicate declaringClass c.signature)

/-- The line with the given number, counted from one, is refused. -/
inductive RefusedAt (options : ReadOptions) (source : Text) (table : SymbolTable)
    (ls : List Text) : Nat → Cause → Prop
  | intro {front behind : List Text} {raw : Text} {cause : Cause} : ls = front ++ raw :: behind →
      Refuses options front (readDeclarations options source table front).table raw cause →
      RefusedAt options source table ls (front.length + 1) cause

variable {options : ReadOptions} {source raw declaringClass : Text} {table : SymbolTable}
  {front ls : List Text} {c : Classification} {cause : Cause}

/-- What the next line does behind the lines `front`. -/
def readLine (options : ReadOptions) (source : Text) (front : List Text) (raw : Text)
    (table : SymbolTable) : Progress :=
  match front with
  | [] => readDeclarations options source table [raw]
  | _ :: _ =>
    match declaringClass? options.display front with
    | some declaringClass =>
      readMember options source declaringClass (raw, front.length + 1) table
    | none => ⟨table, [], none⟩

theorem declaringClass?_append (hne : front ≠ []) (raw : Text) :
    declaringClass? options.display (front ++ [raw]) = declaringClass? options.display front := by
  cases front with
  | nil => exact absurd rfl hne
  | cons header members => rfl

theorem declaringClass?_eq_some {header full : Text} {n : Nat}
    (h : classifyLine options.display source n header = .ok (full, c)) (members : List Text) :
    declaringClass? options.display (header :: members) = some c.signature := by
  obtain ⟨rfl, hclassify⟩ := classifyLine_eq_ok h
  rw [declaringClass?, hclassify]
  rfl

theorem exists_declaringClass (hne : front ≠ [])
    (hfine : (readDeclarations options source table front).failure = none) :
    ∃ declaringClass, declaringClass? options.display front = some declaringClass := by
  cases front with
  | nil => exact absurd rfl hne
  | cons header members =>
    cases hc : classifyLine options.display source 1 header with
    | error f =>
      simp only [readDeclarations, hc] at hfine
      cases hfine
    | ok line => exact ⟨line.2.signature, declaringClass?_eq_some hc members⟩

theorem readDeclarations_concat (options : ReadOptions) (source : Text) (table : SymbolTable)
    (front : List Text) (raw : Text) : readDeclarations options source table (front ++ [raw]) =
      (readDeclarations options source table front).andThen
        (readLine options source front raw) := by
  cases front with
  | nil => rw [List.nil_append, readDeclarations, Progress.nil_andThen, readLine]
  | cons header members =>
    rw [List.cons_append]
    cases hc : classifyLine options.display source 1 header with
    | error f =>
      simp only [readDeclarations, hc]
      exact (Progress.andThen_failed rfl _).symm
    | ok line =>
      obtain ⟨full, c⟩ := line
      simp only [readDeclarations, hc]
      by_cases hkind : c.kind = .type
      · have hline : readLine options source (header :: members) raw =
            readMember options source c.signature (raw, 2 + members.length) := by
          funext table
          simp only [readLine, declaringClass?_eq_some hc members, List.length_cons]
          rw [Nat.add_comm 2]
        have hmembers : readMembers options source c.signature (members ++ [raw]) = fun table =>
            (readMembers options source c.signature members table).andThen
              (readLine options source (header :: members) raw) := by
          funext table
          rw [readMembers, List.zipIdx_append, List.foldl_append, hline]
          rfl
        simp only [hkind, if_true]
        rw [Progress.andThen_assoc, hmembers]
      · simp only [hkind, if_false]
        exact (Progress.andThen_failed rfl _).symm

/-- Behind a failure further lines are not read. -/
theorem readDeclarations_append_failed {f : Failure}
    (h : (readDeclarations options source table front).failure = some f) (behind : List Text) :
    readDeclarations options source table (front ++ behind) =
      readDeclarations options source table front := by
  induction behind using List.reverseRecOn with
  | nil => rw [List.append_nil]
  | append_singleton behind raw ih =>
    rw [← List.append_assoc, readDeclarations_concat, ih]
    exact Progress.andThen_failed h _

theorem reports_failureAt (source : Text) (n : Nat) (cause : Cause) :
    (failureAt source n cause.failure).Reports source n cause :=
  ⟨rfl, rfl, cause.kind_failure, rfl, cause.message_failure⟩

theorem reports_failureAt_op (source : Text) (n : Nat) (cause : Cause) (op : Option Text) :
    (failureAt source n { cause.failure with op := op }).Reports source n cause :=
  ⟨rfl, rfl, cause.kind_failure, rfl, cause.message_failure⟩

theorem define_of_duplicate {duplicates : DuplicatePolicy} (hfail : duplicates = .fail)
    (hcontains : table.contains ⟨declaringClass, c.kind, c.signature⟩ = true) (source : Text)
    (n : Nat) (full : Text) : define duplicates source n declaringClass full c table =
      ⟨table, [.classified c.kind c.signature],
        some (failureAt source n (Cause.duplicate declaringClass c.signature).failure)⟩ := by
  simp only [define, SymbolTable.define, hfail, hcontains, and_self, if_true]

theorem failure_define {duplicates : DuplicatePolicy} (h : ¬ (duplicates = .fail ∧
      table.contains ⟨declaringClass, c.kind, c.signature⟩ = true)) (source : Text) (n : Nat)
    (full : Text) : (define duplicates source n declaringClass full c table).failure = none := by
  unfold define SymbolTable.define
  rw [if_neg h]
  cases table.get? ⟨declaringClass, c.kind, c.signature⟩ <;> rfl

/-- What the next line comes to: it is refused and changes nothing, or no cause refuses it. -/
def Decided (options : ReadOptions) (source : Text) (front : List Text) (table : SymbolTable)
    (raw : Text) : Prop :=
  (∃ cause f, Refuses options front table raw cause ∧
    (readLine options source front raw table).failure = some f ∧
    f.Reports source (front.length + 1) cause ∧
    (readLine options source front raw table).table = table) ∨
  ((readLine options source front raw table).failure = none ∧
    ∀ cause, ¬ Refuses options front table raw cause)

theorem Refuses.decided {events : List Event} {f : Failure}
    (h : Refuses options front table raw cause)
    (hread : readLine options source front raw table = ⟨table, events, some f⟩)
    (hreports : f.Reports source (front.length + 1) cause) :
    Decided options source front table raw := by
  unfold Decided
  rw [hread]
  exact .inl ⟨cause, f, h, rfl, hreports, rfl⟩

theorem decided_of_define
    (hc : Declaration.classify options.display (Declaration.textOf raw) = .ok c)
    (hkind : front = [] → c.kind = .type)
    (hclass : declaringClass? options.display (front ++ [raw]) = some declaringClass)
    (hread : readLine options source front raw table = define options.duplicates source
      (front.length + 1) declaringClass (Declaration.textOf raw) c table) :
    Decided options source front table raw := by
  by_cases hdup : options.duplicates = .fail ∧
      table.contains ⟨declaringClass, c.kind, c.signature⟩ = true
  · have hrefuses : Refuses options front table raw (.duplicate declaringClass c.signature) :=
      .duplicate hc hkind hclass hdup.1 hdup.2
    rw [define_of_duplicate hdup.1 hdup.2] at hread
    exact hrefuses.decided hread (reports_failureAt _ _ _)
  · refine .inr ⟨hread ▸ failure_define hdup _ _ _, fun cause h => ?_⟩
    cases h with
    | unparseable herror =>
      rw [hc] at herror
      cases herror
    | missingType hnil hok hne =>
      rw [hc] at hok
      cases hok
      exact hne (hkind hnil)
    | duplicate hok _ hother hfail hcontains =>
      rw [hc] at hok
      rw [hclass] at hother
      cases hok
      cases hother
      exact hdup ⟨hfail, hcontains⟩

theorem decided (hclass : front ≠ [] →
      ∃ declaringClass, declaringClass? options.display front = some declaringClass)
    (source : Text) (table : SymbolTable) (raw : Text) :
    Decided options source front table raw := by
  cases hc : Declaration.classify options.display (Declaration.textOf raw) with
  | error cause =>
    have hline := classifyLine_of_error hc source
    have hread : readLine options source front raw table = ⟨table, [], some (failureAt source
        (front.length + 1) { cause.failure with op := some "parse_listing" })⟩ := by
      cases front with
      | nil => simp only [readLine, readDeclarations, hline 1, List.length_nil, Nat.zero_add]
      | cons header members =>
        obtain ⟨declaringClass, hdeclaring⟩ := hclass (List.cons_ne_nil _ _)
        simp only [readLine, hdeclaring, readMember, hline]
    exact (Refuses.unparseable hc).decided hread (reports_failureAt_op _ _ _ _)
  | ok c =>
    have hline := classifyLine_of_ok hc source
    cases front with
    | cons header members =>
      obtain ⟨declaringClass, hdeclaring⟩ := hclass (List.cons_ne_nil _ _)
      have hnext := @declaringClass?_append options _ (List.cons_ne_nil header members) raw
      refine decided_of_define hc (fun h => by cases h) (hnext.trans hdeclaring) ?_
      simp only [readLine, hdeclaring, readMember, hline]
    | nil =>
      by_cases hkind : c.kind = .type
      · refine decided_of_define hc (fun _ => hkind) (declaringClass?_eq_some (hline 1) []) ?_
        have hmembers : readMembers options source c.signature [] = fun table =>
            ⟨table, [], none⟩ := rfl
        simp only [readLine, readDeclarations, hline 1, hkind, if_true, hmembers,
          Progress.andThen_nil, List.length_nil, Nat.zero_add]
      · have hread : readLine options source [] raw table =
            ⟨table, [.classified c.kind c.signature], some (failureAt source 1
              (Cause.missingType c.label (Declaration.textOf raw)).failure)⟩ := by
          simp only [readLine, readDeclarations, hline 1, hkind, if_false]
        exact (Refuses.missingType rfl hc hkind).decided hread (reports_failureAt _ _ _)

namespace RefusedAt

variable {n : Nat}

theorem bounds (h : RefusedAt options source table ls n cause) : 1 ≤ n ∧ n ≤ ls.length := by
  cases h with
  | intro heq _ =>
    subst heq
    rw [List.length_append, List.length_cons]
    omega

theorem append (h : RefusedAt options source table ls n cause) (more : List Text) :
    RefusedAt options source table (ls ++ more) n cause := by
  cases h with
  | @intro front behind raw _ heq hrefuses =>
    have hmore : ls ++ more = front ++ raw :: (behind ++ more) := by
      rw [heq, List.append_assoc, List.cons_append]
    exact .intro hmore hrefuses

theorem concat_iff : RefusedAt options source table (ls ++ [raw]) n cause ↔
    RefusedAt options source table ls n cause ∨ n = ls.length + 1 ∧
      Refuses options ls (readDeclarations options source table ls).table raw cause := by
  constructor
  · intro h
    cases h with
    | @intro front behind other _ heq hrefuses =>
      rcases List.eq_nil_or_concat' behind with rfl | ⟨behind, last, rfl⟩
      · obtain ⟨rfl, hraw⟩ := List.append_inj' heq rfl
        cases hraw
        exact .inr ⟨rfl, hrefuses⟩
      · rw [← List.cons_append, ← List.append_assoc] at heq
        obtain ⟨hls, -⟩ := List.append_inj' heq rfl
        exact .inl (.intro hls hrefuses)
  · intro h
    rcases h with h | ⟨rfl, hrefuses⟩
    · exact h.append [raw]
    · exact .intro rfl hrefuses

end RefusedAt

/-- Reading stops at a line: it is the first refused one, and the table is that of the lines in
front of it. -/
structure StopsAt (options : ReadOptions) (source : Text) (table : SymbolTable) (ls : List Text)
    (n : Nat) (cause : Cause) : Prop where
  refused : RefusedAt options source table ls n cause
  first : ∀ m < n, ∀ other, ¬ RefusedAt options source table ls m other
  fine : (readDeclarations options source table (ls.take (n - 1))).failure = none
  table_eq : (readDeclarations options source table ls).table =
    (readDeclarations options source table (ls.take (n - 1))).table
  reports : ∃ f, (readDeclarations options source table ls).failure = some f ∧
    f.Reports source n cause

theorem StopsAt.concat {n : Nat} (h : StopsAt options source table ls n cause) (raw : Text) :
    StopsAt options source table (ls ++ [raw]) n cause := by
  obtain ⟨f, hf, hreports⟩ := h.reports
  obtain ⟨hpos, hle⟩ := h.refused.bounds
  have hread := readDeclarations_append_failed hf [raw]
  have htake : (ls ++ [raw]).take (n - 1) = ls.take (n - 1) :=
    List.take_append_of_le_length (by omega)
  refine ⟨h.refused.append [raw], fun m hm other hother => ?_, ?_, ?_, f, ?_, hreports⟩
  · rcases RefusedAt.concat_iff.1 hother with hother | ⟨rfl, -⟩
    · exact h.first m hm other hother
    · omega
  · rw [htake]
    exact h.fine
  · rw [htake, hread]
    exact h.table_eq
  · rw [hread]
    exact hf

/-- Behind lines that are read without failure, reading stops at a refused one. -/
theorem StopsAt.of_refuses {reached : SymbolTable} {f : Failure}
    (hfine : (readDeclarations options source table ls).failure = none)
    (hnone : ∀ n other, ¬ RefusedAt options source table ls n other)
    (hreached : (readDeclarations options source table ls).table = reached)
    (h : Refuses options ls reached raw cause)
    (hf : (readLine options source ls raw reached).failure = some f)
    (htable : (readLine options source ls raw reached).table = reached)
    (hreports : f.Reports source (ls.length + 1) cause) :
    StopsAt options source table (ls ++ [raw]) (ls.length + 1) cause := by
  subst hreached
  have htake : (ls ++ [raw]).take (ls.length + 1 - 1) = ls := by simp
  refine ⟨RefusedAt.concat_iff.2 (.inr ⟨rfl, h⟩), fun m hm other hother => ?_, ?_, ?_, f, ?_,
    hreports⟩
  · rcases RefusedAt.concat_iff.1 hother with hother | ⟨rfl, -⟩
    · exact hnone m other hother
    · omega
  · rw [htake]
    exact hfine
  · rw [htake, readDeclarations_concat, Progress.table_andThen hfine]
    exact htable
  · rw [readDeclarations_concat, Progress.failure_andThen hfine]
    exact hf

/-- Either all lines are read and none is refused, or reading stops at one of them. -/
theorem readDeclarations_stops (options : ReadOptions) (source : Text) (table : SymbolTable)
    (ls : List Text) :
    ((readDeclarations options source table ls).failure = none ∧
      ∀ n cause, ¬ RefusedAt options source table ls n cause) ∨
    ∃ n cause, StopsAt options source table ls n cause := by
  induction ls using List.reverseRecOn with
  | nil =>
    refine .inl ⟨rfl, fun n cause h => ?_⟩
    have hbounds := h.bounds
    rw [List.length_nil] at hbounds
    omega
  | append_singleton ls raw ih =>
    rcases ih with ⟨hfine, hnone⟩ | ⟨n, cause, hstops⟩
    · have hdecided := decided (fun hne => exists_declaringClass hne hfine) source
        (readDeclarations options source table ls).table raw
      rcases hdecided with ⟨cause, f, hrefuses, hf, hreports, htable⟩ | ⟨hf, hrefuses⟩
      · exact .inr ⟨_, cause, .of_refuses hfine hnone rfl hrefuses hf htable hreports⟩
      · refine .inl ⟨?_, fun n cause h => ?_⟩
        · rw [readDeclarations_concat, Progress.failure_andThen hfine]
          exact hf
        · rcases RefusedAt.concat_iff.1 h with h | ⟨-, h⟩
          · exact hnone n cause h
          · exact hrefuses cause h
    · exact .inr ⟨n, cause, hstops.concat raw⟩

/-- The listing that is left of the first `n` lines of a listing, with other text behind. -/
def cut (l : Listing) (n : Nat) (closing : Text) : Listing where
  source := l.source
  text := Text.takeLines n l.text ++ closing

theorem declarations_cut (l : Listing) {n : Nat} (hn : n < (Text.lines l.text).length)
    {closing : Text} (hclosing : (Text.lines closing).length = 1) :
    (l.cut n closing).declarations = l.declarations.take n := by
  obtain ⟨line, hline⟩ := List.length_eq_one_iff.1 hclosing
  rw [declarations, cut, Text.lines_takeLines_append hn, hline, List.dropLast_concat, declarations,
    List.dropLast_eq_take, List.take_take, Nat.min_eq_left (by omega)]

/-- A listing is read to its end, or up to the first line that is refused. Then its table is that of
the lines in front of this one, which are read without failure as a listing of their own. -/
theorem outcome_stops (l : Listing) (options : ReadOptions) (table : SymbolTable) :
    match l.outcome options table with
    | .ok n => n = (Text.lines l.text).length - 1 ∧
        ∀ m cause, ¬ RefusedAt options l.source table l.declarations m cause
    | .error f => ∃ k cause, f.Reports l.source k cause ∧ 1 ≤ k ∧
        k < (Text.lines l.text).length ∧
        RefusedAt options l.source table l.declarations k cause ∧
        (∀ m < k, ∀ other, ¬ RefusedAt options l.source table l.declarations m other) ∧
        (k = 1 → (l.read options table).table = table) ∧
        ∀ closing, (Text.lines closing).length = 1 →
          (l.cut (k - 1) closing).outcome options table = .ok (k - 1) ∧
          ((l.cut (k - 1) closing).read options table).table = (l.read options table).table := by
  have hlength : l.declarations.length = (Text.lines l.text).length - 1 := List.length_dropLast
  rcases readDeclarations_stops options l.source table l.declarations with
    ⟨hfine, hnone⟩ | ⟨k, cause, hstops⟩
  · have houtcome : l.outcome options table = .ok l.declarations.length := by
      rw [outcome, read, hfine]
    rw [houtcome]
    exact ⟨hlength, hnone⟩
  · obtain ⟨f, hf, hreports⟩ := hstops.reports
    obtain ⟨hpos, hle⟩ := hstops.refused.bounds
    have houtcome : l.outcome options table = .error f := by
      rw [outcome, read, hf]
    rw [houtcome]
    refine ⟨k, cause, hreports, hpos, by omega, hstops.refused, hstops.first, ?_, ?_⟩
    · rintro rfl
      rw [read, hstops.table_eq]
      rfl
    · intro closing hclosing
      have hcut := l.declarations_cut (n := k - 1) (by omega) hclosing
      have hread : (l.cut (k - 1) closing).read options table =
          readDeclarations options l.source table (l.declarations.take (k - 1)) := by
        rw [read, hcut]
        rfl
      constructor
      · rw [outcome, hread, hstops.fine, hcut, List.length_take, Nat.min_eq_left (by omega)]
      · rw [hread, read, hstops.table_eq]

end Listing
end Surface
