import Surface.Proofs.Text.Cuts
import Surface.Text.Slice

/-! # Scanning by offsets

A text can be scanned by the offsets at which its characters begin. Then a slice is a fault if its
offsets are out of order, lie behind the end or fall inside a character, and so is a difference that
would be negative. Words and gaps are found by offsets without a fault, and they are those of the
text.
-/

namespace Surface.Offsets

open Text

/-- What can go wrong with offsets. -/
inductive Fault where
  | slice (t : Text) (start stop : Nat)
  | underflow (a b : Nat)
  deriving DecidableEq, Repr

def slice (t : Text) (start stop : Nat) : Except Fault Text :=
  match slice? t start stop with
  | some s => .ok s
  | none => .error (.slice t start stop)

def sliceFrom (t : Text) (start : Nat) : Except Fault Text := slice t start t.byteSize

def difference (a b : Nat) : Except Fault Nat :=
  if b ≤ a then .ok (a - b) else .error (.underflow a b)

/-- The characters with their offsets, when the first one stands at `n`. -/
def charsFrom (n : Nat) : Text → List (Nat × Char)
  | [] => []
  | c :: t => (n, c) :: charsFrom (n + c.utf8Size) t

def chars (t : Text) : List (Nat × Char) := charsFrom 0 t

/-- The offset of the first character with the property. -/
def find? (p : Char → Bool) (t : Text) : Option Nat :=
  ((chars t).find? fun c => p c.2).map Prod.fst

/-- The offset of the last character with the property. -/
def findLast? (p : Char → Bool) (t : Text) : Option Nat :=
  ((chars t).reverse.find? fun c => p c.2).map Prod.fst

/-- The leading word and what follows it. -/
def splitWord (t : Text) : Except Fault (Text × Text) :=
  let n := (find? isBlank t).getD t.byteSize
  match splitAtByte? t n with
  | some parts => .ok parts
  | none => .error (.slice t 0 n)

/-- The ranges of the gaps in a text of the given size: of the one that is open, if there is one,
and of those that are still to come. -/
def scanGaps (size : Nat) : Option Nat → List (Nat × Char) → List (Nat × Nat)
  | none, [] => []
  | some start, [] => [(start, size)]
  | none, (n, c) :: cs =>
    if isBlank c then scanGaps size (some n) cs else scanGaps size none cs
  | some start, (n, c) :: cs =>
    if isBlank c then scanGaps size (some start) cs else (start, n) :: scanGaps size none cs

def gaps (t : Text) : List (Nat × Nat) := scanGaps t.byteSize none (chars t)

variable {p : Char → Bool} {s t w g : Text} {c : Char} {n start stop : Nat}

/-- A slice without a fault lies between two offsets of the text that are in order. -/
theorem slice_eq_ok_iff : slice t start stop = .ok s ↔
    ∃ before after, t = before ++ s ++ after ∧ before.byteSize = start ∧
      start + s.byteSize = stop := by
  rw [← slice?_eq_some_iff, slice]
  cases slice? t start stop <;> simp

example : slice ['é', 'a'] 0 2 = .ok ['é'] ∧
    slice ['é', 'a'] 0 1 = .error (.slice ['é', 'a'] 0 1) ∧
    slice ['é', 'a'] 2 0 = .error (.slice ['é', 'a'] 2 0) := ⟨rfl, rfl, rfl⟩

theorem slice_append (before s after : Text) :
    slice (before ++ s ++ after) before.byteSize (before.byteSize + s.byteSize) = .ok s :=
  slice_eq_ok_iff.2 ⟨before, after, rfl, rfl, rfl⟩

theorem slice_zero (s after : Text) : slice (s ++ after) 0 s.byteSize = .ok s := by
  simpa using slice_append [] s after

theorem sliceFrom_append (before s : Text) :
    sliceFrom (before ++ s) before.byteSize = .ok s := by
  simpa [sliceFrom] using slice_append before s []

theorem charsFrom_append (n : Nat) (s t : Text) :
    charsFrom n (s ++ t) = charsFrom n s ++ charsFrom (n + s.byteSize) t := by
  induction s generalizing n with
  | nil => rfl
  | cons c s ih => simp [charsFrom, ih, Nat.add_assoc]

theorem beq_eq_false_of_notMem (h : c ∉ t) : ∀ x ∈ t, (x == c) = false := by
  intro x hx
  simpa using ne_of_mem_of_not_mem hx h

theorem find?_charsFrom_eq_none (h : ∀ x ∈ t, p x = false) (n : Nat) :
    (charsFrom n t).find? (fun c => p c.2) = none := by
  induction t generalizing n with
  | nil => rfl
  | cons c t ih =>
    rw [charsFrom, List.find?_cons_of_neg (by simp [h c List.mem_cons_self])]
    exact ih (fun x hx => h x (List.mem_cons_of_mem c hx)) _

theorem find?_charsFrom_append (h : ∀ x ∈ s, p x = false) (hc : p c = true) (n : Nat)
    (t : Text) : (charsFrom n (s ++ c :: t)).find? (fun c => p c.2) = some (n + s.byteSize, c) := by
  rw [charsFrom_append, List.find?_append, find?_charsFrom_eq_none h n, charsFrom]
  simp [hc]

theorem find?_eq_none (h : ∀ x ∈ t, p x = false) : find? p t = none := by
  rw [find?, chars, find?_charsFrom_eq_none h 0]
  rfl

theorem find?_append (h : ∀ x ∈ s, p x = false) (hc : p c = true) (t : Text) :
    find? p (s ++ c :: t) = some s.byteSize := by
  rw [find?, chars, find?_charsFrom_append h hc 0]
  simp

theorem lt_of_mem_charsFrom {k : Nat} (h : (k, c) ∈ charsFrom n t) : k < n + t.byteSize := by
  induction t generalizing n with
  | nil => cases h
  | cons d t ih =>
    have hpos := d.utf8Size_pos
    rw [byteSize_cons]
    rcases List.mem_cons.1 h with heq | hmem
    · cases heq
      omega
    · have := ih hmem
      omega

theorem findLast?_lt (h : findLast? p t = some n) : n < t.byteSize := by
  obtain ⟨⟨k, c⟩, hfind, rfl⟩ := Option.map_eq_some_iff.1 h
  have hmem := List.mem_reverse.1 (List.mem_of_find?_eq_some hfind)
  simpa using lt_of_mem_charsFrom hmem

/-- What follows is passed over where it has no such character. -/
theorem findLast?_append (h : ∀ x ∈ t, p x = false) (s : Text) :
    findLast? p (s ++ t) = findLast? p s := by
  have hnone := find?_charsFrom_eq_none h (0 + s.byteSize)
  rw [List.find?_eq_none] at hnone
  rw [findLast?, chars, charsFrom_append, List.reverse_append, List.find?_append,
    List.find?_eq_none.2 (by simpa using hnone), findLast?, chars]
  rfl

theorem findLast?_append_cons (hc : p c = true) (h : ∀ x ∈ t, p x = false) (s : Text) :
    findLast? p (s ++ c :: t) = some s.byteSize := by
  rw [List.append_cons, findLast?_append h, findLast?, chars, charsFrom_append, List.reverse_append]
  simp [charsFrom, hc]

theorem find?_isBlank (t : Text) : find? isBlank t =
    if afterLeadingWord t = [] then none else some (leadingWord t).byteSize := by
  have hsolid := isSolid_leadingWord t
  have hblank := blankAhead_afterLeadingWord t
  have ht := leadingWord_append_afterLeadingWord t
  cases hafter : afterLeadingWord t with
  | nil =>
    rw [hafter, List.append_nil] at ht
    rw [← ht]
    simpa using find?_eq_none hsolid
  | cons c behind =>
    rw [hafter] at ht hblank
    have hfind := find?_append hsolid (hblank c rfl) behind
    rw [ht] at hfind
    simpa using hfind

theorem splitWord_eq (t : Text) : splitWord t = .ok (leadingWord t, afterLeadingWord t) := by
  have hsize : (find? isBlank t).getD t.byteSize = (leadingWord t).byteSize := by
    rw [find?_isBlank]
    split
    next hnil =>
      have ht := leadingWord_append_afterLeadingWord t
      rw [hnil, List.append_nil] at ht
      rw [ht]
      rfl
    next => rfl
  have hsplit : splitAtByte? t (leadingWord t).byteSize =
      some (leadingWord t, afterLeadingWord t) :=
    splitAtByte?_eq_some_iff.2 ⟨(leadingWord_append_afterLeadingWord t).symm, rfl⟩
  simp only [splitWord, hsize, hsplit]

theorem scanGaps_solid (hw : IsSolid w) (size n : Nat) (t : Text) :
    scanGaps size none (charsFrom n (w ++ t)) =
      scanGaps size none (charsFrom (n + w.byteSize) t) := by
  induction w generalizing n with
  | nil => rfl
  | cons c w ih =>
    have hc : isBlank c = false := hw c List.mem_cons_self
    simp only [List.cons_append, charsFrom, scanGaps, hc, Bool.false_eq_true, if_false,
      byteSize_cons, ← Nat.add_assoc]
    exact ih (fun x hx => hw x (List.mem_cons_of_mem c hx)) _

theorem scanGaps_open (hg : IsBlanks g) (ht : SolidAhead t) (start n : Nat) :
    scanGaps (n + (g ++ t).byteSize) (some start) (charsFrom n (g ++ t)) =
      (start, n + g.byteSize) ::
        scanGaps (n + (g ++ t).byteSize) none (charsFrom (n + g.byteSize) t) := by
  induction g generalizing n with
  | nil =>
    cases t with
    | nil => rfl
    | cons c t =>
      have hc : isBlank c = false := ht c rfl
      simp [charsFrom, scanGaps, hc]
  | cons c g ih =>
    have hc : isBlank c = true := hg c List.mem_cons_self
    have hrest := ih (fun x hx => hg x (List.mem_cons_of_mem c hx)) (n + c.utf8Size)
    simpa only [List.cons_append, charsFrom, scanGaps, hc, if_true, byteSize_cons,
      ← Nat.add_assoc] using hrest

theorem scanGaps_gap (hg : IsBlanks g) (hne : g ≠ []) (ht : SolidAhead t) (n : Nat) :
    scanGaps (n + (g ++ t).byteSize) none (charsFrom n (g ++ t)) =
      (n, n + g.byteSize) ::
        scanGaps (n + (g ++ t).byteSize) none (charsFrom (n + g.byteSize) t) := by
  obtain ⟨c, g, rfl⟩ := List.exists_cons_of_ne_nil hne
  rw [← scanGaps_open hg ht n n]
  have hc : isBlank c = true := hg c List.mem_cons_self
  simp only [List.cons_append, charsFrom, scanGaps, hc, if_true]

/-- Gap by gap and word by word, the scan meets the cuts of the text. -/
theorem scanGaps_flatten {ps : List Text} (h : Alternating ps) (before : Text) :
    scanGaps (before.byteSize + byteSize ps.flatten) none
        (charsFrom before.byteSize ps.flatten) =
      (cutsAfter before ps).map Cut.range := by
  induction ps generalizing before with
  | nil => rfl
  | cons p ps ih =>
    have hrest := ih h.tail (before ++ p)
    rw [byteSize_append, Nat.add_assoc, ← byteSize_append] at hrest
    rw [List.flatten_cons, cutsAfter]
    by_cases hp : isGap p = true
    · have hne : p ≠ [] := by
        rintro rfl
        simp [isGap] at hp
      rw [scanGaps_gap (h.isBlanks hp) hne (h.solidAhead hp), hrest, if_pos hp]
      rfl
    · rw [scanGaps_solid (h.isSolid (by simpa using hp)), hrest, if_neg hp]

/-- The gaps found by offsets are the gaps of the text. -/
theorem gaps_eq (t : Text) : gaps t = gapRanges t := by
  have hscan := scanGaps_flatten (alternating_pieces t) []
  rw [flatten_pieces] at hscan
  simpa [gaps, gapRanges, chars, cuts] using hscan

theorem slice_gap {a : Cut} (h : a ∈ cuts t) : slice t a.range.1 a.range.2 = .ok a.gap := by
  rw [← eq_of_mem_cuts h]
  exact slice_append a.before a.gap a.after

theorem slice_before {a : Cut} (h : a ∈ cuts t) : slice t 0 a.range.1 = .ok a.before := by
  rw [← eq_of_mem_cuts h, List.append_assoc]
  exact slice_zero a.before (a.gap ++ a.after)

theorem sliceFrom_behind {a : Cut} (h : a ∈ cuts t) : sliceFrom t a.range.2 = .ok a.after := by
  have hslice := sliceFrom_append (a.before ++ a.gap) a.after
  rwa [eq_of_mem_cuts h, byteSize_append] at hslice

@[simp] theorem ok_bind {α β : Type} (a : α) (f : α → Except Fault β) :
    (Except.ok a >>= f) = f a := rfl

/-- A search whose steps have no fault has none itself. -/
theorem findSomeM?_map {α β γ : Type} {f : γ → Except Fault (Option β)} {r : α → γ}
    {g : α → Option β} {xs : List α} (h : ∀ x ∈ xs, f (r x) = .ok (g x)) :
    (xs.map r).findSomeM? f = .ok (xs.findSome? g) := by
  induction xs with
  | nil => rfl
  | cons x xs ih =>
    have hrest := ih fun y hy => h y (List.mem_cons_of_mem x hy)
    rw [List.map_cons, List.findSomeM?, h x List.mem_cons_self, ok_bind, List.findSome?_cons]
    cases g x with
    | none => exact hrest
    | some y => rfl

/-- Values for which the search finds nothing may be left out. -/
theorem findSome?_filter {α β : Type} {p : α → Bool} {g : α → Option β} {xs : List α}
    (h : ∀ x ∈ xs, p x = false → g x = none) : (xs.filter p).findSome? g = xs.findSome? g := by
  induction xs with
  | nil => rfl
  | cons x xs ih =>
    have hrest := ih fun y hy => h y (List.mem_cons_of_mem x hy)
    by_cases hx : p x = true
    · rw [List.filter_cons_of_pos hx, List.findSome?_cons, List.findSome?_cons, hrest]
    · have hnone := h x List.mem_cons_self (Bool.not_eq_true _ ▸ hx)
      rw [List.filter_cons_of_neg hx, List.findSome?_cons, hnone, hrest]

end Surface.Offsets
