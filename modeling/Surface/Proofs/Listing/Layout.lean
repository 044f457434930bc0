import Mathlib.Data.List.Basic
import Surface.Listing
import Surface.Proofs.Text.Lines
import Surface.Proofs.Text.Words

/-! # Line ends and margins

A line of a listing is read as it stands between its margins, and a carriage return in front of a
line feed belongs to the margin. Listings whose lines differ in their margins only are therefore
read alike: with other line ends, with or without a last line feed, and with other blanks around
their lines.
-/

namespace Surface

namespace Text

variable {l t u : Text}

/-- A text is a single line, or a line with a line feed and a text behind it. -/
theorem line_induction {P : Text → Prop} (line : ∀ l, '\n' ∉ l → P l)
    (append : ∀ l t, '\n' ∉ l → P t → P (l ++ '\n' :: t)) (t : Text) : P t := by
  by_cases h : '\n' ∈ t
  · obtain ⟨l, rest, ht, hl⟩ := List.eq_append_cons_of_mem h
    have hshort : rest.length < t.length := by
      rw [ht, List.length_append, List.length_cons]
      omega
    rw [ht]
    exact append l rest hl (line_induction line append rest)
  · exact line t h
termination_by t.length

theorem lines_append_return (hl : '\n' ∉ l) (t : Text) :
    lines (l ++ '\r' :: '\n' :: t) = l :: lines t := by
  induction l with
  | nil => rfl
  | cons c l ih =>
    obtain ⟨hc, hl⟩ := not_or.1 (mt List.mem_cons.2 hl)
    have hhead : (l ++ '\r' :: '\n' :: t).head? ≠ some '\n' := by
      cases l with
      | nil => simp
      | cons d l =>
        intro h
        cases h
        simp at hl
    rw [List.cons_append, lines_cons (Ne.symm hc) fun _ => hhead, ih hl]

theorem lines_of_notMem (hl : '\n' ∉ l) (hne : l ≠ []) : lines l = [l] := by
  induction l with
  | nil => exact absurd rfl hne
  | cons c l ih =>
    obtain ⟨hc, hl⟩ := not_or.1 (mt List.mem_cons.2 hl)
    have hhead : l.head? ≠ some '\n' := fun h => hl (List.mem_of_mem_head? h)
    rw [lines_cons (Ne.symm hc) fun _ => hhead]
    cases l with
    | nil => rfl
    | cons d l => rw [ih hl (by simp)]

theorem isBlanks_return : IsBlanks ['\r'] := by decide

/-- Whatever stands in front of its line feed, a line is the same between its margins. -/
theorem map_trim_lines_append (hl : '\n' ∉ l) (t : Text) :
    (lines (l ++ '\n' :: t)).map trim = trim l :: (lines t).map trim := by
  by_cases hreturn : l.getLast? = some '\r'
  · obtain ⟨front, rfl⟩ := List.getLast?_eq_some_iff.1 hreturn
    rw [List.append_assoc, List.singleton_append, lines_append_return (by simp_all),
      trim_append_blanks front isBlanks_return, List.map_cons]
  · rw [lines_append ⟨hl, hreturn⟩, List.map_cons]

theorem map_trim_lines_append_return (hl : '\n' ∉ l) (t : Text) :
    (lines (l ++ '\r' :: '\n' :: t)).map trim = trim l :: (lines t).map trim := by
  rw [lines_append_return hl, List.map_cons]

/-- The text with a carriage return in front of each line feed. -/
def withReturns (t : Text) : Text := t.flatMap fun c => if c = '\n' then ['\r', '\n'] else [c]

structure IsMargin (g : Text) : Prop where
  isBlanks : IsBlanks g
  noLineFeed : '\n' ∉ g

instance (g : Text) : Decidable (IsMargin g) :=
  decidable_of_iff (IsBlanks g ∧ '\n' ∉ g) ⟨fun h => ⟨h.1, h.2⟩, fun h => ⟨h.1, h.2⟩⟩

/-- Margins are put around the lines of the text. -/
inductive Padded : Text → Text → Prop
  | nil : Padded [] []
  | last {left l right : Text} : IsMargin left → IsMargin right → '\n' ∉ l → l ≠ [] →
      Padded l (left ++ l ++ right)
  | lineFeed {left l right t u : Text} : IsMargin left → IsMargin right → '\n' ∉ l → Padded t u →
      Padded (l ++ '\n' :: t) (left ++ l ++ right ++ '\n' :: u)
  | returnFeed {left l right t u : Text} : IsMargin left → IsMargin right → '\n' ∉ l → Padded t u →
      Padded (l ++ '\r' :: '\n' :: t) (left ++ l ++ right ++ '\r' :: '\n' :: u)

/-- The text in another layout: with other line ends, with a line feed at its end, with margins
around its lines, or with several of these. -/
inductive Relaid : Text → Text → Prop
  | returns (t : Text) : Relaid t (withReturns t)
  | lineFeed {t : Text} : t.getLast? ≠ some '\n' → Relaid t (t ++ ['\n'])
  | padded {t u : Text} : Padded t u → Relaid t u
  | trans {t u v : Text} : Relaid t u → Relaid u v → Relaid t v

theorem withReturns_of_notMem (hl : '\n' ∉ l) : withReturns l = l := by
  induction l with
  | nil => rfl
  | cons c l ih =>
    obtain ⟨hc, hl⟩ := not_or.1 (mt List.mem_cons.2 hl)
    rw [withReturns, List.flatMap_cons, if_neg (Ne.symm hc)]
    exact congrArg _ (ih hl)

theorem withReturns_append (hl : '\n' ∉ l) (t : Text) :
    withReturns (l ++ '\n' :: t) = l ++ '\r' :: '\n' :: withReturns t := by
  have h := withReturns_of_notMem hl
  unfold withReturns at h ⊢
  rw [List.flatMap_append, h]
  rfl

theorem map_trim_lines_withReturns (t : Text) :
    (lines (withReturns t)).map trim = (lines t).map trim := by
  induction t using line_induction with
  | line l hl => rw [withReturns_of_notMem hl]
  | append l t hl ih =>
    rw [withReturns_append hl, map_trim_lines_append_return hl, map_trim_lines_append hl, ih]

theorem map_trim_lines_lineFeed (h : t.getLast? ≠ some '\n') (hne : t ≠ []) :
    (lines (t ++ ['\n'])).map trim = (lines t).map trim := by
  induction t using line_induction with
  | line l hl =>
    rw [map_trim_lines_append hl, lines_of_notMem hl hne]
    rfl
  | append l t hl ih =>
    have htne : t ≠ [] := by
      rintro rfl
      simp at h
    have hlast : t.getLast? ≠ some '\n' := by
      rwa [List.getLast?_append_cons, List.getLast?_cons_of_ne_nil htne] at h
    rw [List.append_assoc, List.cons_append, map_trim_lines_append hl, map_trim_lines_append hl,
      ih hlast htne]

/-- Between its margins a padded line is the line itself. -/
theorem trim_padded {left right : Text} (hleft : IsMargin left) (hright : IsMargin right)
    (l : Text) : trim (left ++ l ++ right) = trim l := by
  rw [trim_append_blanks _ hright.isBlanks, trim_blanks_append hleft.isBlanks]

theorem Padded.map_trim_lines (h : Padded t u) : (lines u).map trim = (lines t).map trim := by
  induction h with
  | nil => rfl
  | last hleft hright hl hne =>
    rw [lines_of_notMem (by simp [hl, hleft.noLineFeed, hright.noLineFeed]) (by simp [hne]),
      lines_of_notMem hl hne, List.map_singleton, List.map_singleton, trim_padded hleft hright]
  | lineFeed hleft hright hl _ ih =>
    rw [map_trim_lines_append (by simp [hl, hleft.noLineFeed, hright.noLineFeed]),
      map_trim_lines_append hl, trim_padded hleft hright, ih]
  | returnFeed hleft hright hl _ ih =>
    rw [map_trim_lines_append_return (by simp [hl, hleft.noLineFeed, hright.noLineFeed]),
      map_trim_lines_append_return hl, trim_padded hleft hright, ih]

/-- In front of the last line, all lines are the same between their margins. -/
theorem Relaid.map_trim_dropLast_lines (h : Relaid t u) :
    (lines u).dropLast.map trim = (lines t).dropLast.map trim := by
  induction h with
  | returns t => rw [List.map_dropLast, List.map_dropLast, map_trim_lines_withReturns]
  | @lineFeed t h =>
    by_cases hne : t = []
    · rw [hne]
      rfl
    · rw [List.map_dropLast, List.map_dropLast, map_trim_lines_lineFeed h hne]
  | padded h => rw [List.map_dropLast, List.map_dropLast, h.map_trim_lines]
  | trans _ _ ih ih' => rw [ih', ih]

end Text

namespace Listing

theorem textOf_trim (raw : Text) :
    Declaration.textOf (Text.trim raw) = Declaration.textOf raw := by
  rw [Declaration.textOf, Text.trim_trim, Declaration.textOf]

theorem classifyLine_trim (display : DisplayPolicy) (source : Text) (n : Nat) (raw : Text) :
    classifyLine display source n (Text.trim raw) = classifyLine display source n raw := by
  rw [classifyLine, textOf_trim, classifyLine]

theorem readMember_trim (options : ReadOptions) (source declaringClass : Text)
    (raw : Text × Nat) : readMember options source declaringClass (raw.map Text.trim id) =
      readMember options source declaringClass raw := by
  funext table
  simp only [readMember, Prod.map_fst, Prod.map_snd, id_eq, classifyLine_trim]

theorem readMembers_map_trim (options : ReadOptions) (source declaringClass : Text)
    (members : List Text) : readMembers options source declaringClass (members.map Text.trim) =
      readMembers options source declaringClass members := by
  funext table
  simp only [readMembers, List.zipIdx_map, List.foldl_map, readMember_trim]

/-- Lines are read as they stand between their margins. -/
theorem readDeclarations_map_trim (options : ReadOptions) (source : Text) (table : SymbolTable)
    (ls : List Text) : readDeclarations options source table (ls.map Text.trim) =
      readDeclarations options source table ls := by
  cases ls with
  | nil => rfl
  | cons header members =>
    simp only [List.map_cons, readDeclarations, classifyLine_trim, readMembers_map_trim]

/-- In another layout a listing is read to the same end: the outcome, the table and the events are
the same, and so is a failure with all that it says. -/
theorem read_relaid {l : Listing} {text : Text} (h : Text.Relaid l.text text)
    (options : ReadOptions) (table : SymbolTable) :
    ({ l with text } : Listing).read options table = l.read options table ∧
      ({ l with text } : Listing).outcome options table = l.outcome options table := by
  have hlines : ({ l with text } : Listing).declarations.map Text.trim =
      l.declarations.map Text.trim := h.map_trim_dropLast_lines
  have hread : ({ l with text } : Listing).read options table = l.read options table := by
    unfold read
    rw [← readDeclarations_map_trim, hlines, readDeclarations_map_trim]
  have hlength : ({ l with text } : Listing).declarations.length = l.declarations.length := by
    simpa using congrArg List.length hlines
  refine ⟨hread, ?_⟩
  rw [outcome, hread, hlength, outcome]

def boxListing : Listing where
  source := "Box".toList
  text := "class a.Box \x7b".toList ++ '\n' :: ("int depth;".toList ++ '\r' :: '\n' ::
    ("depth;".toList ++ '\n' :: "\x7d".toList))

def boxPadded : Text :=
  "\t".toList ++ "class a.Box \x7b".toList ++ "\r".toList ++ '\n' ::
    ("  ".toList ++ "int depth;".toList ++ "\u2003".toList ++ '\r' :: '\n' ::
      ("  ".toList ++ "depth;".toList ++ [] ++ '\n' :: ("\r".toList ++ "\x7d".toList ++ [])))

theorem relaid_box : Text.Relaid boxListing.text (Text.withReturns (boxPadded ++ ['\n'])) := by
  have hpadded : Text.Padded boxListing.text boxPadded :=
    .lineFeed (by decide) (by decide) (by decide)
      (.returnFeed (by decide) (by decide) (by decide)
        (.lineFeed (by decide) (by decide) (by decide)
          (.last (by decide) (by decide) (by decide) (by decide))))
  exact (Text.Relaid.padded hpadded).trans ((Text.Relaid.lineFeed (by decide)).trans (.returns _))

theorem read_relaid_box :
    let text := Text.withReturns (boxPadded ++ ['\n'])
    Text.Relaid boxListing.text text ∧ text ≠ boxListing.text ∧
    (boxListing.read default ∅).failure ≠ none ∧
    ({ boxListing with text } : Listing).read default ∅ = boxListing.read default ∅ ∧
    ({ boxListing with text } : Listing).outcome default ∅ = boxListing.outcome default ∅ := by
  intro text
  obtain ⟨hread, houtcome⟩ := read_relaid relaid_box default ∅
  exact ⟨relaid_box, by decide +kernel, by decide +kernel, hread, houtcome⟩

end Listing
end Surface
