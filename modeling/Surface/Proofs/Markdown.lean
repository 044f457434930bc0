import Surface.Markdown
import Surface.Proofs.Report.Plain
import Surface.Proofs.Simplifier
import Surface.Proofs.Text.FilledLines

/-! # What Markdown tells of a report

The blank lines of a report only keep its parts apart. Each other line shows by its first characters
what it is, and a mark ends each of its parts that may be followed by any text. So the lines are
read from the text, and from the lines the sections with their entries: a report is told up to what
simplification leaves out of it.
-/

namespace Surface.Markdown

open Text

/-- What is shown of a change: how it is headed, and the full declarations of a modification. -/
structure Shown where
  variant : Text
  label : Text
  short : Text
  fulls : List Text
  deriving DecidableEq, Repr

def shown (s : Simplifier) (ch : Change) : Shown where
  variant := ch.variantName
  label := ch.current.label
  short := s.simplify ch.current.short
  fulls :=
    match ch with
    | .modification _ old new => [s.simplify old.full, s.simplify new.full]
    | .addition _ _ | .deletion _ _ => []

/-- What is shown of a report, section by section. -/
def view (s : Simplifier) (report : Report) : List (Text × List Shown) :=
  (sections s report).map fun (title, changes) => (title, changes.map (shown s))

/-- The lines that are not blank. -/
inductive Line where
  | heading (title : Text)
  | headline (word label short : Text)
  | row (name full : Text)
  deriving DecidableEq, Repr

namespace Line

def text : Line → Text
  | heading title => "## ".toList ++ title
  | headline word label short =>
    '*' :: word ++ "* ".toList ++ label ++ ": `".toList ++ short ++ "`".toList
  | row name full => "| ".toList ++ name ++ " | ".toList ++ full ++ " |".toList

/-- A line that can be read from its text: the texts in it are on one line, and those in front of
others do not hold the mark that ends them. -/
inductive IsReadable : Line → Prop
  | heading {title : Text} : '\n' ∉ title → IsReadable (heading title)
  | headline {word label short : Text} : '\n' ∉ word → '*' ∉ word → '\n' ∉ label → ':' ∉ label →
      '\n' ∉ short → IsReadable (headline word label short)
  | row {name full : Text} : '\n' ∉ name → ' ' ∉ name → '\n' ∉ full → IsReadable (row name full)

theorem text_headline (word label short : Text) : (headline word label short).text =
    '*' :: (word ++ '*' :: ' ' :: (label ++ ':' :: ' ' :: '`' :: (short ++ ['`']))) := by
  simp only [text, List.append_assoc]
  rfl

theorem text_row (name full : Text) : (row name full).text =
    '|' :: ' ' :: (name ++ ' ' :: '|' :: ' ' :: (full ++ [' ', '|'])) := by
  simp only [text, List.append_assoc]
  rfl

theorem text_ne_nil (l : Line) : l.text ≠ [] := by cases l <;> exact List.cons_ne_nil _ _

theorem IsReadable.notMem {l : Line} (h : l.IsReadable) : '\n' ∉ l.text := by
  cases h with
  | @heading title htitle =>
    have htext : (Line.heading title).text = '#' :: '#' :: ' ' :: title := rfl
    simp [htext, htitle]
  | headline hword _ hlabel _ hshort => simp [text_headline, hword, hlabel, hshort]
  | row hname _ hfull => simp [text_row, hname, hfull]

theorem eq_of_append_cons_eq {c : Char} {a a' b b' : Text} (ha : c ∉ a) (ha' : c ∉ a')
    (h : a ++ c :: b = a' ++ c :: b') : a = a' ∧ b = b' := by
  have hlength : a.length = a'.length := by
    have hindex := congrArg (List.idxOf c) h
    simpa [List.idxOf_append_of_notMem, ha, ha'] using hindex
  obtain ⟨rfl, hrest⟩ := List.append_inj h hlength
  exact ⟨rfl, (List.cons.inj hrest).2⟩

/-- Each part of a line ends at the first of its marks, so its text tells what the line says. -/
theorem eq_of_text_eq {l m : Line} (hl : l.IsReadable) (hm : m.IsReadable)
    (h : l.text = m.text) : l = m := by
  cases hl with
  | @heading title _ =>
    cases hm with
    | @heading title' _ => rw [List.append_cancel_left h]
    | headline => cases h
    | row => cases h
  | @headline word label short _ hword _ hlabel _ =>
    cases hm with
    | heading => cases h
    | @headline word' label' short' _ hword' _ hlabel' _ =>
      rw [text_headline, text_headline] at h
      obtain ⟨rfl, hlabels⟩ := eq_of_append_cons_eq hword hword' (List.cons.inj h).2
      obtain ⟨rfl, hshorts⟩ := eq_of_append_cons_eq hlabel hlabel' (List.cons.inj hlabels).2
      rw [List.append_cancel_right (List.cons.inj (List.cons.inj hshorts).2).2]
    | row => cases h
  | @row name full _ hname _ =>
    cases hm with
    | heading => cases h
    | headline => cases h
    | @row name' full' _ hname' _ =>
      rw [text_row, text_row] at h
      obtain ⟨rfl, hfulls⟩ := eq_of_append_cons_eq hname hname'
        (List.cons.inj (List.cons.inj h).2).2
      rw [List.append_cancel_right (List.cons.inj (List.cons.inj hfulls).2).2]

theorem eq_of_map_text_eq {ls ms : List Line} (hls : ∀ l ∈ ls, l.IsReadable)
    (hms : ∀ m ∈ ms, m.IsReadable) (h : ls.map text = ms.map text) : ls = ms := by
  induction ls generalizing ms with
  | nil => exact (List.map_eq_nil_iff.1 h.symm).symm
  | cons l ls ih =>
    cases ms with
    | nil => cases h
    | cons m ms =>
      obtain ⟨hhead, htail⟩ := List.cons.inj h
      rw [eq_of_text_eq (hls l List.mem_cons_self) (hms m List.mem_cons_self) hhead,
        ih (fun l hl => hls l (List.mem_cons_of_mem _ hl))
          (fun m hm => hms m (List.mem_cons_of_mem _ hm)) htail]

end Line

def entryLines (s : Simplifier) : Change → List Line
  | .addition _ d => [.headline "new" d.label (s.simplify d.short)]
  | .deletion _ d => [.headline "removed" d.label (s.simplify d.short)]
  | .modification _ old new =>
    [.headline "modified" new.label (s.simplify new.short), .row "From:" (s.simplify old.full),
      .row "To:" (s.simplify new.full)]

def sectionLines (s : Simplifier) (title : Text) (changes : List Change) : List Line :=
  .heading title :: changes.flatMap (entryLines s)

def reportLines (s : Simplifier) (report : Report) : List Line :=
  (sections s report).flatMap fun (title, changes) => sectionLines s title changes

variable {s : Simplifier} {report : Report}

theorem isReadable_entryLines {ch : Change} (h : ∀ d ∈ ch.definitions, d.IsPlain) (s : Simplifier) :
    ∀ l ∈ entryLines s ch, l.IsReadable := by
  have headline : ∀ word : Text, '\n' ∉ word → '*' ∉ word → ∀ d ∈ ch.definitions,
      (Line.headline word d.label (s.simplify d.short)).IsReadable := fun word hline hword d hd =>
    .headline hline hword (h d hd).label (h d hd).label_colon
      (Simplifier.notMem_simplify (h d hd).short s)
  have row : ∀ name : Text, '\n' ∉ name → ' ' ∉ name → ∀ d ∈ ch.definitions,
      (Line.row name (s.simplify d.full)).IsReadable := fun name hline hname d hd =>
    .row hline hname (Simplifier.notMem_simplify (h d hd).full s)
  cases ch with
  | addition id d =>
    simp only [entryLines, List.mem_singleton, forall_eq]
    exact headline _ (by decide) (by decide) d List.mem_cons_self
  | deletion id d =>
    simp only [entryLines, List.mem_singleton, forall_eq]
    exact headline _ (by decide) (by decide) d List.mem_cons_self
  | modification id old new =>
    have hold : old ∈ (Change.modification id old new).definitions := List.mem_cons_self
    have hnew : new ∈ (Change.modification id old new).definitions := by simp [Change.definitions]
    simp only [entryLines, List.mem_cons, List.not_mem_nil, or_false, forall_eq_or_imp, forall_eq]
    exact ⟨headline _ (by decide) (by decide) new hnew, row _ (by decide) (by decide) old hold,
      row _ (by decide) (by decide) new hnew⟩

theorem filledLines_text {l : Line} (h : l.IsReadable) : filledLines l.text = [l.text] :=
  filledLines_of_line h.notMem l.text_ne_nil

theorem filledLines_entry {ch : Change} (h : ∀ d ∈ ch.definitions, d.IsPlain) (s : Simplifier) :
    filledLines (entry s ch) = (entryLines s ch).map Line.text := by
  have hlines := isReadable_entryLines h s
  cases ch with
  | addition id d => exact filledLines_text (hlines _ List.mem_cons_self)
  | deletion id d => exact filledLines_text (hlines _ List.mem_cons_self)
  | modification id old new =>
    simp only [entryLines, List.mem_cons, List.not_mem_nil, or_false, forall_eq_or_imp, forall_eq]
      at hlines
    obtain ⟨hheadline, hfrom, hto⟩ := hlines
    have hentry : entry s (.modification id old new) =
        (Line.headline "modified" new.label (s.simplify new.short)).text ++ '\n' :: '\n' ::
          ((Line.row "From:" (s.simplify old.full)).text ++ '\n' ::
            (Line.row "To:" (s.simplify new.full)).text) := by
      simp only [entry, headline, row, Line.text, List.append_assoc]
      rfl
    rw [hentry, filledLines_append, filledLines_cons, filledLines_append,
      filledLines_text hheadline, filledLines_text hfrom, filledLines_text hto]
    rfl

theorem filledLines_classSection_append {title : Text} {changes : List Change}
    (htitle : '\n' ∉ title) (hchanges : ∀ ch ∈ changes, ∀ d ∈ ch.definitions, d.IsPlain)
    (s : Simplifier) (rest : Text) : filledLines (classSection s title changes ++ rest) =
      (sectionLines s title changes).map Line.text ++ filledLines rest := by
  have hsection : classSection s title changes ++ rest =
      (Line.heading title).text ++ '\n' :: '\n' ::
        (['\n', '\n'].intercalate (changes.map (entry s)) ++ '\n' :: '\n' :: '\n' :: rest) := by
    simp only [classSection, Line.text, List.append_assoc]
    rfl
  have hentries : (changes.map (entry s)).flatMap filledLines =
      (changes.flatMap (entryLines s)).map Line.text := by
    rw [List.flatMap_map, List.map_flatMap]
    exact List.flatMap_congr fun ch hch => filledLines_entry (hchanges ch hch) s
  rw [hsection, filledLines_append, filledLines_text (.heading htitle), filledLines_cons,
    filledLines_append, filledLines_intercalate, filledLines_cons, filledLines_cons, hentries]
  simp [sectionLines]

theorem perm_sections (s : Simplifier) (report : Report) : (sections s report).Perm
    (report.entries.map fun (c, changes) => (s.simplify c, changes)) := List.mergeSort_perm _ _

/-- Titles and changes of a report are on single lines, in the order of the sections too. -/
theorem forall_mem_sections (h : report.IsPlain) (s : Simplifier) : ∀ e ∈ sections s report,
    '\n' ∉ e.1 ∧ ∀ ch ∈ e.2, ∀ d ∈ ch.definitions, d.IsPlain := by
  intro e he
  obtain ⟨⟨c, changes⟩, hentry, rfl⟩ := List.mem_map.1 ((perm_sections s report).mem_iff.1 he)
  exact ⟨Simplifier.notMem_simplify (h.classes c (List.mem_map_of_mem hentry)) s,
    fun ch hch => h.definitions ch (List.mem_flatMap.2 ⟨_, hentry, hch⟩)⟩

theorem filledLines_render (h : report.IsPlain) (s : Simplifier) :
    filledLines (render s report) = (reportLines s report).map Line.text := by
  have hsections := forall_mem_sections h s
  unfold render reportLines
  generalize sections s report = es at hsections
  induction es with
  | nil => rfl
  | cons e es ih =>
    obtain ⟨htitle, hchanges⟩ := hsections e List.mem_cons_self
    rw [List.flatMap_cons, List.flatMap_cons, List.map_append,
      ← ih fun e he => hsections e (List.mem_cons_of_mem _ he)]
    exact filledLines_classSection_append htitle hchanges s _

theorem isReadable_reportLines (h : report.IsPlain) (s : Simplifier) :
    ∀ l ∈ reportLines s report, l.IsReadable := by
  intro l hl
  obtain ⟨e, he, hl⟩ := List.mem_flatMap.1 hl
  obtain ⟨htitle, hchanges⟩ := forall_mem_sections h s e he
  rcases List.mem_cons.1 hl with rfl | hl
  · exact .heading htitle
  · obtain ⟨ch, hch, hl⟩ := List.mem_flatMap.1 hl
    exact isReadable_entryLines (hchanges ch hch) s l hl

/-- What has been read of a report from its end up to some line. -/
structure Draft where
  fulls : List Text := []
  entries : List Shown := []
  sections : List (Text × List Shown) := []

def variantOf (word : Text) : Text :=
  if word = "new" then "addition" else if word = "removed" then "deletion" else "modification"

/-- Reads the line above what has been read: a headline takes the declarations below it, and a
heading the entries. -/
def Draft.read (l : Line) (d : Draft) : Draft :=
  match l with
  | .heading title => { sections := (title, d.entries) :: d.sections }
  | .headline word label short =>
    { d with fulls := [], entries := ⟨variantOf word, label, short, d.fulls⟩ :: d.entries }
  | .row _ full => { d with fulls := full :: d.fulls }

/-- Behind an entry there is no row left that could be taken for one of its own. -/
theorem foldr_read_entryLines (s : Simplifier) (ch : Change) (entries : List Shown)
    (sections : List (Text × List Shown)) :
    (entryLines s ch).foldr Draft.read ⟨[], entries, sections⟩ =
      ⟨[], shown s ch :: entries, sections⟩ := by
  cases ch <;> rfl

theorem foldr_read_entries (s : Simplifier) (changes : List Change)
    (sections : List (Text × List Shown)) :
    (changes.flatMap (entryLines s)).foldr Draft.read ⟨[], [], sections⟩ =
      ⟨[], changes.map (shown s), sections⟩ := by
  induction changes with
  | nil => rfl
  | cons ch changes ih =>
    rw [List.flatMap_cons, List.foldr_append, ih, foldr_read_entryLines]
    rfl

theorem foldr_read_reportLines (s : Simplifier) (report : Report) :
    (reportLines s report).foldr Draft.read {} = { sections := view s report } := by
  unfold reportLines view
  induction sections s report with
  | nil => rfl
  | cons e es ih =>
    rw [List.flatMap_cons, List.foldr_append, ih]
    simp only [sectionLines, List.foldr_cons, foldr_read_entries]
    rfl

theorem view_eq_of_render_eq {a b : Report} (ha : a.IsPlain) (hb : b.IsPlain)
    (h : render s a = render s b) : view s a = view s b := by
  have htexts := congrArg filledLines h
  rw [filledLines_render ha, filledLines_render hb] at htexts
  have hlines := Line.eq_of_map_text_eq (isReadable_reportLines ha s)
    (isReadable_reportLines hb s) htexts
  have hread := congrArg (fun ls => (ls.foldr Draft.read {}).sections) hlines
  simpa only [foldr_read_reportLines] using hread

section Counts

variable {p : Line → Bool} {q : Change → Bool}

theorem countP_entries (hentry : ∀ ch, (entryLines s ch).countP p = (q ch).toNat)
    (changes : List Change) : (changes.flatMap (entryLines s)).countP p = changes.countP q := by
  induction changes with
  | nil => rfl
  | cons ch changes ih =>
    rw [List.flatMap_cons, List.countP_append, ih, hentry, List.countP_cons, Nat.add_comm]
    cases q ch <;> rfl

theorem countP_sections {atHeading : Bool} (hheading : ∀ title, p (.heading title) = atHeading)
    (hentry : ∀ ch, (entryLines s ch).countP p = (q ch).toNat) (es : List (Text × List Change)) :
    (es.flatMap fun (title, changes) => sectionLines s title changes).countP p =
      (if atHeading then es.length else 0) + (es.flatMap Prod.snd).countP q := by
  induction es with
  | nil => simp
  | cons e es ih =>
    rw [List.flatMap_cons, List.countP_append, ih, List.flatMap_cons, List.countP_append,
      List.length_cons]
    simp only [sectionLines, List.countP_cons, hheading, countP_entries hentry]
    split <;> omega

theorem length_sections (s : Simplifier) (report : Report) :
    (sections s report).length = report.size := by
  rw [(perm_sections s report).length_eq, List.length_map, OrderedMap.size]

theorem countP_changes_sections (s : Simplifier) (report : Report) (q : Change → Bool) :
    ((sections s report).flatMap Prod.snd).countP q = report.changes.countP q := by
  rw [((perm_sections s report).flatMap_right Prod.snd).countP_eq, List.flatMap_map]
  rfl

/-- Lines that start with a mark are counted by counting classes or changes, where the mark tells
headings and entries apart. -/
theorem countMarked_render {mark : Text} {atHeading : Bool} (hmark : mark ≠ [] ∧ '\r' ∉ mark)
    (hheading : ∀ title, mark.isPrefixOf (Line.heading title).text = atHeading)
    (hentry : ∀ ch, (entryLines s ch).countP (fun l => mark.isPrefixOf l.text) = (q ch).toNat)
    (h : report.IsPlain) : countMarked mark (render s report) =
      (if atHeading then report.size else 0) + report.changes.countP q := by
  rw [countMarked_eq hmark.1 hmark.2, filledLines_render h, List.countP_map, reportLines]
  refine (countP_sections hheading hentry _).trans ?_
  rw [length_sections, countP_changes_sections]

end Counts

/-- How many lines of a text start like the headings, and how many like the headlines of each kind
of change. -/
def tally (t : Text) : Summary where
  additions := countMarked "*new* " t
  deletions := countMarked "*removed* " t
  modifications := countMarked "*modified* " t
  classes := countMarked "## " t

theorem tally_render (h : report.IsPlain) (s : Simplifier) :
    tally (render s report) = report.summary := by
  have hclasses : countMarked "## ".toList (render s report) = report.size := by
    refine (countMarked_render (q := fun _ => false) ⟨by decide, by decide⟩ (fun _ => rfl)
      (fun ch => by cases ch <;> rfl) h).trans ?_
    simp
  have hchanges : ∀ (mark : Text) (q : Change → Bool), mark ≠ [] ∧ '\r' ∉ mark →
      (∀ title, mark.isPrefixOf (Line.heading title).text = false) →
      (∀ ch, (entryLines s ch).countP (fun l => mark.isPrefixOf l.text) = (q ch).toNat) →
      countMarked mark (render s report) = report.changes.countP q :=
    fun mark q hmark hheading hentry => by
      rw [countMarked_render hmark hheading hentry h, if_neg Bool.false_ne_true, Nat.zero_add]
  rw [tally, hclasses, hchanges _ Change.isAddition ⟨by decide, by decide⟩ (fun _ => rfl)
      fun ch => by cases ch <;> rfl,
    hchanges _ Change.isDeletion ⟨by decide, by decide⟩ (fun _ => rfl)
      fun ch => by cases ch <;> rfl,
    hchanges _ Change.isModification ⟨by decide, by decide⟩ (fun _ => rfl)
      fun ch => by cases ch <;> rfl]
  rfl

/-- Reports on single lines that are rendered alike show the same, and their lines are counted as
their summary says; the report between two snapshots is one of them. -/
theorem render_lossless (s : Simplifier) :
    (∀ a b : Report, a.IsPlain → b.IsPlain → render s a = render s b → view s a = view s b) ∧
    (∀ report : Report, report.IsPlain → tally (render s report) = report.summary) ∧
    ∀ (options options' : ReadOptions) (w w' : Workspace) (root root' : Text),
      (Report.between (Snapshot.read options w root).table
        (Snapshot.read options' w' root').table).IsPlain :=
  ⟨fun _ _ ha hb => view_eq_of_render_eq ha hb, fun _ h => tally_render h s,
    Report.isPlain_between_snapshots⟩

/-- A tank has got a level, and its drain has become final. -/
def tankReport (package : Text) : Report := .ofChanges
  [.addition ⟨package ++ ".Tank".toList, .field, "level"⟩
      ⟨"public int level", "int level", "field"⟩,
    .modification ⟨package ++ ".Tank".toList, .method, "drain()"⟩
      ⟨"public void drain()", "void drain()", "method"⟩
      ⟨"public final void drain()", "void drain()", "method"⟩]

/-- Only the package is lost. -/
theorem render_lossless_tanks :
    (tankReport "water").IsPlain ∧ (tankReport "fuel").IsPlain ∧
    tankReport "water" ≠ tankReport "fuel" ∧
    render Dialect.extended.simplifier (tankReport "water") =
      render Dialect.extended.simplifier (tankReport "fuel") ∧
    view Dialect.extended.simplifier (tankReport "water") =
      view Dialect.extended.simplifier (tankReport "fuel") ∧
    tally (render Dialect.extended.simplifier (tankReport "water")) = ⟨1, 0, 1, 1⟩ := by
  have hwater : (tankReport "water").IsPlain := by decide +kernel
  have hfuel : (tankReport "fuel").IsPlain := by decide +kernel
  have hrender : render Dialect.extended.simplifier (tankReport "water") =
      render Dialect.extended.simplifier (tankReport "fuel") := by decide +kernel
  obtain ⟨hview, htally, -⟩ := render_lossless Dialect.extended.simplifier
  exact ⟨hwater, hfuel, by decide +kernel, hrender, hview _ _ hwater hfuel hrender,
    htally _ hwater⟩

end Surface.Markdown
