import Surface.Declaration.Classification
import Surface.Event
import Surface.SymbolTable
import Surface.Text.Lines

/-! # Listings

A listing declares one class: its first line declares the type, the further lines the members, and
the last line closes it. Reading stops at the first failure and keeps what it has reached.
-/

namespace Surface

structure ReadOptions where
  display : DisplayPolicy := default
  duplicates : DuplicatePolicy := default
  deriving DecidableEq, Repr, Inhabited

/-- What reading has reached: the table, the events so far, and the failure that stopped it. -/
structure Progress where
  table : SymbolTable
  events : List Event := []
  failure : Option Failure := none
  deriving DecidableEq

namespace Progress

/-- Goes on with a step that starts from the table reached, unless a failure has stopped it. -/
def andThen (p : Progress) (step : SymbolTable → Progress) : Progress :=
  match p.failure with
  | some _ => p
  | none =>
    let q := step p.table
    { q with events := p.events ++ q.events }

def emit (p : Progress) (e : Event) : Progress := p.andThen fun table => ⟨table, [e], none⟩

@[simp] theorem andThen_failed {p : Progress} {f : Failure} (h : p.failure = some f)
    (step : SymbolTable → Progress) : p.andThen step = p := by simp [andThen, h]

theorem andThen_assoc (p : Progress) (step next : SymbolTable → Progress) :
    (p.andThen step).andThen next = p.andThen fun table => (step table).andThen next := by
  cases h : p.failure with
  | some f => simp [h]
  | none =>
    cases h' : (step p.table).failure with
    | some f => simp [andThen, h, h']
    | none => simp [andThen, h, h']

end Progress

/-- The text of a listing and the path that it came from. -/
structure Listing where
  source : Text
  text : Text
  deriving DecidableEq, Repr

namespace Listing

/-- A failure of classification or of insertion, seen from a line of a listing. -/
def failureAt (source : Text) (line : Nat) (f : Failure) : Failure :=
  { f with path := some source, line := some line }

/-- The classification of a line, with the declaration's text. -/
def classifyLine (display : DisplayPolicy) (source : Text) (line : Nat) (raw : Text) :
    Except Failure (Text × Classification) :=
  let full := Declaration.textOf raw
  match Declaration.classify display full with
  | .ok c => .ok (full, c)
  | .error cause =>
    .error (failureAt source line { cause.failure with op := some "parse_listing" })

/-- Adds one classified declaration of a class to a table. -/
def define (duplicates : DuplicatePolicy) (source : Text) (line : Nat) (declaringClass : Text)
    (full : Text) (c : Classification) (table : SymbolTable) : Progress :=
  let classified := Event.classified c.kind c.signature
  match table.define ⟨declaringClass, c.kind, c.signature⟩ ⟨full, c.short, c.label⟩ duplicates with
  | .error cause => ⟨table, [classified], some (failureAt source line cause.failure)⟩
  | .ok (table, none) => ⟨table, [classified], none⟩
  | .ok (table, some _) => ⟨table, [classified, .overwritten source line], none⟩

def readMember (options : ReadOptions) (source declaringClass : Text) (raw : Text × Nat)
    (table : SymbolTable) : Progress :=
  match classifyLine options.display source raw.2 raw.1 with
  | .error f => ⟨table, [], some f⟩
  | .ok (full, c) => define options.duplicates source raw.2 declaringClass full c table

def readMembers (options : ReadOptions) (source declaringClass : Text) (members : List Text)
    (table : SymbolTable) : Progress :=
  (members.zipIdx 2).foldl (fun p raw => p.andThen (readMember options source declaringClass raw))
    ⟨table, [], none⟩

def readDeclarations (options : ReadOptions) (source : Text) (table : SymbolTable) :
    List Text → Progress
  | [] => ⟨table, [], none⟩
  | header :: members =>
    match classifyLine options.display source 1 header with
    | .error f => ⟨table, [], some f⟩
    | .ok (full, c) =>
      if c.kind = .type then
        (define options.duplicates source 1 c.signature full c table).andThen
          (readMembers options source c.signature members)
      else
        ⟨table, [.classified c.kind c.signature],
          some (failureAt source 1 (Cause.missingType c.label full).failure)⟩

/-- The lines with a declaration: all but the closing one. -/
def declarations (l : Listing) : List Text := (Text.lines l.text).dropLast

def read (l : Listing) (options : ReadOptions) (table : SymbolTable) : Progress :=
  readDeclarations options l.source table l.declarations

/-- The number of declarations that have been read, or the failure that stopped the reading. -/
def outcome (l : Listing) (options : ReadOptions) (table : SymbolTable) : Except Failure Nat :=
  match (l.read options table).failure with
  | some f => .error f
  | none => .ok l.declarations.length

/-- Reads listings one after another into one table. -/
def readAll (options : ReadOptions) (listings : List Listing) (table : SymbolTable) : Progress :=
  listings.foldl (fun p l => p.andThen (l.read options)) ⟨table, [], none⟩

end Listing
end Surface
