import Surface.Disk.Basic
import Surface.Text.Split

/-! # Paths

A path is read name by name from the root or from the current directory. Links on the way are
followed, forty of them at most, and `..` leaves the directory that has really been reached.
-/

namespace Surface

inductive FileError where
  | notFound
  | notDirectory
  | isDirectory
  | tooManyLinks
  | nameTooLong
  | embeddedNul
  | notUtf8
  deriving DecidableEq, Repr

def FileError.message : FileError → Text
  | notFound => "No such file or directory (os error 2)"
  | notDirectory => "Not a directory (os error 20)"
  | isDirectory => "Is a directory (os error 21)"
  | tooManyLinks => "Too many levels of symbolic links (os error 40)"
  | nameTooLong => "File name too long (os error 36)"
  | embeddedNul => "file name contained an unexpected NUL byte"
  | notUtf8 => "stream did not contain valid UTF-8"

namespace Path

def maxLinks : Nat := 40
def maxNameSize : Nat := 255
def maxPathSize : Nat := 4095

def names (path : Text) : List Text := path.splitAt '/'

def start (current : Location) (path : Text) : Location :=
  if path.head? = some '/' then [] else current

/-- The path of a name in the directory at a path. -/
def join (path name : Text) : Text :=
  if path.getLast? = some '/' then path ++ name else path ++ '/' :: name

/-- Neither step leads anywhere else: an empty name stands between two slashes or behind one. -/
def staysHere (name : Text) : Bool := name == [] || name == ['.']

def goesUp (name : Text) : Bool := name == ['.', '.']

def check (path : Text) : Except FileError Unit :=
  if '\x00' ∈ path then .error .embeddedNul
  else if path = [] then .error .notFound
  else if maxPathSize < path.byteSize then .error .nameTooLong
  else .ok ()

end Path

namespace Disk

open Surface.Path

/-- Follows names from a location that has been reached; `links` more links may be followed. -/
def follow (d : Disk) (links : Nat) (here : Location) : List Text → Except FileError Location
  | [] => .ok here
  | name :: rest =>
    if !d.isDirectory here then .error .notDirectory
    else if staysHere name then d.follow links here rest
    else if goesUp name then d.follow links here.dropLast rest
    else if maxNameSize < name.byteSize then .error .nameTooLong
    else
      match d.node? (here ++ [name]) with
      | none => .error .notFound
      | some (.link target) =>
        match links with
        | 0 => .error .tooManyLinks
        | links + 1 => d.follow links (start here target) (names target ++ rest)
      | some _ => d.follow links (here ++ [name]) rest
  termination_by rest => (links, rest.length)

/-- The place at which following names would create or replace a file: the directory and the
name in it. -/
def followToFile (d : Disk) (links : Nat) (here : Location) :
    List Text → Except FileError (Location × Text)
  | [] => .error .isDirectory
  | name :: rest =>
    if !d.isDirectory here then .error .notDirectory
    else if rest ≠ [] ∧ rest.all List.isEmpty then .error .isDirectory
    else if staysHere name then
      if rest = [] then .error .isDirectory else d.followToFile links here rest
    else if goesUp name then
      if rest = [] then .error .isDirectory else d.followToFile links here.dropLast rest
    else if maxNameSize < name.byteSize then .error .nameTooLong
    else
      match d.node? (here ++ [name]) with
      | some (.link target) =>
        match links with
        | 0 => .error .tooManyLinks
        | links + 1 => d.followToFile links (start here target) (names target ++ rest)
      | some .directory =>
        if rest = [] then .error .isDirectory else d.followToFile links (here ++ [name]) rest
      | some (.file _) => if rest = [] then .ok (here, name) else .error .notDirectory
      | none => if rest = [] then .ok (here, name) else .error .notFound
  termination_by rest => (links, rest.length)

end Disk

/-- A disk as seen by a program that runs in one of its directories. -/
structure Workspace where
  disk : Disk
  current : Location

namespace Workspace

open Surface.Path

/-- Where a path leads. -/
def resolve (w : Workspace) (path : Text) : Except FileError Location := do
  check path
  w.disk.follow maxLinks (start w.current path) (names path)

def isDirectory (w : Workspace) (path : Text) : Bool :=
  match w.resolve path with
  | .ok l => w.disk.isDirectory l
  | .error _ => false

def exists? (w : Workspace) (path : Text) : Bool := (w.resolve path).isOk

def readBytes (w : Workspace) (path : Text) : Except FileError ByteArray := do
  match w.disk.node? (← w.resolve path) with
  | some (.file content) => .ok content
  | some .directory => .error .isDirectory
  | _ => .error .notFound

/-- The text in a file's bytes. -/
def decode (content : ByteArray) : Except FileError Text :=
  match String.fromUTF8? content with
  | some s => .ok s.toList
  | none => .error .notUtf8

def encode (t : Text) : ByteArray := (String.ofList t).toUTF8

def readText (w : Workspace) (path : Text) : Except FileError Text := do
  decode (← w.readBytes path)

/-- Replaces the content of a file, or creates it. -/
def write (w : Workspace) (path : Text) (content : ByteArray) : Except FileError Workspace := do
  check path
  let (parent, name) ← w.disk.followToFile maxLinks (start w.current path) (names path)
  return { w with disk := w.disk.put parent name (.file content) }

end Workspace
end Surface
