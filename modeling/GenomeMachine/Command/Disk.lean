import GenomeMachine.Command.Path
import Std.Data.ExtTreeMap

/-!
# Files

A disk holds files at places in a tree of directories. Directories are there for the sake of the
files in them, apart from the working directory and those around it. A path is followed part by
part, and every part but the last has to lead to a directory. There are no links: a file has one
place, and paths to different places are paths to different files.
-/

namespace GenomeMachine

/-- Why a file cannot be read or written. -/
inductive FileError where
  | notFound
  | notDirectory
  | isDirectory
  | nameTooLong
  deriving DecidableEq

def FileError.message : FileError → String
  | notFound => "No such file or directory (os error 2)"
  | notDirectory => "Not a directory (os error 20)"
  | isDirectory => "Is a directory (os error 21)"
  | nameTooLong => "File name too long (os error 36)"

/-- The part of a path that goes up. -/
def parentPart : List Char := ['.', '.']

/-- A place in the tree, as the parts on the way to it, the last one first. The way starts at the
working directory, or at the root if its first part is empty, and it goes up only at its start. -/
abbrev Place := List (List Char)

namespace Place

def root : Place := [[]]

/-- The directory around a place. There is none around the root. -/
def parent : Place → Place
  | [] => [parentPart]
  | [[]] => root
  | part :: rest => if part = parentPart then parentPart :: part :: rest else rest

/-- Whether the place is the working directory, one around it, or the root. -/
def isAround (place : Place) : Bool :=
  place.all fun part => part.isEmpty || part == parentPart

/-- The shortest path to a place. -/
def text (place : Place) : String :=
  if place = root then "/"
  else String.ofList (List.intercalate ['/'] place.reverse)

end Place

/-- Files by the shortest path to their place. -/
structure Disk where
  files : Std.ExtTreeMap String (List UInt8)

namespace Disk

/-- The longest name of a file or directory, in bytes. -/
def nameLimit : Nat := 255

/-- Paths of this many bytes or more are refused. -/
def pathLimit : Nat := 4096

def isFile (disk : Disk) (place : Place) : Bool :=
  disk.files.contains place.text

def isDirectory (disk : Disk) (place : Place) : Bool :=
  place.isAround
    || disk.files.keys.any fun file => (place.text ++ "/").toList.isPrefixOf file.toList

/-- Makes sure that a place is a directory. -/
def enter (disk : Disk) (place : Place) : Except FileError Unit :=
  if disk.isDirectory place then .ok ()
  else if disk.isFile place then .error .notDirectory
  else .error .notFound

/-- One part of a path, from a place that has to be a directory. -/
def descend (disk : Disk) (place : Place) (part : List Char) : Except FileError Place := do
  disk.enter place
  if isIdlePart part then return place
  else if part = parentPart then return place.parent
  else if nameLimit < (String.ofList part).utf8ByteSize then throw .nameTooLong
  else return part :: place

/-- Follows the parts of a path. -/
def follow (disk : Disk) (start : Place) (parts : List (List Char)) : Except FileError Place :=
  parts.foldlM disk.descend start

/-- The parts of a path that is not too long, and where they start. -/
def route (path : String) : Except FileError (Place × List (List Char)) :=
  if pathLimit ≤ path.utf8ByteSize then .error .nameTooLong
  else .ok (if path.toList.head? = some '/' then .root else [], pathParts path)

def read (disk : Disk) (path : String) : Except FileError (List UInt8) := do
  let (start, parts) ← route path
  let place ← disk.follow start parts
  match disk.files[place.text]? with
  | some bytes => return bytes
  | none => throw (if disk.isDirectory place then .isDirectory else .notFound)

/-- Whether a part is the name of something. -/
def isName (part : List Char) : Bool :=
  !isIdlePart part && part != parentPart

/-- The disk with a file created or replaced. A name with a slash behind it asks for a directory,
whatever is there. -/
def write (disk : Disk) (path : String) (bytes : List UInt8) : Except FileError Disk := do
  let (start, parts) ← route path
  match parts.reverse.span List.isEmpty with
  | (_ :: _, name :: parents) =>
      if isName name then
        disk.enter (← disk.follow start parents.reverse)
        throw .isDirectory
  | _ => pure ()
  let place ← disk.follow start parts
  if disk.isDirectory place then throw .isDirectory
  return { files := disk.files.insert place.text bytes }

end Disk

end GenomeMachine
