import GenomeMachine.Text.Blank

/-!
# Paths

A path is text divided by slashes. Empty parts and single dots lead nowhere new. The extension
of a file name is what follows its last dot, unless that dot is its first character.
-/

namespace GenomeMachine

/-- The parts of a path, between the slashes. -/
def pathParts (path : String) : List (List Char) :=
  splitWhere (· == '/') path.toList

/-- Whether a part of a path stays where it is. -/
def isIdlePart (part : List Char) : Bool :=
  part.isEmpty || part == ['.']

/-- A path cut in front of its file name, which is the last part that leads somewhere. A path
that ends by going up has no file name. -/
def splitFileName? (path : String) : Option (List (List Char) × List Char) :=
  match (pathParts path).reverse.dropWhile isIdlePart with
  | [] => none
  | name :: parents => if name = ['.', '.'] then none else some (parents.reverse, name)

/-- A file name cut at its last dot into stem and extension. -/
def splitExtension (name : List Char) : List Char × Option (List Char) :=
  match name.reverse.span (· ≠ '.') with
  | (_, []) | (_, [_]) => (name, none)
  | (extension, _ :: stem) => (stem.reverse, some extension.reverse)

/-- The extension of a path. -/
def extension? (path : String) : Option String := do
  let (_, name) ← splitFileName? path
  let extension ← (splitExtension name).2
  return String.ofList extension

/-- The path with another extension. A path without a file name stays as it is. -/
def withExtension (path extension : String) : String :=
  match splitFileName? path with
  | none => path
  | some (parents, name) =>
      String.ofList
        ((parents.flatMap (· ++ ['/'])) ++ (splitExtension name).1 ++ '.' :: extension.toList)

end GenomeMachine
