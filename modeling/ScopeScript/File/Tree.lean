import ScopeScript.File.Path
import ScopeScript.Text.Bytes

/-!
# Files

The evaluator reads files through a function from paths to texts or errors. `FileTree` is such a
collection of files held in memory; a directory exists if a file lies in it.
-/

namespace ScopeScript

/-- Why a file cannot be read. -/
inductive FileError
  | missing
  | isDirectory
  | notDirectory
  | nameTooLong
  | invalidName
  | other (reason : String)
  deriving DecidableEq, Repr, Inhabited

namespace FileError

/-- Wording of an error about a path. -/
def message (path : String) : FileError → String
  | missing => "open " ++ path ++ ": no such file or directory"
  | isDirectory => "read " ++ path ++ ": is a directory"
  | notDirectory => "open " ++ path ++ ": not a directory"
  | nameTooLong => "open " ++ path ++ ": file name too long"
  | invalidName => "open " ++ path ++ ": invalid argument"
  | other reason => reason

end FileError

/-- Reads the text of the file with a given path. -/
abbrev FileReader := String → Except FileError String

/-- Files in memory, by the parts of their paths. -/
structure FileTree where
  files : List (List String × String)

namespace FileTree

/-- The files with the given paths and texts. -/
def ofList (files : List (String × String)) : FileTree :=
  ⟨files.map fun (path, text) => (Path.resolveParts false [] (Path.parts path), text)⟩

/-- What stands at a place. -/
inductive Entry
  | file (text : String)
  | directory
  | absent

/-- What stands at a place given by its parts. -/
def entry (tree : FileTree) (place : List String) : Entry :=
  match tree.files.find? (·.1 == place) with
  | some (_, text) => .file text
  | none =>
      if place.isEmpty || tree.files.any (fun file => place.isPrefixOf file.1) then .directory
      else .absent

/-- Longest name of a file in bytes. -/
def nameLimit : Nat := 255

/-- Follow the parts of a path from a place, whose parts come last one first. Outside of the
starting directory there is nothing but the directories above it. -/
def follow (tree : FileTree) : List String → Nat → List String → Except FileError String
  | place, above, [] =>
      if 0 < above then
        .error .isDirectory
      else
        match tree.entry place.reverse with
        | .file text => .ok text
        | .directory => .error .isDirectory
        | .absent => .error .missing
  | place, above, part :: rest =>
      match if 0 < above then .directory else tree.entry place.reverse with
      | .file _ => .error .notDirectory
      | .absent => .error .missing
      | .directory =>
          if part = "" ∨ part = "." then
            tree.follow place above rest
          else if part = ".." then
            match place with
            | _ :: outer => tree.follow outer above rest
            | [] => tree.follow [] (above + 1) rest
          else if nameLimit < Text.size part then
            .error .nameTooLong
          else if 0 < above then
            .error .missing
          else
            tree.follow (part :: place) above rest

/-- Read a file. -/
def reader (tree : FileTree) : FileReader := fun path =>
  if path = "" then .error .missing
  else if path.toList.contains (Char.ofNat 0) then .error .invalidName
  else if Path.isAbsolute path then
    if (Path.parts path).any (fun part => decide (nameLimit < Text.size part)) then
      .error .nameTooLong
    else .error .missing
  else tree.follow [] 0 (Path.parts path)

end FileTree

end ScopeScript
