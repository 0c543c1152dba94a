/-!
# File paths

Paths are texts with parts separated by slashes. A path is cleaned by dropping empty parts and
single dots and by resolving double dots against the part before them.
-/

namespace ScopeScript
namespace Path

/-- Split a path at its slashes. -/
def parts (path : String) : List String :=
  path.splitOn "/"

/-- Whether a path starts at the root. -/
def isAbsolute (path : String) : Bool :=
  path.toList.head? == some '/'

/-- Resolve the parts of a path; the parts kept so far come last one first. -/
def resolveParts (rooted : Bool) : List String → List String → List String
  | kept, [] => kept.reverse
  | kept, part :: rest =>
      if part = "" ∨ part = "." then
        resolveParts rooted kept rest
      else if part = ".." then
        match kept with
        | last :: earlier =>
            if last = ".." then resolveParts rooted (".." :: kept) rest
            else resolveParts rooted earlier rest
        | [] => resolveParts rooted (if rooted then [] else [".."]) rest
      else
        resolveParts rooted (part :: kept) rest

/-- The shortest path that means the same. -/
def clean (path : String) : String :=
  let rooted := isAbsolute path
  let joined := "/".intercalate (resolveParts rooted [] (parts path))
  if rooted then "/" ++ joined else if joined = "" then "." else joined

/-- The cleaned path of a name inside a directory. -/
def join (directory name : String) : String :=
  if directory = "" then (if name = "" then "" else clean name)
  else clean (directory ++ "/" ++ name)

/-- The directory a path lies in. -/
def directory (path : String) : String :=
  let inside := (parts path).dropLast
  clean ("/".intercalate inside ++ (if inside.isEmpty then "" else "/"))

/-- The last part of a path; trailing slashes do not count. -/
def base (path : String) : String :=
  if path = "" then
    "."
  else
    match (parts path).reverse.dropWhile (· == "") with
    | last :: _ => last
    | [] => "/"

/-- The part of the last name from its last dot on; empty without a dot. -/
def extension (path : String) : String :=
  let name := ((parts path).getLast?.getD "").toList.reverse
  let suffix := name.takeWhile (· != '.')
  if suffix.length < name.length then String.ofList ('.' :: suffix.reverse) else ""

/-- Remove an ending if the text has it. -/
def withoutSuffix (text ending : String) : String :=
  let kept := text.toList.length - ending.toList.length
  if text.toList.drop kept = ending.toList then String.ofList (text.toList.take kept) else text

end Path
end ScopeScript
