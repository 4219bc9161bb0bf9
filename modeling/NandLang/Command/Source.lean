/-! Where a program comes from: file paths in their plain form, paths that start at a home directory,
and what is found there. -/
namespace NandLang.Command

def splitSlash (cs : List Char) : List (List Char) :=
  cs.foldr (fun c parts =>
    match c, parts with
    | '/', _ => [] :: parts
    | _, part :: rest => (c :: part) :: rest
    | _, [] => [[c]]) [[]]

/-- Two slashes in front are kept as they are; any other number of them counts as one. -/
def rootChars : List Char → List Char
  | '/' :: '/' :: '/' :: _ => ['/']
  | '/' :: '/' :: _ => ['/', '/']
  | '/' :: _ => ['/']
  | _ => []

def isAbsolute (path : String) : Bool := !(rootChars path.toList).isEmpty

/-- The parts of a path without empty ones and without single dots. Double dots stay, since what
they lead to depends on the files. -/
def pathParts (path : String) : List String :=
  ((splitSlash path.toList).filter fun part => part ≠ [] && part ≠ ['.']).map String.ofList

def joinPath (root : List Char) (parts : List String) : String :=
  match String.ofList root ++ String.intercalate "/" parts with
  | "" => "."
  | path => path

def plainPath (path : String) : String := joinPath (rootChars path.toList) (pathParts path)

/-- Users and their home directories; the user without a name is the one who asks. -/
abbrev Homes := List (String × String)

inductive HomeError
  | unknownUser
  | nulInName
  deriving DecidableEq, Repr

def HomeError.message : HomeError → String
  | .unknownUser => "Could not determine home directory."
  | .nulInName => "embedded null byte"

/-- The plain path. A tilde in front of its first part stands for the home directory of the user
named behind it. -/
def resolvePath (homes : Homes) (path : String) : Except HomeError String :=
  match isAbsolute path, (pathParts path).map String.toList with
  | false, ('~' :: user) :: rest =>
    if user.contains '\x00' then .error .nulInName
    else match homes.lookup (String.ofList user) with
      | none => .error .unknownUser
      | some home =>
        .ok (joinPath (rootChars home.toList) (pathParts home ++ rest.map String.ofList))
  | _, _ => .ok (plainPath path)

inductive Target
  | stdin
  | file (path : String)
  deriving DecidableEq, Repr

inductive Source
  | missing
  | directory
  | denied
  | tooLong
  | content (bytes : List UInt8)
  deriving DecidableEq, Repr

inductive Input
  | stdin (bytes : List UInt8)
  | file (path : String) (found : Source)
  deriving DecidableEq, Repr

end NandLang.Command
