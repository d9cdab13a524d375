/-!
# Finding the program file

Why a program file cannot be read, what the user is told then, and how a path is followed through a
tree of directories to one of these reasons.
-/

namespace ChipEight

/-- Why a file cannot be read. -/
inductive ReadFailure where
  /-- There is nothing at the path. -/
  | notFound
  /-- The path leads through something that is no directory. -/
  | notDirectory
  /-- The path leads to a directory. -/
  | isDirectory
  /-- The path or one of its names is too long. -/
  | nameTooLong
deriving DecidableEq, Repr

namespace ReadFailure

/-- The number of the failure as the system counts them. -/
def number : ReadFailure → Nat
  | notFound => 2
  | notDirectory => 20
  | isDirectory => 21
  | nameTooLong => 36

/-- The failure that the system counts under the given number. -/
def ofNumber? : Nat → Option ReadFailure
  | 2 => some notFound
  | 20 => some notDirectory
  | 21 => some isDirectory
  | 36 => some nameTooLong
  | _ => none

/-- The wording of the system. -/
def description : ReadFailure → String
  | notFound => "No such file or directory"
  | notDirectory => "Not a directory"
  | isDirectory => "Is a directory"
  | nameTooLong => "File name too long"

/-- What the user is told when the program at `path` cannot be read. -/
def report (failure : ReadFailure) (path : String) : String :=
  "Error: failed to read program " ++ path ++ "\n\nCaused by:\n    "
    ++ failure.description ++ s!" (os error {failure.number})\n"

end ReadFailure

/-- A tree of directories, given by the full paths of what is in it. -/
structure FileTree where
  /-- The directories below the topmost one, each as the list of names that lead to it. -/
  directories : List (List String)
  /-- The files, each as the list of names that lead to it. -/
  files : List (List String)
  /-- The directory at which relative paths start. -/
  workingDirectory : List String
deriving Repr

namespace FileTree

/-- The most bytes in one name. -/
def maxName : Nat := 255

/-- The most bytes in a path. -/
def maxPath : Nat := 4095

/-- The place is a directory. -/
def isDirectory (t : FileTree) (place : List String) : Bool :=
  place.isEmpty || t.directories.contains place

/-- Follows names from a place on. An empty name and `.` stay where they are, `..` goes up, and all
three need a directory to be in. -/
def follow (t : FileTree) (place : List String) : List String → Except ReadFailure (List String)
  | [] => .ok place
  | name :: names =>
    if !t.isDirectory place then .error .notDirectory
    else if name = "" ∨ name = "." then t.follow place names
    else if name = ".." then t.follow place.dropLast names
    else if maxName < name.utf8ByteSize then .error .nameTooLong
    else
      let next := place ++ [name]
      if t.isDirectory next || t.files.contains next then t.follow next names
      else .error .notFound

/-- Why the file at `path` cannot be read, if it cannot. -/
def readFailure? (t : FileTree) (path : String) : Option ReadFailure :=
  if maxPath < path.utf8ByteSize then some .nameTooLong
  else
    let start := if path.startsWith "/" then [] else t.workingDirectory
    match t.follow start (path.splitOn "/") with
    | .error failure => some failure
    | .ok place => if t.isDirectory place then some .isDirectory else none

end FileTree

end ChipEight
