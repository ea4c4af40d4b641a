/-!
# File trees

A file tree maps paths to files and directories. It answers as an operating system does: a path is
followed step by step, `.` and empty steps stay where they are, `..` goes up, every step but the
last must be a directory, and a file can only be made in a directory that is there. Above the
working directory there are directories without end, and nothing is known of what they hold.

Not all that is there can be used. A file can be locked and a directory closed, and a write can fail
after its file was opened. Which writes fail, and what they leave in the file, a tree does not tell:
that is given with the write.

* `find?_put_self`: what was put at a place is found there;
* `find?_put_of_ne`: putting something at one place leaves all others as they were.
-/

namespace TextMelody

/-- The place of a file or directory: the names that lead to it. Places above the working directory
    start with as many `..` as they are above it. -/
abbrev Place := List String

/-- What a place can hold. -/
inductive Entry where
  | file (bytes : List UInt8)
  | directory
  /-- A file that can be neither read nor written, and why. -/
  | locked (reason : String)
  /-- A directory that can be neither read nor passed, and why. -/
  | closed (reason : String)
deriving DecidableEq, Repr

/-- Why a path could not be read or written. -/
inductive FileError where
  | notFound
  | notADirectory
  | isADirectory
  | nameTooLong
  /-- The path holds the character that ends a path for the system. -/
  | nulInPath
  /-- The bytes are no text in UTF-8. -/
  | notText
  /-- Anything else that the system has against it, in its own words: want of permission, a device
      that fails or is full. -/
  | other (reason : String)
deriving DecidableEq, Repr

namespace FileError

/-- The message of the system. -/
def message : FileError → String
  | notFound => "No such file or directory (os error 2)"
  | notADirectory => "Not a directory (os error 20)"
  | isADirectory => "Is a directory (os error 21)"
  | nameTooLong => "File name too long (os error 36)"
  | nulInPath => "file name contained an unexpected NUL byte"
  | notText => "stream did not contain valid UTF-8"
  | other reason => reason

end FileError

namespace Place

/-- The working directory, where paths start. -/
def here : Place := []

/-- The root directory, where paths start that open with a slash. -/
def root : Place := ["/"]

/-- Whether a place is the working directory or above it. -/
def isAbove (p : Place) : Bool :=
  p.all (· = "..")

/-- The directory above a place. -/
def parent (p : Place) : Place :=
  if p = root then root
  else if p.isAbove then p ++ [".."]
  else p.dropLast

/-- Whether a place is a directory in every tree. -/
def isFixed (p : Place) : Bool :=
  p = root || p.isAbove

/-- The place that a step leads to. -/
def step (p : Place) (name : String) : Place :=
  if name = "" ∨ name = "." then p
  else if name = ".." then p.parent
  else p ++ [name]

/-- Where the steps of a path start. -/
def start (path : String) : Place :=
  if path.toList.head? = some '/' then root else here

/-- The steps of a path. -/
def steps (path : String) : List String :=
  (path.toList.splitOn '/').map String.ofList

/-- The places that steps pass from a place on, with that place and the last. -/
def along : Place → List String → List Place
  | p, [] => [p]
  | p, name :: names => p :: along (p.step name) names

/-- The places that a path passes, with the first and the last. -/
def passed (path : String) : List Place :=
  along (start path) (steps path)

end Place

/-- Files and directories by their places. The working directory, all above it, and the root are
    directories in every tree. -/
structure FileTree where
  entries : List (Place × Entry) := []
deriving DecidableEq, Repr

namespace FileTree

/-- What is at a place. -/
def find? (t : FileTree) (p : Place) : Option Entry :=
  if p.isFixed then some .directory else t.entries.lookup p

/-- Puts an entry at a place. -/
def put (t : FileTree) (p : Place) (e : Entry) : FileTree :=
  ⟨(p, e) :: t.entries⟩

/-- The most bytes a name can have. -/
def longestName : Nat := 255

/-- The most bytes a path can have. -/
def longestPath : Nat := 4095

/-- One step from a place, which must be a directory. -/
def step (t : FileTree) (p : Place) (name : String) : Except FileError Place :=
  match t.find? p with
  | none => .error .notFound
  | some (.file _) => .error .notADirectory
  | some (.locked _) => .error .notADirectory
  | some (.closed reason) => .error (.other reason)
  | some .directory =>
    if longestName < name.utf8ByteSize then .error .nameTooLong else .ok (p.step name)

/-- The place that steps lead to from the start of a path, if the path can be used at all. -/
def follow (t : FileTree) (path : String) (steps : List String) : Except FileError Place :=
  if '\x00' ∈ path.toList then .error .nulInPath
  else if path = "" then .error .notFound
  else if longestPath < path.utf8ByteSize then .error .nameTooLong
  else steps.foldlM t.step (Place.start path)

/-- **The place that a path leads to.** -/
def resolve (t : FileTree) (path : String) : Except FileError Place :=
  t.follow path (Place.steps path)

/-- Whether a path leads to a file or directory that is there. -/
def exists? (t : FileTree) (path : String) : Bool :=
  match t.resolve path with
  | .error _ => false
  | .ok p => (t.find? p).isSome

/-- **The bytes of the file at a path.** -/
def read (t : FileTree) (path : String) : Except FileError (List UInt8) :=
  match t.resolve path with
  | .error e => .error e
  | .ok p =>
    match t.find? p with
    | none => .error .notFound
    | some .directory => .error .isADirectory
    | some (.locked reason) => .error (.other reason)
    | some (.closed reason) => .error (.other reason)
    | some (.file bytes) => .ok bytes

/-- The text that bytes write in UTF-8. -/
def decode (bytes : List UInt8) : Except FileError String :=
  match String.fromUTF8? ⟨bytes.toArray⟩ with
  | some s => .ok s
  | none => .error .notText

/-- **The text of the file at a path.** -/
def readText (t : FileTree) (path : String) : Except FileError String :=
  (t.read path).bind decode

/-- A path without the slashes at its end. -/
def withoutSlashes (path : String) : String :=
  String.ofList (path.toList.reverse.dropWhile (· = '/')).reverse

/-- Where a file of a path would be written. A path that ends in a slash names a directory, in the
    one before it. -/
def target (t : FileTree) (path : String) : Except FileError Place :=
  if withoutSlashes path = path then t.resolve path
  else
    match t.follow path ((Place.steps (withoutSlashes path)).dropLast ++ [""]) with
    | .error e => .error e
    | .ok _ => .error .isADirectory

/-- What goes wrong with a write of a file that could be opened or made: why, and what is in the file
    then, if it was opened at all. -/
structure WriteFault where
  reason : String
  left : Option (List UInt8)
deriving DecidableEq, Repr

/-- A write that failed: why, and the tree after it. -/
structure FailedWrite where
  cause : FileError
  tree : FileTree
deriving DecidableEq, Repr

/-- Leaves some bytes in the file at a place, or leaves it alone. -/
def leave (t : FileTree) (p : Place) (left : Option (List UInt8)) : FileTree :=
  match left with
  | none => t
  | some bytes => t.put p (.file bytes)

/-- Writes the file at a place, with the fault that strikes, if any. -/
def writeAt (t : FileTree) (p : Place) (bytes : List UInt8) (fault : Option WriteFault) :
    Except FailedWrite FileTree :=
  match t.find? p with
  | some .directory => .error ⟨.isADirectory, t⟩
  | some (.closed _) => .error ⟨.isADirectory, t⟩
  | some (.locked reason) => .error ⟨.other reason, t⟩
  | _ =>
    match fault with
    | none => .ok (t.put p (.file bytes))
    | some f => .error ⟨.other f.reason, t.leave p f.left⟩

/-- **Writes a file**, in a directory that is there, over what it held before. The file is emptied
    when it is opened, so a write that fails after that leaves something else in it. -/
def write (t : FileTree) (path : String) (bytes : List UInt8) (fault : Option WriteFault) :
    Except FailedWrite FileTree :=
  match t.target path with
  | .error e => .error ⟨e, t⟩
  | .ok p => t.writeAt p bytes fault

theorem find?_put_self {t : FileTree} {p : Place} {e : Entry} (h : p.isFixed = false) :
    (t.put p e).find? p = some e := by
  simp [find?, put, h]

theorem find?_put_of_ne {t : FileTree} {p q : Place} {e : Entry} (h : q ≠ p) :
    (t.put p e).find? q = t.find? q := by
  have hb : (q == p) = false := beq_eq_false_iff_ne.mpr h
  simp [find?, put, List.lookup_cons, hb]

end FileTree

end TextMelody
