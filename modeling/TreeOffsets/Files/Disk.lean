import TreeOffsets.Text.Printable
import TreeOffsets.Text.Utf8

/-!
A disk is what its paths lead to. A path is followed name by name, and every name but the last must
lead to a directory. A path that ends in a slash never leads to a file, and no file can be written
there.
-/

namespace TreeOffsets

/-- The names on the way from the root to a file or a directory. -/
abbrev Path := List Text

namespace Path

/-- The directory under which relative paths are. -/
def working : Path := [Text.ofString "work"]

def slash : CodePoint := CodePoint.ofChar '/'

/-- The names that a path is written with. There may be more than one slash between two of them. -/
def split (path : Text) : List Text := (path.splitOn slash).filter fun name => !name.isEmpty

/-- A path that ends in a slash is one of a directory. -/
def endsInSlash (path : Text) : Bool :=
  match path.getLast? with
  | some c => c == slash
  | none => false

/-- One name further. A single point stays, and two points go back. -/
def enter (here : Path) (name : Text) : Path :=
  if name = Text.ofString "." then here
  else if name = Text.ofString ".." then here.dropLast
  else here ++ [name]

def parts (path : Text) : Path × List Text :=
  (match path with
    | c :: _ => if c = slash then [] else working
    | [] => working, split path)

/-- The path that a text is written for, if all its names lead somewhere. -/
def ofText (path : Text) : Path :=
  let (start, names) := parts path
  names.foldl enter start

def shown (path : Path) : Text := path.flatMap fun name => CodePoint.ofChar '/' :: name

end Path

inductive Entry where
  | file (content : Bytes)
  | directory
  deriving DecidableEq

/-- What the paths lead to. The root is a directory without an entry of its own. There are only
files and directories: links, special files and permissions are left out. -/
structure Disk where
  entries : List (Path × Entry)
  deriving DecidableEq

/-- Why a file cannot be used. Each fault names the path as it was given. -/
inductive DiskFault where
  | notFound (path : Text)
  | isDirectory (path : Text)
  | notDirectory (path : Text)
  | nullInPath
  deriving DecidableEq

namespace DiskFault

def message : DiskFault → Text
  | notFound path => Text.ofString "[Errno 2] No such file or directory: " ++ path.quoted
  | isDirectory path => Text.ofString "[Errno 21] Is a directory: " ++ path.quoted
  | notDirectory path => Text.ofString "[Errno 20] Not a directory: " ++ path.quoted
  | nullInPath => Text.ofString "embedded null byte"

end DiskFault

namespace Disk

/-- A disk with the working directory and a directory for output files. -/
def empty : Disk := ⟨[([Text.ofString "tmp"], .directory), (Path.working, .directory)]⟩

def find? (disk : Disk) (path : Path) : Option Entry :=
  if path = [] then some .directory else disk.entries.lookup path

def setIn (path : Path) (entry : Entry) : List (Path × Entry) → List (Path × Entry)
  | [] => [(path, entry)]
  | (other, old) :: rest =>
    if other = path then (path, entry) :: rest else (other, old) :: setIn path entry rest

def set (disk : Disk) (path : Path) (entry : Entry) : Disk := ⟨setIn path entry disk.entries⟩

def erase (disk : Disk) (path : Path) : Disk :=
  ⟨disk.entries.filter fun entry => decide (entry.1 ≠ path)⟩

theorem lookup_cons_of_ne {path other : Path} (h : other ≠ path) (entry : Entry)
    (entries : List (Path × Entry)) :
    List.lookup other ((path, entry) :: entries) = List.lookup other entries := by
  rw [List.lookup_cons, beq_eq_false_iff_ne.mpr h]

theorem lookup_setIn_self (path : Path) (entry : Entry) (entries : List (Path × Entry)) :
    (setIn path entry entries).lookup path = some entry := by
  induction entries with
  | nil => exact List.lookup_cons_self
  | cons old rest ih =>
    obtain ⟨key, was⟩ := old
    unfold setIn
    split
    · exact List.lookup_cons_self
    · next hne => rw [lookup_cons_of_ne (Ne.symm hne), ih]

theorem lookup_setIn_of_ne {path other : Path} (h : other ≠ path) (entry : Entry)
    (entries : List (Path × Entry)) :
    (setIn path entry entries).lookup other = entries.lookup other := by
  induction entries with
  | nil => exact lookup_cons_of_ne h entry []
  | cons old rest ih =>
    obtain ⟨key, was⟩ := old
    unfold setIn
    split
    · next hkey =>
      subst hkey
      rw [lookup_cons_of_ne h, lookup_cons_of_ne h]
    · rw [List.lookup_cons, List.lookup_cons, ih]

theorem find?_set_self {path : Path} (hpath : path ≠ []) (disk : Disk) (entry : Entry) :
    (disk.set path entry).find? path = some entry := by
  unfold find? set
  rw [if_neg hpath, lookup_setIn_self]

theorem find?_set_of_ne {path other : Path} (h : other ≠ path) (disk : Disk) (entry : Entry) :
    (disk.set path entry).find? other = disk.find? other := by
  unfold find? set
  rw [lookup_setIn_of_ne h]

theorem lookup_erased_self (path : Path) (entries : List (Path × Entry)) :
    (entries.filter fun entry => decide (entry.1 ≠ path)).lookup path = none := by
  induction entries with
  | nil => rfl
  | cons old rest ih =>
    obtain ⟨key, was⟩ := old
    by_cases hkey : key = path
    · rw [List.filter_cons_of_neg (by simpa using hkey), ih]
    · rw [List.filter_cons_of_pos (by simpa using hkey), lookup_cons_of_ne (Ne.symm hkey), ih]

theorem lookup_erased_of_ne {path other : Path} (h : other ≠ path)
    (entries : List (Path × Entry)) :
    (entries.filter fun entry => decide (entry.1 ≠ path)).lookup other = entries.lookup other := by
  induction entries with
  | nil => rfl
  | cons old rest ih =>
    obtain ⟨key, was⟩ := old
    by_cases hkey : key = path
    · subst hkey
      rw [List.filter_cons_of_neg (by simp), lookup_cons_of_ne h, ih]
    · rw [List.filter_cons_of_pos (by simpa using hkey), List.lookup_cons, List.lookup_cons, ih]

theorem find?_erase_self {path : Path} (hpath : path ≠ []) (disk : Disk) :
    (disk.erase path).find? path = none := by
  unfold find? erase
  rw [if_neg hpath, lookup_erased_self]

theorem find?_erase_of_ne {path other : Path} (h : other ≠ path) (disk : Disk) :
    (disk.erase path).find? other = disk.find? other := by
  unfold find? erase
  rw [lookup_erased_of_ne h]

/-- The path that names lead to from another one. Only the last of them may lead nowhere. -/
def follow (disk : Disk) (whole : Text) (here : Path) : List Text → Except DiskFault Path
  | [] => .ok here
  | name :: rest =>
    match disk.find? here with
    | some .directory => follow disk whole (Path.enter here name) rest
    | some (.file _) => .error (.notDirectory whole)
    | none => .error (.notFound whole)

def resolve (disk : Disk) (path : Text) : Except DiskFault Path :=
  if path.any fun c => c.val == 0 then .error .nullInPath
  else if path = [] then .error (.notFound path)
  else
    let (start, names) := Path.parts path
    disk.follow path start names

def read (disk : Disk) (path : Text) : Except DiskFault Bytes :=
  match disk.resolve path with
  | .error fault => .error fault
  | .ok target =>
    match disk.find? target with
    | some (.file content) =>
      if Path.endsInSlash path then .error (.notDirectory path) else .ok content
    | some .directory => .error (.isDirectory path)
    | none => .error (.notFound path)

/-- The path of a file that is about to be written. It may be new, if its directory exists. -/
def writable (disk : Disk) (path : Text) : Except DiskFault Path :=
  match disk.resolve path with
  | .error fault => .error fault
  | .ok target =>
    if Path.endsInSlash path then .error (.isDirectory path)
    else match disk.find? target with
      | some .directory => .error (.isDirectory path)
      | _ => .ok target

/-- Takes a file away, and says whether there was one. -/
def remove (disk : Disk) (path : Text) : Except DiskFault (Bool × Disk) :=
  match disk.resolve path with
  | .error (.notFound _) => .ok (false, disk)
  | .error fault => .error fault
  | .ok target =>
    match disk.find? target with
    | some (.file _) =>
      if Path.endsInSlash path then .error (.notDirectory path) else .ok (true, disk.erase target)
    | some .directory => .error (.isDirectory path)
    | none => .ok (false, disk)

def makeDirectories (disk : Disk) (here : Path) : List Text → Disk
  | [] => disk
  | name :: rest =>
    let next := Path.enter here name
    let made := if (disk.find? next).isSome then disk else disk.set next .directory
    makeDirectories made next rest

def makeDirectory (disk : Disk) (path : Text) : Disk :=
  let (start, names) := Path.parts path
  disk.makeDirectories start names

/-- Puts a file on the disk, and makes the directories on the way to it. -/
def store (disk : Disk) (path : Text) (content : Bytes) : Disk :=
  let (start, names) := Path.parts path
  (disk.makeDirectories start names.dropLast).set (Path.ofText path) (.file content)

/-- The files, in the order in which they came to be. -/
def files (disk : Disk) : List (Path × Bytes) :=
  disk.entries.filterMap fun entry => match entry.2 with
    | .file content => some (entry.1, content)
    | .directory => none

end Disk

end TreeOffsets
