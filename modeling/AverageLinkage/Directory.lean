import AverageLinkage.Text.Input

/-!
# Files

`FileAccess` is what a run needs of a file system.  A `Directory` is a file
system as a value: files and folders by their location, and a working directory.
Besides what was put there, it holds the folders on the way to the working
directory and two devices.  `/dev/null` is empty and takes every write.
`/dev/full` takes none, and what it gives to read has no end.
-/

namespace AverageLinkage

/-- Access to files by path. -/
class FileAccess (m : Type → Type) where
  /-- Open a file for reading.  A folder can be opened but not read. -/
  openInput (path : String) : m (Except SystemFault Input)
  /-- Create a file, or empty the one that is there. -/
  create (path : String) : m (Except SystemFault Unit)
  /-- Fill a file that was created. -/
  write (path : String) (text : String) : m (Except SystemFault Unit)

/-- The names that lead from the root to a file or folder. -/
abbrev Location := List String

inductive Device where
  | null
  | full
  deriving DecidableEq, Repr

inductive Entry where
  | file (content : Text.Bytes)
  | folder
  | device (device : Device)
  deriving DecidableEq, Repr

structure Directory where
  /-- Location of the working directory. -/
  home : Location := ["home", "work"]
  entries : List (Location × Entry) := []
  deriving DecidableEq, Repr

namespace Directory

def device? : Location → Option Device
  | ["dev", "null"] => some .null
  | ["dev", "full"] => some .full
  | _ => none

/-- What stands at a location whatever was put into the directory. -/
def fixed? (directory : Directory) (location : Location) : Option Entry :=
  match device? location with
  | some device => some (.device device)
  | none =>
      if location.isPrefixOf directory.home || location == ["dev"] then some .folder else none

def get? (directory : Directory) (location : Location) : Option Entry :=
  match directory.fixed? location with
  | some entry => some entry
  | none => directory.entries.lookup location

def erase (directory : Directory) (location : Location) : Directory :=
  { directory with entries := directory.entries.filter fun item => item.1 != location }

def put (directory : Directory) (location : Location) (entry : Entry) : Directory :=
  { directory with entries := (location, entry) :: (directory.erase location).entries }

theorem get?_of_not_fixed {directory : Directory} {location : Location}
    (hfree : directory.fixed? location = none) :
    directory.get? location = directory.entries.lookup location := by
  rw [get?, hfree]

theorem home_put (directory : Directory) (location : Location) (entry : Entry) :
    (directory.put location entry).home = directory.home := rfl

theorem fixed?_put (directory : Directory) (location other : Location) (entry : Entry) :
    (directory.put location entry).fixed? other = directory.fixed? other := rfl

/-- What was put at a location is there. -/
theorem get?_put_self (directory : Directory) {location : Location} (entry : Entry)
    (hfree : directory.fixed? location = none) :
    (directory.put location entry).get? location = some entry := by
  rw [get?_of_not_fixed ((fixed?_put ..).trans hfree)]
  simp [put]

theorem lookup_filter_ne {entries : List (Location × Entry)} {location other : Location}
    (hother : other ≠ location) :
    (entries.filter fun item => item.1 != location).lookup other = entries.lookup other := by
  induction entries with
  | nil => rfl
  | cons item entries ih =>
      obtain ⟨place, entry⟩ := item
      by_cases hplace : place = location
      · subst hplace
        have hdiffer : (other == place) = false := by simpa using hother
        simp [List.lookup_cons, hdiffer, ih]
      · rw [List.filter_cons_of_pos (by simpa using hplace), List.lookup_cons,
          List.lookup_cons, ih]

/-- All other locations keep what they hold. -/
theorem get?_put_of_ne (directory : Directory) {location other : Location} (entry : Entry)
    (hother : other ≠ location) :
    (directory.put location entry).get? other = directory.get? other := by
  have hdiffer : (other == location) = false := by simpa using hother
  cases hfixed : directory.fixed? other with
  | some held => rw [get?, get?, fixed?_put, hfixed]
  | none =>
      rw [get?_of_not_fixed ((fixed?_put ..).trans hfixed), get?_of_not_fixed hfixed, put, erase,
        List.lookup_cons, hdiffer]
      exact lookup_filter_ne hother

/-! ## Paths -/

/-- Length of the longest name, in bytes. -/
def nameLimit : Nat := 255

/-- Length of the longest path, in bytes. -/
def pathLimit : Nat := 4095

structure Path where
  /-- The path starts at the root, not at the working directory. -/
  absolute : Bool
  /-- What to follow before the last part; every part must lead to a folder. -/
  folders : List String
  last : String
  /-- The path ends in a slash. -/
  slash : Bool
  deriving DecidableEq, Repr

/-- Read a path.  Slashes divide it into parts; empty parts mean nothing. -/
def Path.read (path : String) : Except SystemFault Path :=
  let text := path.toList
  if text.contains '\x00' then .error .unexpectedNul
  else if text.isEmpty then .error .notFound
  else if pathLimit < path.utf8ByteSize then .error .nameTooLong
  else
    let parts := ((Text.pieces (· == '/') text).filter fun part => !part.isEmpty).map String.ofList
    .ok
      { absolute := text.head? = some '/'
        folders := parts.dropLast
        last := parts.getLast?.getD "."
        slash := text.getLast? = some '/' }

/-- The path names a file of its last folder, not that folder or one above. -/
def Path.named (path : Path) : Bool :=
  path.last != "." && path.last != ".."

/-- Follow one part of a path from the folder `here`.  The root is the folder
above itself. -/
def follow (directory : Directory) (here : Location) (part : String) :
    Except SystemFault (Location × Option Entry) :=
  if part = "." then .ok (here, some .folder)
  else if part = ".." then .ok (here.dropLast, some .folder)
  else if nameLimit < part.utf8ByteSize then .error .nameTooLong
  else
    let there := here ++ [part]
    .ok (there, directory.get? there)

/-- Follow a part that must lead to a folder. -/
def enter (directory : Directory) (here : Location) (part : String) :
    Except SystemFault Location := do
  match ← directory.follow here part with
  | (there, some .folder) => return there
  | (_, some _) => throw .notDirectory
  | (_, none) => throw .notFound

def origin (directory : Directory) (path : Path) : Location :=
  if path.absolute then [] else directory.home

/-- The folder that holds what a path names. -/
def holder (directory : Directory) (path : Path) : Except SystemFault Location :=
  path.folders.foldlM directory.enter (directory.origin path)

def find (directory : Directory) (path : String) : Except SystemFault (Location × Entry) := do
  let path ← Path.read path
  let folder ← directory.holder path
  match ← directory.follow folder path.last with
  | (_, none) => throw .notFound
  | (location, some .folder) => return (location, .folder)
  | (location, some entry) => if path.slash then throw .notDirectory else return (location, entry)

/-- Why an input without end cannot be read to its end. -/
def endless : SystemFault := .other "Cannot allocate memory (os error 12)"

def openInput (directory : Directory) (path : String) : Except SystemFault Input := do
  match ← directory.find path with
  | (_, .file content) => return Input.ofBytes content
  | (_, .folder) => return Input.unreadable .isDirectory
  | (_, .device .null) => return []
  | (_, .device .full) => return Input.unreadable endless

/-- Put a file with the given content at a path.  A slash after the last name
asks for a folder, whatever stands there. -/
def store (directory : Directory) (path : String) (content : Text.Bytes) :
    Except SystemFault Directory := do
  let path ← Path.read path
  let folder ← directory.holder path
  if path.slash && path.named then throw .isDirectory
  match ← directory.follow folder path.last with
  | (_, some .folder) => throw .isDirectory
  | (_, some (.device .null)) => return directory
  | (_, some (.device .full)) => if content.isEmpty then return directory else throw .noSpace
  | (location, _) => return directory.put location (.file content)

/-- Make the folders that are missing along the parts of a path, as far as they
can be followed. -/
def makeFoldersFrom (directory : Directory) (here : Location) : List String → Directory
  | [] => directory
  | part :: rest =>
      match directory.follow here part with
      | .ok (there, none) => (directory.put there .folder).makeFoldersFrom there rest
      | .ok (there, some .folder) => directory.makeFoldersFrom there rest
      | _ => directory

/-- Make the folder at a path, and those on the way to it. -/
def makeFolders (directory : Directory) (path : String) : Directory :=
  match Path.read path with
  | .ok path => directory.makeFoldersFrom (directory.origin path) (path.folders ++ [path.last])
  | .error _ => directory

/-- Remove a file, or a folder with all it holds. -/
def remove (directory : Directory) (path : String) : Directory :=
  match directory.find path with
  | .ok (location, .file _) => directory.erase location
  | .ok (location, .folder) =>
      { directory with entries := directory.entries.filter fun item =>
          !location.isPrefixOf item.1 }
  | _ => directory

def text? (directory : Directory) (path : String) : Option String :=
  match directory.find path with
  | .ok (_, .file content) => (Text.decode content).map String.ofList
  | .ok (_, .device .null) => some ""
  | _ => none

/-- The names in the working directory, in increasing order. -/
def names (directory : Directory) : List String :=
  (directory.entries.filterMap fun (location, _) =>
    if location.dropLast = directory.home then location.getLast? else none).mergeSort
      fun left right => left ≤ right

/-- Apply an operation that may fail; a failure changes nothing. -/
def attempt (operation : Directory → Except SystemFault Directory) :
    StateM Directory (Except SystemFault Unit) := do
  match operation (← get) with
  | .ok next => set next; return .ok ()
  | .error cause => return .error cause

end Directory

instance directoryAccess : FileAccess (StateM Directory) where
  openInput path := do return (← get).openInput path
  create path := Directory.attempt (·.store path [])
  write path text := Directory.attempt (·.store path (Text.encode text))

end AverageLinkage
