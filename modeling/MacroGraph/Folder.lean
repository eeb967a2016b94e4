/-!
Folders, the paths that lead through them and what reading a file gives. A path is followed
name by name from the working folder; what lies around that folder is taken as empty.
-/
namespace MacroGraph

inductive FileError where
  | missing
  | notFolder
  | isFolder
  | nameTooLong
  | nulInName
  | denied
  | notText
  deriving DecidableEq, Repr

def FileError.message : FileError → String
  | missing => "No such file or directory (os error 2)"
  | notFolder => "Not a directory (os error 20)"
  | isFolder => "Is a directory (os error 21)"
  | nameTooLong => "File name too long (os error 36)"
  | nulInName => "file name contained an unexpected NUL byte"
  | denied => "Permission denied (os error 13)"
  | notText => "stream did not contain valid UTF-8"

abbrev FileReader := String → Except FileError ByteArray

def FileReader.readText (read : FileReader) (path : String) : Except FileError String :=
  match read path with
  | .error e => .error e
  | .ok bytes =>
    match String.fromUTF8? bytes with
    | some s => .ok s
    | none => .error .notText

/-- The files of a folder and of all folders in it, each with the names that lead to it. -/
abbrev Folder := List (List String × ByteArray)

inductive FolderEntry where
  | file (bytes : ByteArray)
  | folder (f : Folder)

namespace Folder

/-- An empty name or a dot stays in the folder. -/
def staysIn (name : String) : Bool := name == "" || name == "."

def names (path : String) : List String := path.splitOn "/"

def ofFiles (files : List (String × ByteArray)) : Folder :=
  files.map fun f => ((names f.1).filter (!staysIn ·), f.2)

/-- The files below a name, with the names that lead on from there. -/
def below (f : Folder) (name : String) : Folder :=
  f.filterMap fun
    | (first :: rest, bytes) => if first = name then some (rest, bytes) else none
    | ([], _) => none

def entry? (f : Folder) (name : String) : Option FolderEntry :=
  match f.below name with
  | [] => none
  | ([], bytes) :: _ => some (.file bytes)
  | inner => some (.folder inner)

def nameLimit : Nat := 255

def pathLimit : Nat := 4095

/-- Follows names. Two dots lead back to the nearest of the folders above; nothing leads on
from a file, not even a name that would stay. -/
def follow (above : List Folder) : FolderEntry → List String → Except FileError FolderEntry
  | here, [] => .ok here
  | .file _, _ :: _ => .error .notFolder
  | .folder f, name :: rest =>
    if staysIn name then follow above (.folder f) rest
    else if name = ".." then follow above.tail (.folder (above.headD [])) rest
    else if nameLimit < name.utf8ByteSize then .error .nameTooLong
    else
      match f.entry? name with
      | none => .error .missing
      | some e => follow (f :: above) e rest

/-- What a path leads to. A path that begins with a slash begins outside the folder. -/
def locate (f : Folder) (path : String) : Except FileError FolderEntry :=
  if path = "" then .error .missing
  else if pathLimit < path.utf8ByteSize then .error .nameTooLong
  else
    match names path with
    | "" :: rest => follow [] (.folder []) rest
    | ns => follow [] (.folder f) ns

def read (f : Folder) : FileReader := fun path =>
  if path.toList.contains '\x00' then .error .nulInName
  else
    match f.locate path with
    | .error e => .error e
    | .ok (.folder _) => .error .isFolder
    | .ok (.file bytes) => .ok bytes

end Folder
end MacroGraph
