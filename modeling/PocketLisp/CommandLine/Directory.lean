import PocketLisp.Input.LineSource

/-!
# Directories

What opening a path gives, in a directory whose files are known.

## Main definitions

- `Directory` — the files and the empty directories in a directory, by name
- `Directory.openPath` — the lines of the file at a path

## Design notes

A directory can be opened like a file, and it is the first read that fails. What lies outside the
directory is taken to be directories without contents.
-/

namespace PocketLisp

/-- What a name in a directory stands for. -/
inductive DirectoryEntry where
  | file (contents : ByteArray)
  /-- A directory without contents. -/
  | directory
  deriving Inhabited

/-- The files and the empty directories in a directory, by name. -/
abbrev Directory := List (String × DirectoryEntry)

namespace Directory

/-- Where a path has led so far. -/
inductive Place where
  | here
  | inside
  | outside
  | file (contents : ByteArray)

/-- The reason for a path that leads nowhere. -/
def noSuchFile : String := "No such file or directory (os error 2)"

/-- The reason for a path that leads through a file. -/
def notADirectory : String := "Not a directory (os error 20)"

/-- The reason for a path with a part of more than 255 bytes. -/
def nameTooLong : String := "File name too long (os error 36)"

/-- The reason why a directory cannot be read. -/
def isADirectory : String := "Is a directory (os error 21)"

/-- One step along a path. -/
def step (d : Directory) (place : Place) (part : String) : Except String Place :=
  match place with
  | .file _ => .error notADirectory
  | .here | .inside | .outside =>
    if part == "" || part == "." then .ok place
    else if part == ".." then
      match place with
      | .inside => .ok .here
      | _ => .ok .outside
    else if part.utf8ByteSize > 255 then .error nameTooLong
    else
      match place, d.lookup part with
      | .here, some (.file contents) => .ok (.file contents)
      | .here, some .directory => .ok .inside
      | _, _ => .error noSuchFile

/-- Where a path leads. -/
def walk (d : Directory) (path : String) : Except String Place :=
  match path.splitOn "/" with
  | [""] => .error noSuchFile
  | "" :: parts => parts.foldlM d.step .outside
  | parts => parts.foldlM d.step .here

/-- Opens the file at a path. -/
def openPath (d : Directory) (path : String) : Except String LineSource :=
  match d.walk path with
  | .error reason => .error reason
  | .ok (.file contents) => .ok (.ofBytes contents .silent)
  | .ok _ => .ok ⟨[.failure (.reported isADirectory)], .silent⟩

end Directory

end PocketLisp
