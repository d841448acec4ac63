/-! The files that a run can see. -/
namespace RpgLowering.Command

/-- What a path leads to. -/
inductive Found where
  | nothing
  | directory
  | file (content : ByteArray)

abbrev Files := String → Found

/-- A working directory, given by the places of its files and of its directories. -/
structure WorkingDirectory where
  files : List (List String × ByteArray) := []
  directories : List (List String) := []

namespace WorkingDirectory

def steps (path : String) : List String := path.splitOn "/"

/-- One step from a place. -/
def next (place : List String) (s : String) : List String :=
  if s == "" || s == "." then place
  else if s == ".." then place.dropLast
  else place ++ [s]

/-- The places on a path, from a place on. -/
def visited (place : List String) : List String → List (List String)
  | [] => [place]
  | s :: ss => place :: visited (next place s) ss

def endOf (path : String) : List String := (steps path).foldl next []

/-- Makes a directory, and every directory on the way. -/
def addDirectory (w : WorkingDirectory) (path : String) : WorkingDirectory :=
  { w with directories := w.directories ++ visited [] (steps path) }

/-- Makes a file, and every directory on the way. A later file replaces an earlier one. -/
def addFile (w : WorkingDirectory) (path : String) (content : ByteArray) : WorkingDirectory :=
  { files := (endOf path, content) :: w.files
    directories := w.directories ++ (visited [] (steps path)).dropLast }

/-- What stands at a place; the working directory itself is always there. -/
def found (w : WorkingDirectory) (place : List String) : Found :=
  match w.files.lookup place with
  | some content => .file content
  | none => if place == [] || w.directories.contains place then .directory else .nothing

/-- Walks a path from a place. Only in a directory is there a next step, if only to stay. Above
the working directory nothing is known but that there are directories. -/
def walk (w : WorkingDirectory) : Option (List String) → List String → Found
  | none, [] => .directory
  | none, s :: ss => if s == "" || s == "." || s == ".." then w.walk none ss else .nothing
  | some place, [] => w.found place
  | some place, s :: ss =>
    match w.found place with
    | .directory =>
      if s == ".." && place.isEmpty then w.walk none ss
      else w.walk (some (next place s)) ss
    | _ => .nothing

/-- An empty path leads nowhere; one that starts with a slash leaves the working directory. -/
def toFiles (w : WorkingDirectory) : Files := fun path =>
  match steps path with
  | [""] => .nothing
  | "" :: ss => w.walk none ss
  | ss => w.walk (some []) ss

end WorkingDirectory

end RpgLowering.Command
