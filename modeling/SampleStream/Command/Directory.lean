/-!
# Directories

Reading files by path. A directory here is a list of files with their contents, and paths start from it or
from the root. Nothing has a name in the directories above it, and the root holds the null device alone.
-/

namespace SampleStream

/-- Why a file cannot be read. -/
inductive FileFault
  /-- What the system says, and its number. -/
  | system (text : String) (code : Nat)
  | notText
deriving DecidableEq, Repr

namespace FileFault

def missing : FileFault := .system "No such file or directory" 2

def notDirectory : FileFault := .system "Not a directory" 20

def directory : FileFault := .system "Is a directory" 21

def nameTooLong : FileFault := .system "File name too long" 36

def message : FileFault → String
  | .system text code => text ++ " (os error " ++ toString code ++ ")"
  | .notText => "stream did not contain valid UTF-8"

end FileFault

/-- Files by their paths. -/
abbrev Directory := List (String × String)

/-- What stands at a place in a directory. -/
inductive Entry
  | file (text : String)
  | directory
  | nothing
deriving DecidableEq, Repr

/-- The parts of a path. Slashes at the end ask for what the path leads to from inside. -/
def pathParts (path : String) : List String :=
  (path.splitOn "/").filter (· != "") ++ if path.endsWith "/" then ["."] else []

namespace Directory

/-- A directory is there as soon as a file lies below it. -/
def entry (d : Directory) (place : List String) : Entry :=
  match d.find? (pathParts ·.1 == place) with
  | some (_, text) => .file text
  | none =>
    if place.isEmpty || d.any (place.isPrefixOf <| pathParts ·.1) then .directory else .nothing

/-- What the root holds: a device from which nothing can be read. -/
def root : Directory := [("dev/null", "")]

/-- Bytes that the name of a file may have. -/
def maxName : Nat := 255

/-- Bytes that a path may have. -/
def maxPath : Nat := 4095

/-- Follows the parts of a path from a place in a directory. The way out of it leads into the one above,
which is above itself too. -/
def follow (d above : Directory) (place : List String) : List String → Except FileFault String
  | [] =>
    match d.entry place with
    | .file text => .ok text
    | .directory => .error .directory
    | .nothing => .error .missing
  | part :: rest =>
    match d.entry place with
    | .file _ => .error .notDirectory
    | .nothing => .error .missing
    | .directory =>
      if part = "." then d.follow above place rest
      else if part = ".." then
        if place.isEmpty then above.follow above [] rest else d.follow above place.dropLast rest
      else if maxName < part.utf8ByteSize then .error .nameTooLong
      else d.follow above (place ++ [part]) rest

/-- The text of the file at a path. -/
def read (d : Directory) (path : String) : Except FileFault String :=
  if path.isEmpty then .error .missing
  else if maxPath < path.utf8ByteSize then .error .nameTooLong
  else if path.startsWith "/" then root.follow root [] (pathParts path)
  else d.follow [] [] (pathParts path)

end Directory

end SampleStream
