namespace DecafCheck.Command

inductive ReadError
  | notFound
  | notDirectory
  | isDirectory
  | nameTooLong
  | notText
  | other (reason : String)
deriving DecidableEq, Repr

def ReadError.message : ReadError → String
  | notFound => "No such file or directory (os error 2)"
  | notDirectory => "Not a directory (os error 20)"
  | isDirectory => "Is a directory (os error 21)"
  | nameTooLong => "File name too long (os error 36)"
  | notText => "stream did not contain valid UTF-8"
  | other reason => reason

def decode (content : ByteArray) : Except ReadError String :=
  match String.fromUTF8? content with
  | some text => .ok text
  | none => .error .notText

/-- The most bytes in one name of a path. -/
def nameLimit : Nat := 255

/-- The most bytes in a whole path. -/
def pathLimit : Nat := 4095

/-- Files by the names on the way to them. -/
structure Directory where
  files : List (List String × ByteArray)

namespace Directory

/-- The names in a path; empty ones and `.` do not lead anywhere else. -/
def names (path : String) : List String :=
  (path.splitOn "/").filter fun name => name != "" && name != "."

def ofFiles (files : List (String × ByteArray)) : Directory :=
  ⟨files.map fun file => (names file.1, file.2)⟩

def file? (d : Directory) (place : List String) : Option ByteArray :=
  d.files.lookup place

/-- Whether a file lies below a place. -/
def isAbove (d : Directory) (place : List String) : Bool :=
  d.files.any fun file => place.isPrefixOf file.1

/-- Whether a part of a path leads into something, rather than nowhere or back. -/
def isName (part : String) : Bool :=
  part != "" && part != "." && part != ".."

/-- A place outside the directory, where nothing is known but other directories. -/
def beyond (parts : List String) : Except ReadError ByteArray :=
  match parts.find? isName with
  | none => .error .isDirectory
  | some name => .error (if nameLimit < name.utf8ByteSize then .nameTooLong else .notFound)

/-- Follows the parts of a path from a place. A file has nothing below it, not even itself. -/
def follow (d : Directory) (place : List String) : List String → Except ReadError ByteArray
  | [] =>
    match d.file? place with
    | some content => .ok content
    | none => .error .isDirectory
  | part :: rest =>
    if (d.file? place).isSome then .error .notDirectory
    else if part == "" || part == "." then d.follow place rest
    else if part == ".." then
      if place.isEmpty then beyond rest else d.follow place.dropLast rest
    else if nameLimit < part.utf8ByteSize then .error .nameTooLong
    else if d.isAbove (place ++ [part]) then d.follow (place ++ [part]) rest
    else .error .notFound

/-- Reads the file at a path as text. A path that is too long is not followed at all. -/
def read (d : Directory) (path : String) : Except ReadError String := do
  if pathLimit < path.utf8ByteSize then .error .nameTooLong
  else
    match path.splitOn "/" with
    | "" :: rest => decode (← beyond rest)
    | parts => decode (← d.follow [] parts)

end Directory

end DecafCheck.Command
