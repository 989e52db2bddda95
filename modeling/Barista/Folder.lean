import Barista.Text.Lines

/-!
# Folders

Files by their names below one directory, and reading a file by its path.  A path is a list of
names with slashes between them; empty names and `.` stay where they are and `..` goes up.
Nothing is known above the directory itself: it can be left, but no name is found there.
-/

namespace Barista

inductive FileError
  | notFound
  | notDirectory
  | isDirectory
  | nameTooLong
  | nulInName
  | invalidText
  | other (message : String)
deriving DecidableEq, Repr

def FileError.message : FileError → String
  | notFound => "No such file or directory (os error 2)"
  | notDirectory => "Not a directory (os error 20)"
  | isDirectory => "Is a directory (os error 21)"
  | nameTooLong => "File name too long (os error 36)"
  | nulInName => "file name contained an unexpected NUL byte"
  | invalidText => "stream did not contain valid UTF-8"
  | other message => message

/-- A file's text must be UTF-8. -/
def decodeText (bytes : ByteArray) : Except FileError String :=
  match String.fromUTF8? bytes with
  | some text => .ok text
  | none => .error .invalidText

inductive Node
  | file (bytes : ByteArray)
  | directory

structure Folder where
  entries : List (List String × Node)

namespace Folder

/-- A place reached on the way: below the folder, or above it. -/
inductive Place
  | inside (names : List String)
  | above
deriving DecidableEq

/-- What is found at a list of names.  A name in front of others is that of a directory. -/
def node? (folder : Folder) (path : List String) : Option Node :=
  match folder.entries.lookup path with
  | some node => some node
  | none =>
    if path.isEmpty || folder.entries.any fun entry ↦ path.isPrefixOf entry.1 then
      some .directory
    else none

def step (folder : Folder) (place : Place) (name : String) : Except FileError Place :=
  match place with
  | .above =>
    if name = "" ∨ name = "." ∨ name = ".." then .ok .above
    else if 255 < name.utf8ByteSize then .error .nameTooLong
    else .error .notFound
  | .inside path =>
    match folder.node? path with
    | some .directory =>
      if name = "" ∨ name = "." then .ok place
      else if name = ".." then .ok (if path.isEmpty then .above else .inside path.dropLast)
      else if 255 < name.utf8ByteSize then .error .nameTooLong
      else if (folder.node? (path ++ [name])).isSome then .ok (.inside (path ++ [name]))
      else .error .notFound
    | _ => .error .notDirectory

def walk (folder : Folder) (place : Place) : List String → Except FileError Place
  | [] => .ok place
  | name :: rest => do
    let next ← folder.step place name
    folder.walk next rest

def readAt (folder : Folder) (place : Place) : Except FileError String :=
  match place with
  | .above => .error .isDirectory
  | .inside path =>
    match folder.node? path with
    | some (.file bytes) => decodeText bytes
    | some .directory => .error .isDirectory
    | none => .error .notFound

/-- The text of the file at a path from the folder. -/
def read (folder : Folder) (path : String) : Except FileError String :=
  if path.toList.contains '\x00' then .error .nulInName
  else if 4095 < path.utf8ByteSize then .error .nameTooLong
  else
    match Text.split '/' path with
    | [""] => .error .notFound
    | "" :: names => do
      let place ← folder.walk .above names
      folder.readAt place
    | names => do
      let place ← folder.walk (.inside []) names
      folder.readAt place

end Folder
end Barista
