import LoxSyntax.Text.Line
import LoxSyntax.Text.Utf8

/-!
# Reading source files

A source file is a path below the working directory. Reading it can fail because
of the path, where the reason is that of the system, or because its bytes are not
UTF-8. This module words the failures, decodes the bytes, and resolves paths in
a directory given as a list of its entries.

* `decodeSource` is the text of a file, with its line ends normalized.
* `Directory.read` finds the bytes at a path.
-/

namespace LoxSyntax.CommandLine

/-- Why a source file cannot be read. -/
inductive ReadError
  /-- Nothing is there. -/
  | notFound
  /-- The path names a directory. -/
  | isDirectory
  /-- The path goes on behind a file. -/
  | notDirectory
  /-- The path or a name in it is longer than the system allows. -/
  | nameTooLong
  /-- The system refuses for another reason, which has a number. -/
  | refused (number : Nat) (reason : String)
  /-- The bytes of the file are not UTF-8. -/
  | malformed (sequence : Text.Utf8.Malformed)
deriving DecidableEq, Repr

/-- The wording of a failure to read a path. -/
def ReadError.message (path : String) : ReadError → String
  | notFound => "[Errno 2] No such file or directory: " ++ Text.quoted path
  | isDirectory => "[Errno 21] Is a directory: " ++ Text.quoted path
  | notDirectory => "[Errno 20] Not a directory: " ++ Text.quoted path
  | nameTooLong => "[Errno 36] File name too long: " ++ Text.quoted path
  | refused number reason =>
    "[Errno " ++ integerText number ++ "] " ++ reason ++ ": " ++ Text.quoted path
  | malformed sequence => sequence.message

/-- The text of a file: its bytes read as UTF-8, every line end written as one
line feed. -/
def decodeSource (bytes : List UInt8) : Except ReadError String :=
  match Text.Utf8.decode bytes with
  | .ok text => .ok (String.ofList (Text.normalizeLineEnds text))
  | .error sequence => .error (.malformed sequence)

/-! ## Directories -/

/-- What an entry of a directory is. -/
inductive Entry
  | file (bytes : List UInt8)
  | folder
deriving DecidableEq, Repr

/-- The entries at and below a directory, each with its path in components. -/
abbrev Directory := List (List String × Entry)

/-- The components of a path, separated by slashes. -/
def pathComponents (path : List Char) : List String :=
  (path.splitOn '/').map String.ofList

/-- The number of bytes that a name in a path may have. -/
def nameLimit : Nat := 255

/-- The number of bytes that a path may have. -/
def pathLimit : Nat := 4095

namespace Directory

/-- What is at a place. A place that only other entries lie below is a folder. -/
def entry? (d : Directory) (place : List String) : Option Entry :=
  match d.lookup place with
  | some found => some found
  | none => if d.any fun (path, _) => place.isPrefixOf path then some .folder else none

/-- Follows the components of a path from a folder. Outside of the directory, where
there is no place, only folders that the path merely passes are known. -/
def follow (d : Directory) (place : Option (List String)) :
    List String → Except ReadError (List UInt8)
  | [] => .error .isDirectory
  | component :: rest =>
    if component = "" ∨ component = "." then d.follow place rest
    else if nameLimit < component.utf8ByteSize then .error .nameTooLong
    else
      match place with
      | none => if component = ".." then d.follow none rest else .error .notFound
      | some folder =>
        if component = ".." then
          d.follow (if folder = [] then none else some folder.dropLast) rest
        else
          match d.entry? (folder ++ [component]), rest with
          | none, _ => .error .notFound
          | some .folder, _ => d.follow (some (folder ++ [component])) rest
          | some (.file bytes), [] => .ok bytes
          | some (.file _), _ :: _ => .error .notDirectory

/-- The bytes of the file at a path. An empty path names nothing, and a path that
starts with a slash starts outside of the directory. -/
def read (d : Directory) (path : String) : Except ReadError (List UInt8) :=
  if pathLimit < path.utf8ByteSize then .error .nameTooLong
  else
    match path.toList with
    | [] => .error .notFound
    | '/' :: letters => d.follow none (pathComponents letters)
    | letters => d.follow (some []) (pathComponents letters)

end Directory

end LoxSyntax.CommandLine
