import PropTable.Text.Blank
import PropTable.Text.Utf8

/-!
# Formula files

A formula may be kept in a file: its tokens are the words of the text, which is encoded in UTF-8.
What a file name leads to is up to the system. It is given as `Contents`: the bytes of the file, or
the reason why there are none.
-/

namespace PropTable.CommandLine

/-- The parts of a file name between its slashes. Empty parts and single dots name nothing and are
dropped. -/
def pathParts (name : String) : List String :=
  (name.splitOn "/").filter fun part => part != "" && part != "."

/-- The slashes a file name starts with, as far as they matter: exactly two are kept, any other
number means one. -/
def pathRoot (name : String) : String :=
  match (name.toList.takeWhile (· == '/')).length with
  | 0 => ""
  | 2 => "//"
  | _ => "/"

/-- The shortest spelling of a file name. The empty name is the current directory. -/
def normalizePath (name : String) : String :=
  let path := pathRoot name ++ "/".intercalate (pathParts name)
  if path.isEmpty then "." else path

/-- Why a file could not be read. -/
inductive ReadFailure where
  | notFound
  | isDirectory
  | notDirectory
  | nameTooLong
  | nullInName
  /-- A failure that only the system can put into words. -/
  | other (text : String)
deriving DecidableEq, Repr

/-- Why there are no tokens. -/
inductive FileError where
  | unreadable (path : String) (failure : ReadFailure)
  | undecodable (malformation : Text.Utf8.Malformation)
deriving DecidableEq, Repr

/-- The text of a failure that the system numbers. -/
def numberedFailure (number : Nat) (reason path : String) : String :=
  "Error reading formula file: [Errno " ++ toString number ++ "] " ++ reason ++ ": " ++
    Text.quoted path

def FileError.message : FileError → String
  | .unreadable path .notFound => "Formula file not found: " ++ path
  | .unreadable path .isDirectory => numberedFailure 21 "Is a directory" path
  | .unreadable path .notDirectory => numberedFailure 20 "Not a directory" path
  | .unreadable path .nameTooLong => numberedFailure 36 "File name too long" path
  | .unreadable _ .nullInName => "embedded null byte"
  | .unreadable _ (.other text) => "Error reading formula file: " ++ text
  | .undecodable malformation => malformation.message

/-- What was found under a file name. -/
abbrev Contents := Except ReadFailure (List UInt8)

/-- The tokens in the contents of a file. -/
def tokensOfContents (path : String) : Contents → Except FileError (List String)
  | .error failure => .error (.unreadable path failure)
  | .ok bytes =>
    match Text.Utf8.decode bytes with
    | .error malformation => .error (.undecodable malformation)
    | .ok text => .ok (Text.words text)

/-- The number of bytes from which on a whole path is too long. -/
def pathLimit : Nat := 4096

/-- What is wrong with a file name before anything is looked up. -/
def nameFailure? (path : String) : Option ReadFailure :=
  if path.contains (Char.ofNat 0) then some .nullInName
  else if pathLimit ≤ path.utf8ByteSize then some .nameTooLong
  else none

end PropTable.CommandLine
