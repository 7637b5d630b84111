/-!
# Failures of the file system

`Errno` is the answer of a failed system call; `IoError` adds the failures that are
noticed before or after one, or without any.
-/

namespace BlobStore

/-- Why a system call fails. -/
inductive Errno where
  /-- nothing has this name -/
  | noEntry
  /-- the name is in use -/
  | taken
  /-- a directory is needed here -/
  | notDirectory
  /-- a directory is not allowed here -/
  | isDirectory
  /-- the last part of the path cannot be removed -/
  | invalid
  /-- a name or a whole path is too long -/
  | nameTooLong
  /-- the last part of the path cannot be replaced -/
  | busy
  /-- a directory still has entries -/
  | notEmpty
  /-- any other failure, with its number and wording -/
  | other (code : Nat) (text : String)
  deriving DecidableEq, Repr

/-- The number of a failure. -/
def Errno.code : Errno → Nat
  | noEntry => 2
  | busy => 16
  | taken => 17
  | notDirectory => 20
  | isDirectory => 21
  | invalid => 22
  | nameTooLong => 36
  | notEmpty => 39
  | other code _ => code

/-- The wording of a failure. -/
def Errno.text : Errno → String
  | noEntry => "No such file or directory"
  | busy => "Device or resource busy"
  | taken => "File exists"
  | notDirectory => "Not a directory"
  | isDirectory => "Is a directory"
  | invalid => "Invalid argument"
  | nameTooLong => "File name too long"
  | notEmpty => "Directory not empty"
  | other _ text => text

/-- Why an input or output operation fails. -/
inductive IoError where
  | system (e : Errno)
  /-- the path holds a zero byte, so no system call is made -/
  | zeroByte
  /-- what was read should have been UTF-8 -/
  | notUtf8
  /-- a failure that no system call has, with its own wording -/
  | custom (text : String)
  /-- a directory has nothing above it in which it could be made -/
  | noParent
  deriving DecidableEq, Repr

/-- The wording of an input or output failure. -/
def IoError.message : IoError → String
  | system e => e.text ++ " (os error " ++ toString e.code ++ ")"
  | zeroByte => "file name contained an unexpected NUL byte"
  | notUtf8 => "stream did not contain valid UTF-8"
  | custom text => text
  | noParent => "failed to create whole tree"

/-- Whether a failure says that nothing has the name. -/
def IoError.isNotFound (e : IoError) : Bool := e = .system .noEntry

/-- Whether a failure says that there is nothing at a path, be it that a name is
missing or that a file stands where a directory would have to. -/
def IoError.isMissing (e : IoError) : Bool :=
  e = .system .noEntry || e = .system .notDirectory

end BlobStore
