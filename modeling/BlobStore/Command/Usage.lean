/-!
# Refused arguments

Each way in which the arguments of a call can be refused, with its wording.
-/

namespace BlobStore

/-- Why the arguments of a call are refused.  An argument is named as the help shows
it. -/
inductive UsageError where
  | notUtf8
  | unknownArgument (word : String)
  | unknownCommand (word : String)
  | missingCommand
  | missingOperand
  | missingValue (argument : String)
  | invalidValue (value argument : String) (reason : Option String)
  | unneededValue (value argument : String)
  | excludedBy (argument other : String)
  | repeated (argument : String)
  deriving DecidableEq, Repr

/-- The name of the program. -/
def programName : String := "shardstore"

/-- The wording of a refusal. -/
def UsageError.message : UsageError → String
  | notUtf8 => "invalid UTF-8 was detected in one or more arguments"
  | unknownArgument word => "unexpected argument '" ++ word ++ "' found"
  | unknownCommand word => "unrecognized subcommand '" ++ word ++ "'"
  | missingCommand => "'" ++ programName ++ "' requires a subcommand but one was not provided"
  | missingOperand => "the following required arguments were not provided:"
  | missingValue argument =>
    "a value is required for '" ++ argument ++ "' but none was supplied"
  | invalidValue value argument reason =>
    "invalid value '" ++ value ++ "' for '" ++ argument ++ "'" ++
      match reason with
      | some r => ": " ++ r
      | none => ""
  | unneededValue value argument =>
    "unexpected value '" ++ value ++ "' for '" ++ argument ++ "' found; no more were expected"
  | excludedBy argument other =>
    "the argument '" ++ argument ++ "' cannot be used with '" ++ other ++ "'"
  | repeated argument =>
    "the argument '" ++ argument ++ "' cannot be used multiple times"

end BlobStore
