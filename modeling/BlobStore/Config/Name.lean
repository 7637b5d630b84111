import BlobStore.Config.Scheme
import BlobStore.Layout
import BlobStore.Store.Error

/-!
# Choices by name

An algorithm and a scheme can be named in any mixture of upper and lower case; a name
that is unknown is reported in lower case.
-/

namespace BlobStore

/-- The algorithm of a name. -/
def Digest.Algorithm.named (name : String) : Except ConfigFault Digest.Algorithm :=
  match Digest.Algorithm.ofName? name with
  | some a => .ok a
  | none => .error (.unknownAlgorithm (name.map Char.toLower))

/-- The scheme of a name. -/
def Scheme.named (name : String) : Except ConfigFault Scheme :=
  match Scheme.ofName? name with
  | some s => .ok s
  | none => .error (.unknownScheme (name.map Char.toLower))

/-- The sharding of an algorithm and a width of directories. -/
def Sharding.ofBlockSize (algorithm : Digest.Algorithm) (blockSize : Nat) :
    Except ConfigFault Sharding :=
  match Sharding.ofBlockSize? algorithm blockSize with
  | some s => .ok s
  | none => .error .zeroBlockSize

end BlobStore
