import BlobStore.Config.Name
import BlobStore.Json.Record
import BlobStore.Json.Schema
import BlobStore.Store.Basic

/-!
# Configuration

A `Config` names a store by plain values, so that it can be written to a file.  Any
block size can be written and read, also zero, which is refused only when a store is
made from the configuration.
-/

namespace BlobStore

/-- The plain values that a store is made from. -/
structure Config where
  root : Path
  scheme : Scheme
  /-- the digest algorithm of the scheme `cas` -/
  algorithm : Digest.Algorithm
  /-- the width of directories of the scheme `cas` -/
  blockSize : Nat
  atomicWrites : Bool
  deriving DecidableEq, Repr

namespace Config

/-- The configuration in which nothing has been chosen. -/
def standard : Config where
  root := Store.defaultRoot
  scheme := .cas
  algorithm := Sharding.standard.algorithm
  blockSize := Sharding.standard.blockSize
  atomicWrites := false

/-- The options of a store that follows a configuration. -/
def toOptions (c : Config) : Except StoreError Options :=
  match c.scheme with
  | .identity =>
    .ok { root := some c.root, layout := some Layout.identity, atomicWrites := c.atomicWrites }
  | .cas =>
    match Sharding.ofBlockSize c.algorithm c.blockSize with
    | .error e => .error (.config e)
    | .ok s =>
      .ok { root := some c.root, layout := some (Layout.sharded s), atomicWrites := c.atomicWrites }

/-- The store that follows a configuration. -/
def toStore (c : Config) : Except StoreError Store := c.toOptions.map Store.ofOptions

/-- The configuration as a record.  A root that is not UTF-8 cannot be written. -/
def toRecord (c : Config) : Except JsonFault Json.Record :=
  match c.root.toString? with
  | none => .error .pathNotUtf8
  | some root => .ok
    [("root", .text root),
     ("transform", .text c.scheme.name),
     ("hash", .text c.algorithm.name),
     ("block_size", .natural c.blockSize),
     ("atomic_writes", .boolean c.atomicWrites)]

/-- A configuration of which some values may not have been read. -/
structure Draft where
  root : Option Path
  scheme : Option Scheme
  algorithm : Option Digest.Algorithm
  blockSize : Option Nat
  atomicWrites : Option Bool

/-- How a configuration is read from JSON.  A value that is not given is the one of the
standard configuration. -/
def schema : Json.Schema Draft Config where
  expected := "struct StoreConfig"
  fields :=
    [ { name := "root"
        isSet := fun d => d.root.isSome
        read := fun d => do
          return { d with root := some (Path.ofString (← Json.readString "path string")) } },
      { name := "transform"
        isSet := fun d => d.scheme.isSome
        read := fun d => do
          return { d with
            scheme := some (← Json.readVariant [("cas", .cas), ("identity", .identity)]) } },
      { name := "hash"
        isSet := fun d => d.algorithm.isSome
        read := fun d => do
          return { d with
            algorithm := some (← Json.readVariant [("sha1", .sha1), ("blake3", .blake3)]) } },
      { name := "block_size"
        isSet := fun d => d.blockSize.isSome
        read := fun d => do return { d with blockSize := some (← Json.readNatural "usize") } },
      { name := "atomic_writes"
        isSet := fun d => d.atomicWrites.isSome
        read := fun d => do
          return { d with atomicWrites := some (← Json.readBoolean "a boolean") } } ]
  start := ⟨none, none, none, none, none⟩
  wholeList := none
  finish := fun d => .ok
    { root := d.root.getD standard.root
      scheme := d.scheme.getD standard.scheme
      algorithm := d.algorithm.getD standard.algorithm
      blockSize := d.blockSize.getD standard.blockSize
      atomicWrites := d.atomicWrites.getD standard.atomicWrites }

/-- Reads a configuration from a JSON text. -/
def ofJson (text : String) : Except Json.Misread Config := Json.readAll schema.read text

end Config

end BlobStore
