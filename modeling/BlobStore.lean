import BlobStore.Action
import BlobStore.Command.Basic
import BlobStore.Command.Failure
import BlobStore.Command.Grammar
import BlobStore.Command.Help
import BlobStore.Command.Invocation
import BlobStore.Command.Run
import BlobStore.Command.Slot
import BlobStore.Command.Usage
import BlobStore.Config.Basic
import BlobStore.Config.File
import BlobStore.Config.Name
import BlobStore.Config.Scheme
import BlobStore.Digest.Algorithm
import BlobStore.Digest.Blake3
import BlobStore.Digest.Sha1
import BlobStore.Disk.Basic
import BlobStore.Disk.Error
import BlobStore.Disk.Lemmas
import BlobStore.Disk.Listing
import BlobStore.Disk.Request
import BlobStore.Disk.Walk
import BlobStore.Json.Fault
import BlobStore.Json.Number
import BlobStore.Json.Reader
import BlobStore.Json.Record
import BlobStore.Json.Schema
import BlobStore.Json.Skip
import BlobStore.Json.Text
import BlobStore.Json.Value
import BlobStore.Layout
import BlobStore.Main
import BlobStore.Path.Basic
import BlobStore.Placement
import BlobStore.Proofs.Command.Arguments
import BlobStore.Proofs.Command.Calls
import BlobStore.Proofs.Command.Configuration
import BlobStore.Proofs.Command.Export
import BlobStore.Proofs.Command.Flags
import BlobStore.Proofs.Command.Import
import BlobStore.Proofs.Command.Output
import BlobStore.Proofs.Command.Shown
import BlobStore.Proofs.Command.Words
import BlobStore.Proofs.Config.Defaults
import BlobStore.Proofs.Config.Format
import BlobStore.Proofs.Config.RoundTrip
import BlobStore.Proofs.Config.Saving
import BlobStore.Proofs.Disk.AnyPath
import BlobStore.Proofs.Disk.Asking
import BlobStore.Proofs.Disk.Blocked
import BlobStore.Proofs.Disk.Effects
import BlobStore.Proofs.Disk.Locate
import BlobStore.Proofs.Disk.Numbers
import BlobStore.Proofs.Disk.Reach
import BlobStore.Proofs.Disk.Temporary
import BlobStore.Proofs.Disk.View
import BlobStore.Proofs.Json.Filling
import BlobStore.Proofs.Json.Grammar
import BlobStore.Proofs.Json.Members
import BlobStore.Proofs.Json.Numerals
import BlobStore.Proofs.Json.Objects
import BlobStore.Proofs.Json.Reading
import BlobStore.Proofs.Json.Results
import BlobStore.Proofs.Json.Skipping
import BlobStore.Proofs.Json.Soundness
import BlobStore.Proofs.Json.Spelling
import BlobStore.Proofs.Json.Taken
import BlobStore.Proofs.Json.Unambiguous
import BlobStore.Proofs.Json.Writing
import BlobStore.Proofs.Path.Above
import BlobStore.Proofs.Path.Names
import BlobStore.Proofs.Path.Parent
import BlobStore.Proofs.Placement.Format
import BlobStore.Proofs.Sharding.Blocks
import BlobStore.Proofs.Sharding.Catalog
import BlobStore.Proofs.Sharding.Independence
import BlobStore.Proofs.Sharding.Orderly
import BlobStore.Proofs.Sharding.Refinement
import BlobStore.Proofs.Sharding.Shelf
import BlobStore.Proofs.Sharding.Shelved
import BlobStore.Proofs.Sharding.Site
import BlobStore.Proofs.Store.Acceptance
import BlobStore.Proofs.Store.AnyTree
import BlobStore.Proofs.Store.AtomicFailure
import BlobStore.Proofs.Store.ClearWay
import BlobStore.Proofs.Store.Clearing
import BlobStore.Proofs.Store.Components
import BlobStore.Proofs.Store.Containment
import BlobStore.Proofs.Store.Contents
import BlobStore.Proofs.Store.Copying
import BlobStore.Proofs.Store.Deleting
import BlobStore.Proofs.Store.Delivered
import BlobStore.Proofs.Store.Directories
import BlobStore.Proofs.Store.Looking
import BlobStore.Proofs.Store.Lookup
import BlobStore.Proofs.Store.MadeAlready
import BlobStore.Proofs.Store.Modes
import BlobStore.Proofs.Store.Opening
import BlobStore.Proofs.Store.Outcome
import BlobStore.Proofs.Store.Overwriting
import BlobStore.Proofs.Store.PlainFailure
import BlobStore.Proofs.Store.ReadBack
import BlobStore.Proofs.Store.Reading
import BlobStore.Proofs.Store.Refusal
import BlobStore.Proofs.Store.Removing
import BlobStore.Proofs.Store.Requests
import BlobStore.Proofs.Store.Runs
import BlobStore.Proofs.Store.Session
import BlobStore.Proofs.Store.SharedKeys
import BlobStore.Proofs.Store.Site
import BlobStore.Proofs.Store.Writing
import BlobStore.Proofs.Text.Pieces
import BlobStore.Store.Basic
import BlobStore.Store.Blob
import BlobStore.Store.Directory
import BlobStore.Store.Error
import BlobStore.Store.File
import BlobStore.Store.Objects
import BlobStore.Store.Operation
import BlobStore.Store.Source
import BlobStore.Text.Count
import BlobStore.Text.Hex
import BlobStore.Text.Lossy
import BlobStore.Text.Parts
import BlobStore.Text.Quoted
import BlobStore.Text.Replace
import BlobStore.Text.Shortest
import BlobStore.Text.Unprinted
