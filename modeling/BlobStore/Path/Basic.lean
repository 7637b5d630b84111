import BlobStore.Text.Lossy
import BlobStore.Text.Parts

/-!
# Paths

A path is a text of bytes.  Its components are what lies between the slashes: empty
pieces, and pieces of one dot that do not begin the path, count for nothing.  The
text is kept as it was given, since system calls see the text and not the
components.
-/

namespace BlobStore

/-- A path as it is handed to the file system. -/
structure Path where
  bytes : List UInt8
  deriving DecidableEq, Repr

/-- A component of a path. -/
inductive Component where
  /-- the leading slash of an absolute path -/
  | top
  /-- a single dot at the beginning of a relative path -/
  | here
  /-- two dots -/
  | up
  | name (bytes : List UInt8)
  deriving DecidableEq, Repr

namespace Path

/-- The byte between components. -/
def slash : UInt8 := 0x2F

/-- The piece that stands for the directory itself. -/
def dot : List UInt8 := [0x2E]

/-- The piece that stands for the directory above. -/
def dotDot : List UInt8 := [0x2E, 0x2E]

/-- The path with a text's bytes. -/
def ofString (s : String) : Path := ⟨s.toUTF8.data.toList⟩

/-- The text that shows a path. -/
def display (p : Path) : String := Text.lossy p.bytes

/-- The text of a path, if it is one. -/
def toString? (p : Path) : Option String := String.fromUTF8? ⟨p.bytes.toArray⟩

def isEmpty (p : Path) : Bool := p.bytes.isEmpty

def isAbsolute (p : Path) : Bool := p.bytes.head? = some slash

def endsInSlash (p : Path) : Bool := p.bytes.getLast? = some slash

/-- The beginning of a path that is a component by itself, a slash or a dot, and the
rest of the path. -/
def split (p : Path) : Option Component × List UInt8 :=
  match p.bytes with
  | 0x2F :: rest => (some .top, rest)
  | [0x2E] => (some .here, [])
  | 0x2E :: 0x2F :: rest => (some .here, 0x2F :: rest)
  | bs => (none, bs)

/-- The component that a piece between slashes stands for after the beginning of a
path. -/
def component (piece : List UInt8) : Option Component :=
  if piece = [] ∨ piece = dot then none
  else if piece = dotDot then some .up
  else some (.name piece)

/-- The components of a path. -/
def components (p : Path) : List Component :=
  let (first, rest) := p.split
  first.toList ++ (Text.parts slash rest).filterMap component

/-- Pieces without those at the end that count for nothing. -/
def trimEnd (pieces : List (List UInt8)) : List (List UInt8) :=
  (pieces.reverse.dropWhile fun piece => (component piece).isNone).reverse

/-- The path without its last component, if it has one that can be dropped. -/
def parent? (p : Path) : Option Path :=
  let (first, rest) := p.split
  match trimEnd (Text.parts slash rest) with
  | [] => if first = some .here then some ⟨[]⟩ else none
  | piece :: pieces =>
    let lead := match first with
      | some .top => [slash]
      | some .here => dot
      | _ => []
    some ⟨lead ++ [slash].intercalate (trimEnd (piece :: pieces).dropLast)⟩

/-- A path followed by another one; an absolute one stands alone. -/
def join (p q : Path) : Path :=
  if q.isAbsolute then q
  else if p.isEmpty || p.endsInSlash then ⟨p.bytes ++ q.bytes⟩
  else ⟨p.bytes ++ slash :: q.bytes⟩

/-- A path and the paths above it, at most as many as are asked for. -/
def ancestorsWithin : Nat → Path → List Path
  | 0, _ => []
  | n + 1, p =>
    p :: match p.parent? with
      | some q => ancestorsWithin n q
      | none => []

/-- A path and all paths above it, each the parent of the one before.  A parent is
shorter than its child, so the length of the path bounds their number. -/
def ancestors (p : Path) : List Path := ancestorsWithin (p.bytes.length + 1) p

end Path

end BlobStore
