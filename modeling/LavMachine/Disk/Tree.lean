import LavMachine.Disk.Path
import LavMachine.LittleEndian
set_option autoImplicit false

/-!
A tree of directories and files. A file's content is kept apart from its name, under a number, so
that a deleted file stays usable for whoever has it open.
-/
namespace LavMachine

inductive Node where
  | directory
  | file (number : Nat)
  deriving DecidableEq, Repr

inductive HostError where
  | notFound
  | notDirectory
  | isDirectory
  | nameTooLong
  | zeroInName
  deriving DecidableEq, Repr

def HostError.message : HostError → String
  | .notFound => "No such file or directory (os error 2)"
  | .notDirectory => "Not a directory (os error 20)"
  | .isDirectory => "Is a directory (os error 21)"
  | .nameTooLong => "File name too long (os error 36)"
  | .zeroInName => "file name contained an unexpected NUL byte"

structure Tree where
  /-- Everything below the root, a directory before what is in it, and what has been put elsewhere.
  Of a directory outside nothing else is known. -/
  nodes : List (Path × Node)
  contents : Array (Array UInt8)

namespace Tree

def empty : Tree := ⟨[], #[]⟩

def node? (t : Tree) (p : Path) : Option Node :=
  if p.isAtOrOver then some .directory else t.nodes.lookup p

def isDirectory (t : Tree) (p : Path) : Bool := t.node? p == some .directory

def content (t : Tree) (number : Nat) : Array UInt8 := t.contents.getD number #[]

def setContent (t : Tree) (number : Nat) (data : Array UInt8) : Tree :=
  { t with contents := t.contents.setIfInBounds number data }

def addDirectory (t : Tree) (p : Path) : Tree := { t with nodes := t.nodes ++ [(p, .directory)] }

def addFile (t : Tree) (p : Path) (data : Array UInt8) : Tree × Nat :=
  (⟨t.nodes ++ [(p, .file t.contents.size)], t.contents.push data⟩, t.contents.size)

def remove (t : Tree) (p : Path) : Tree := { t with nodes := t.nodes.filter (·.1 != p) }

def maxNameBytes : Nat := 255

def validName (name : String) : Bool :=
  name.utf8ByteSize ≤ maxNameBytes && !name.toList.contains '\x00'

/-- The longest path text under which a file can be read has fewer bytes than this. -/
def maxPathBytes : Nat := 4096

def rootBytes : Nat := 32

def validPath (p : Path) : Bool := p.all validName && p.text.utf8ByteSize + rootBytes < maxPathBytes

/-- Something new may be put at `p`: the path is a proper one, nothing is there, and it is in a
directory. -/
def isFree (t : Tree) (p : Path) : Bool :=
  validPath p && t.node? p == none && t.isDirectory p.dropLast

def names (t : Tree) (p : Path) : List String :=
  let inside := t.nodes.filterMap fun (q, _) => if q.dropLast == p then q.getLast? else none
  inside.mergeSort fun a b => !(b < a)

def inside (t : Tree) : List (Path × Node) := t.nodes.filter fun (p, _) => !p.isOutside

def follow (t : Tree) (p : Path) : List String → Except HostError Path
  | [] => .ok p
  | part :: rest =>
    if !t.isDirectory p then .error .notDirectory
    else if part == "" || part == "." then follow t p rest
    else if part == ".." then follow t p.parent rest
    else if part.utf8ByteSize > maxNameBytes then .error .nameTooLong
    else if t.node? (p ++ [part]) == none then .error .notFound
    else follow t (p ++ [part]) rest

def find (t : Tree) (text : String) : Except HostError Path :=
  if text.toList.contains '\x00' then .error .zeroInName
  else
    t.follow (if text.toList.head? == some '/' then ["/"] else []) (Path.split (· == '/') text)

def readFile (t : Tree) (text : String) : Except HostError (Array UInt8) :=
  if text.utf8ByteSize ≥ maxPathBytes then .error .nameTooLong
  else match t.find text with
  | .error e => .error e
  | .ok p =>
    match t.node? p with
    | some (.file number) => .ok (t.content number)
    | _ => .error .isDirectory

def ensureDirectory (t : Tree) (p : Path) : Tree :=
  (List.range p.length).foldl
    (fun t i => if t.node? (p.take (i + 1)) == none then t.addDirectory (p.take (i + 1)) else t) t

end Tree
end LavMachine
