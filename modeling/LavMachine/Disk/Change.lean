import LavMachine.Disk.Tree
set_option autoImplicit false

namespace LavMachine

inductive Change where
  | removeFile (p : Path)
  | makeDirectory (p : Path)
  | writeFile (p : Path) (data : Array UInt8)
  deriving DecidableEq

namespace Tree

def fileAt? (t : Tree) (p : Path) : Option (Array UInt8) :=
  match t.node? p with
  | some (.file number) => some (t.content number)
  | _ => none

/-- Files that are gone are removed first; then the new directories, each before what is in it, and
the files that are new or have changed. -/
def changes (before after : Tree) : List Change :=
  let removed := before.nodes.filterMap fun (p, node) =>
    if node != .directory && (after.fileAt? p).isNone then some (.removeFile p) else none
  let added := after.nodes.filterMap fun (p, node) =>
    match node with
    | .directory => if before.isDirectory p then none else some (.makeDirectory p)
    | .file number =>
      let data := after.content number
      if before.fileAt? p == some data then none else some (.writeFile p data)
  removed ++ added

end Tree
end LavMachine
