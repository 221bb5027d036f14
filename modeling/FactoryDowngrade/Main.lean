import FactoryDowngrade.CommandLine.Session

/-!
# The program

The program takes the files below the current directory, and those that its arguments name, into a
world of its own, carries out its command line there, and puts back what came out otherwise. The
verification command is run by the shell of this library.
-/

namespace FactoryDowngrade

namespace Program

/-- The files and directories at an entry of a directory. -/
partial def load (entry : IO.FS.DirEntry) : IO Node := do
  if ← entry.path.isDir then
    let mut entries := []
    for child in ← entry.path.readDir do
      entries := entries ++ [(child.fileName, ← load child)]
    return .dir entries
  else
    let bytes ← IO.FS.readBinFile entry.path
    return .file bytes.toList false

/-- A tree with a node at some components, below directories that are made as needed. -/
def graft (tree : Node) (parts : List String) (node : Node) : Node :=
  let above := PathName.absolute parts.dropLast
  match FileTree.ensureDir tree [] (parts.length + 1) above with
  | .ok tree => tree.put (some node) parts
  | .error _ => tree

/-- A tree with the files that some arguments name. -/
def loadNamed (cwd : List String) (tree : Node) (arguments : List String) : IO Node := do
  let mut tree := tree
  for argument in arguments do
    let parts := PathName.resolve cwd (.ofString argument)
    if (tree.get parts).toOption.isNone then
      try
        let bytes ← IO.FS.readBinFile argument
        tree := graft tree parts (.file bytes.toList false)
      catch _ => pure ()
  return tree

/-- The files of a tree with their paths. -/
def filesOf (tree : Node) : List (String × Bytes) :=
  (Node.files [] tree).map fun (parts, bytes) => ((PathName.absolute parts).toText, bytes)

/-- Puts back the files that came out otherwise. -/
def store (before after : Node) : IO Unit := do
  let old := filesOf before
  let new := filesOf after
  for (path, bytes) in new do
    if old.lookup path ≠ some bytes then
      IO.FS.createDirAll (PathName.ofString path).parent.toText
      IO.FS.writeBinFile path (ByteArray.mk bytes.toArray)
  for (path, _) in old do
    if (new.lookup path).isNone then IO.FS.removeFile path

/-- Says how a program ended that did not end by itself, and gives its exit status. -/
def stop : CommandLine.Stop → IO UInt32
  | .usage status => do
    IO.eprintln "usage: factory-opt [-h] [-v] \x7banalyze,optimize\x7d ..."
    return UInt32.ofNat status
  | .escaped (.encoding fault) => do
    IO.eprintln fault.message
    return 1
  | .escaped (.tooManyDigits count) => do
    IO.eprintln s!"a number of the configuration has {count} digits"
    return 1
  | .escaped .tooDeep => do
    IO.eprintln "values of the configuration are nested too deeply"
    return 1
  | .escaped .unwritable => do
    IO.eprintln "a number of the report is too large"
    return 1
  | .escaped (.text (.command fault)) => do
    IO.eprintln fault.message
    return 1
  | .escaped (.files fault) => do
    IO.eprintln fault.message
    return 1
  | .escaped (.text (.unknownSite id)) => do
    IO.eprintln id
    return 1
  | .escaped (.text (.draft fault)) => do
    IO.eprintln fault.message
    return 1
  | .escaped .noHome => do
    IO.eprintln "Could not determine home directory."
    return 1

end Program

end FactoryDowngrade

open FactoryDowngrade

/-- Runs the program on the files below the current directory. -/
def main (arguments : List String) : IO UInt32 := do
  let here ← IO.currentDir
  let cwd := (PathName.ofString here.toString).parts
  let mut entries := []
  for entry in ← here.readDir do
    entries := entries ++ [(entry.fileName, ← Program.load entry)]
  let base : Node := .dir [("tmp", .dir []), ("dev", .dir [("null", .sink)])]
  let tree ← Program.loadNamed cwd (Program.graft base cwd (.dir entries)) arguments
  let (result, w) := CommandLine.run arguments (.start tree cwd)
  Program.store tree w.tree
  match result with
  | .ok finish =>
    IO.print finish.out
    IO.eprint finish.err
    return UInt32.ofNat finish.status
  | .error reason => Program.stop reason
