import ServiceCatalog.Run.Basic

/-!
# The command line

A command is carried out on a copy of the part of the file system that it mentions; afterwards the file
system is brought in line with the copy.  Everything that is decided, is decided by `Command.parse?` and
`Command.execute`.
-/

namespace ServiceCatalog

/-- What a user is told about an ill-formed command line. -/
def usage : String :=
  "usage: [--src-gen-dir DIR] [-P OPTION]... [--classpath PATH]... [--mode source|binary] [--verbose] INPUT..."

/-- The text of a place. -/
def placeText (place : List String) : String := "/" ++ Text.joined '/' place

/-- Copies what is at a place and below it. -/
partial def copyFrom (t : FileTree) (place : List String) : IO FileTree := do
  let real ← IO.FS.realPath (placeText place)
  if ← real.isDir then
    let mut t := t.put place .directory
    for e in ← real.readDir do
      let isLink := (← e.path.symlinkMetadata).type == .symlink
      if !(isLink && (← e.path.isDir)) then t ← copyFrom t (place ++ [e.fileName])
    return t
  else return t.put place (.file (← IO.FS.readBinFile real).toList)

/-- Copies what is at the end of a path, and the directories on the way. -/
def copyPath (t : FileTree) (path : FilePath) : IO FileTree := do
  let place := path.components.foldl (fun place c => match c with
    | .name s => place ++ [s]
    | .up => place.dropLast
    | _ => place) (t.start path)
  let mut t := t
  for i in List.range place.length do
    let around := place.take i
    if t.node? around = none then
      try
        if ← (← IO.FS.realPath (placeText around)).isDir then t := t.put around .directory
      catch _ => pure ()
  try copyFrom t place
  catch _ => return t

/-- Brings the file system from one state of the copy to another. -/
def replay (before after : FileTree) : IO Unit := do
  let depth (e : List String × FileNode) := e.1.length
  for e in before.entries.mergeSort fun a b => depth b ≤ depth a do
    if after.node? e.1 = none then
      match e.2 with
      | .directory => IO.FS.removeDir (placeText e.1)
      | .file _ => IO.FS.removeFile (placeText e.1)
  for e in after.entries.mergeSort fun a b => depth a ≤ depth b do
    if before.node? e.1 ≠ some e.2 then
      match e.2 with
      | .directory => IO.FS.createDirAll (placeText e.1)
      | .file bytes => IO.FS.writeBinFile (placeText e.1) ⟨bytes.toArray⟩

/-- Reports what is wrong with the inputs of a command. -/
def report (c : Command) (t : FileTree) : IO Unit :=
  match c.gather t with
  | .ok (ds, _) => ds.entries.forM fun d => IO.eprintln d.text
  | .error _ => return ()

/-- Carries out a command on the file system, and gives the exit code. -/
def perform (c : Command) : IO UInt32 := do
  let names := Text.parts '/' (← IO.currentDir).toString
  let output := c.outputDirectory.toOption.toList
  let t ← (output ++ c.classPath ++ c.inputs).foldlM copyPath ⟨names.filter (· ≠ ""), []⟩
  report c t
  match c.execute t with
  | .ok written after =>
    replay t after
    if c.verbose then written.forM fun p => IO.println p.text
    return 0
  | .error e after =>
    replay t after
    IO.eprintln e.message
    return 1

end ServiceCatalog

/-- Carries out the command of a command line. -/
def main (arguments : List String) : IO UInt32 :=
  match ServiceCatalog.Command.parse? arguments with
  | some c => ServiceCatalog.perform c
  | none => do
    IO.eprintln ServiceCatalog.usage
    return 2
