import KnightLang.CommandLine

/-!
The program itself: gathers what an invocation depends on, performs it, and writes what it leaves
behind.
-/

namespace KnightLang.Main

def ofByteArray (bytes : ByteArray) : Bytes := bytes.data.toList

def toByteArray (bytes : Bytes) : ByteArray := ⟨bytes.toArray⟩

def pathText? (path : Bytes) : Option String := String.fromUTF8? (toByteArray path)

/-- Reads a stream to its end. -/
partial def readAll (stream : IO.FS.Stream) (sofar : ByteArray) : IO ByteArray := do
  let chunk ← stream.read 65536
  if chunk.isEmpty then return sofar else readAll stream (sofar ++ chunk)

def isDirectory (path : String) : IO Bool := do
  try
    (← IO.FS.realPath path).isDir
  catch _ => return false

/-- The part of a path before its last slash, if there is one. -/
def parent? (path : Bytes) : Option Bytes :=
  match path.reverse.dropWhile (· != 47) with
  | [] => none
  | _ :: before => some before.reverse

/-- Adds what stands at a path to a tree of files. -/
def addPath (tree : FileTree) (path : Bytes) : IO FileTree := do
  match if path.contains 0 then none else pathText? path with
  | none => return tree
  | some text =>
    let parent := (parent? path).getD []
    let hasParent ← isDirectory ((pathText? parent).getD "")
    let tree := if hasParent then tree.extend [] [parent] else tree
    if ← isDirectory text then return tree.extend [] [path]
    try
      return tree.extend [(path, ofByteArray (← IO.FS.readBinFile text))] []
    catch _ => return tree

/-- The files of a tree without any, in the working directory. -/
def emptyTree : IO FileTree := do
  let path := Bytes.ofString (← IO.FS.realPath ".").toString
  return { here := FileTree.place {} path }

def writeFiles (before after : FileTree) : IO Unit :=
  after.files.forM fun (path, contents) => do
    if before.files.lookup path != some contents then
      match pathText? (47 :: Bytes.joinWith [47] path) with
      | some text => IO.FS.writeBinFile text (toByteArray contents)
      | none => pure ()

def systemText (path : String) : IO Bytes := do
  try
    return Bytes.trim (Bytes.ofString (← IO.FS.readFile path))
  catch _ => return "unknown"

end KnightLang.Main

open KnightLang in
def main (arguments : List String) : IO UInt32 := do
  let input ← Main.readAll (← IO.getStdin) .empty
  let home := (← IO.getEnv "HOME").filter (· != "")
  let system ← Main.systemText "/proc/sys/kernel/ostype"
  let version ← Main.systemText "/proc/sys/kernel/osrelease"
  let invocation : Invocation := {
    arguments := arguments.map Bytes.ofString
    input := Main.ofByteArray input
    home := home.map Bytes.ofString
    build := "native"
    platform := system ++ [32] ++ version
    clock := Int64.ofNat (← IO.monoNanosNow)
    fuel := 1000000000000000000 }
  let files ← (CommandLine.paths invocation).foldlM Main.addPath (← Main.emptyTree)
  let files ← (CommandLine.paths { invocation with files }).foldlM Main.addPath files
  let outcome := CommandLine.execute { invocation with files }
  (← IO.getStdout).write (Main.toByteArray outcome.output)
  (← IO.getStdout).flush
  (← IO.getStderr).write (Main.toByteArray outcome.errors)
  Main.writeFiles files outcome.files
  return (outcome.status % 256).toNat.toUInt32
