import NoticeCheck.Path
import NoticeCheck.SortedMap

/-!
Disks: files and directories by the names that lead to them. The working directory is the root of
the disk, and `..` there leads nowhere.
-/
namespace NoticeCheck

/-- The content of a file, which may be no text. -/
inductive Content where
  | text (text : Text)
  | undecodable (bytes : List UInt8)
  deriving DecidableEq

inductive Entry where
  | file (content : Content)
  | directory
  deriving DecidableEq

/-- The names from the root of the disk to an entry. -/
abbrev Place :=
  List Text

structure Disk where
  entries : SortedMap Place Entry
  deriving DecidableEq

namespace Disk

def empty : Disk :=
  ⟨.empty⟩

def entryAt? (d : Disk) (place : Place) : Option Entry :=
  if place = [] then some .directory else d.entries.get? place

/-- Follow one part of a path from a directory; whether a name is there is not looked at. -/
def follow (place : Place) : Path.Part → Place
  | .root => []
  | .here => place
  | .up => place.dropLast
  | .name text => place ++ [text]

/-- The directory that a path leads to, through directories only. -/
def directory? (d : Disk) (parts : List Path.Part) : Option Place :=
  parts.foldlM (fun place part =>
    let next := follow place part
    if d.entryAt? next = some .directory then some next else none) []

/-- Make one directory below another one, unless it is there. -/
def enter (place : Place) (part : Path.Part) : OptionT (StateM Disk) Place := do
  let next := follow place part
  match (← get).entryAt? next with
  | some .directory => pure next
  | some (.file _) => failure
  | none =>
    modify fun d => ⟨d.entries.insert next .directory⟩
    pure next

/-- Make a directory and those above it; fails at a file, and what was made before stays. -/
def makeDirectory (p : Path) : OptionT (StateM Disk) Place :=
  p.parts.foldlM enter []

/-- The last name in a path that ends in one, without a slash behind it. -/
def fileName? (p : Path) : Option Text :=
  match p.segments.getLast?.bind Path.partOf? with
  | some (.name text) => some text
  | _ => none

/-- Where the file at a path is or would be, if its directory exists. -/
def filePlace? (d : Disk) (p : Path) : Option Place := do
  let name ← fileName? p
  let directory ← d.directory? p.parts.dropLast
  return directory ++ [name]

def read? (d : Disk) (p : Path) : Option Content := do
  match d.entryAt? (← d.filePlace? p) with
  | some (.file content) => some content
  | _ => none

def readText? (d : Disk) (p : Path) : Option Text :=
  match d.read? p with
  | some (.text text) => some text
  | _ => none

/-- Put a file in place in one step, over an earlier file but not over a directory. -/
def replace? (d : Disk) (p : Path) (content : Content) : Option Disk := do
  let place ← d.filePlace? p
  guard (d.entryAt? place ≠ some .directory)
  return ⟨d.entries.insert place (.file content)⟩

end Disk

end NoticeCheck
