import NoticeCheck.Disk
import NoticeCheck.Reading

/-! Fixtures on a disk: files below a root that are written and read through their expectations. -/
namespace NoticeCheck

inductive FixtureError where
  | outOfBounds (root location : Path)
  | access (path : Path)
  | reading (path : Path) (error : ReadingError)
  /-- The text on disk is one that reading revises. -/
  | changed (path : Path)
  | missing (missing : Missing)
  deriving DecidableEq

def FixtureError.message : FixtureError → Text
  | outOfBounds root location =>
    location.spelling ++ " is outside of ".toList ++ root.spelling
  | access path => "failed to access ".toList ++ path.spelling
  | reading path _ => "failed to parse expectations in ".toList ++ path.spelling
  | changed path =>
    "Contents of ".toList ++ path.spelling ++
      " were not transformed when written to disk".toList
  | missing m => m.message

/-- A file below a root. Its edits change the notices it expects, or remove all of them. -/
structure Fixture where
  root : Path
  path : Path
  below : path.staysBelow = true
  probe : Text := defaultProbe
  edits : List (File → Except Missing (Option File)) := []

namespace Fixture

/-- A fixture at a path that stays below the root. -/
def create (root path : Path) : Except FixtureError Fixture :=
  if h : path.staysBelow = true then pure { root, path, below := h }
  else throw (.outOfBounds root (root.join path))

def location (x : Fixture) : Path :=
  x.root.join x.path

/-- Read a source as this fixture. -/
def read (x : Fixture) (source : Text) (known : File) : Except FixtureError (Text × File) :=
  (readFixture x.probe source known).mapError (.reading x.location)

/-- Write the revised text of `source`, in one step and after making the directories above it. -/
def write (x : Fixture) (source : Text) : ExceptT FixtureError (StateM Disk) File := do
  let (text, file) ← liftExcept (x.read source (.empty x.location))
  let directory := x.location.parent?.getD x.root
  match ← (Disk.makeDirectory directory).run with
  | none => throw (.access directory)
  | some _ =>
    match (← get).replace? x.location (.text text) with
    | none => throw (.access x.location)
    | some disk =>
      set disk
      return file

/--
The notices expected by the text on a disk, after the edits; none when nothing is expected. The
text has to be one that reading leaves as it is.
-/
def expected (x : Fixture) (disk : Disk) (known : File) : Except FixtureError (Option File) :=
  match disk.readText? x.location with
  | none => throw (.access x.location)
  | some source => do
    let (text, file) ← x.read source known
    if text ≠ source then throw (.changed x.location)
    let file ← x.edits.foldlM (fun f edit => do
      return (← (edit f).mapError .missing).getD known.reset) file
    return if file.hasNotices then some file else none

end Fixture

/-- The notices that fixtures on a disk expect; the last of two fixtures in one place counts. -/
def Program.ofFixtures (disk : Disk) (fixtures : List Fixture) : Except FixtureError Program :=
  fixtures.foldlM (fun p x => do
    return p.setFile x.location (← x.expected disk (p.file x.location))) .empty

end NoticeCheck
