import NoticeCheck.File

/-! The notices of a program, by file. -/
namespace NoticeCheck

structure Program where
  files : SortedMap Path File
  deriving DecidableEq

namespace Program

def empty : Program :=
  ⟨.empty⟩

def notices (p : Program) : List Notice :=
  p.files.values.flatMap File.notices

def hasNotices (p : Program) : Bool :=
  p.files.values.any File.hasNotices

def file? (p : Program) (location : Path) : Option File :=
  p.files.get? location

/-- The file as recorded, or an empty one. -/
def file (p : Program) (location : Path) : File :=
  (p.file? location).getD (.empty location)

/-- Replace a file, or remove it. -/
def setFile (p : Program) (location : Path) (file : Option File) : Program :=
  ⟨p.files.put location file⟩

def setFiles (p : Program) (files : List (Path × Option File)) : Program :=
  files.foldl (fun p (location, file) => p.setFile location file) p

/-- Record a notice as it is in the file at its location. -/
def record (p : Program) (n : Notice) : Program :=
  p.setFile n.location (some ((p.file n.location).record n))

/-- Edit the file at a location: `edit` sees the file as recorded or an empty one. -/
def editFile {m : Type → Type} [Monad m] [MonadExceptOf Missing m] (location : Path)
    (mustExist : Bool) (edit : File → m (Option File)) (p : Program) : m Program :=
  if (p.file? location).isNone && mustExist then throw (Missing.file location)
  else p.setFile location <$> edit (p.file location)

/-- Equal up to the spelling of locations and wildcard severities. -/
def same (p q : Program) : Bool :=
  p.files.agrees File.same q.files

end Program

end NoticeCheck
