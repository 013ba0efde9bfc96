import NoticeCheck.Edit.Line
import NoticeCheck.Program

/-! Edits of a file through one of its lines, and of a program through one of its files. -/
namespace NoticeCheck.Edit

/-- Edit a line of the file; the file itself is never removed. -/
def inLine (target : Target) (demands : File.Demands) (e : Edit Line) : Edit File where
  Memory := e.Memory
  start := e.start
  step f := ExceptT.run (some <$> f.editLine target demands e.perform)

/-- Edit a file of the program; the program itself is never removed. -/
def inFile (location : Path) (mustExist : Bool) (e : Edit File) : Edit Program where
  Memory := e.Memory
  start := e.start
  step p := ExceptT.run (some <$> p.editFile location mustExist e.perform)

end NoticeCheck.Edit
