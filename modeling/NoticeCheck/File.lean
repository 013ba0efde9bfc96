import NoticeCheck.Line
import NoticeCheck.SortedMap
import NoticeCheck.Target

/-! The notices of one file, by line, and the names registered for its lines. -/
namespace NoticeCheck

structure File where
  location : Path
  lines : SortedMap Nat Line
  names : SortedMap Text Nat
  deriving DecidableEq

namespace File

def empty (location : Path) : File :=
  ⟨location, .empty, .empty⟩

def notices (f : File) : List Notice :=
  f.lines.values.flatMap Line.notices

def hasNotices (f : File) : Bool :=
  f.lines.values.any Line.hasNotices

def line? (f : File) (number : Nat) : Option Line :=
  f.lines.get? number

/-- The line as recorded, or an empty one. -/
def line (f : File) (number : Nat) : Line :=
  (f.line? number).getD (.empty f.location number)

def lineNumber? (f : File) : Target → Option Nat
  | .line number => some number
  | .name text => f.names.get? text

def setName (f : File) (name : Text) (number : Nat) : File :=
  { f with names := f.names.insert name number }

/-- Replace a line, or remove it. -/
def setLine (f : File) (number : Nat) (line : Option Line) : File :=
  { f with lines := f.lines.put number line }

def setLines (f : File) (lines : List (Nat × Option Line)) : File :=
  lines.foldl (fun f (number, line) => f.setLine number line) f

/-- Forget all notices but keep the names. -/
def clear (f : File) : File :=
  { f with lines := .empty }

/-- Forget all notices and names. -/
def reset (f : File) : File :=
  .empty f.location

/-- Record a notice as it is on the line with its number. -/
def record (f : File) (n : Notice) : File :=
  let l := f.line n.line
  f.setLine n.line (some { l with notices := l.notices ++ [n] })

/-- What has to exist for an edit of a line. -/
structure Demands where
  name : Bool := true
  line : Bool := true

/--
Edit the line at a target: `edit` sees the line as recorded or an empty one, and removes it by
returning none. A name that is unknown, and need not be known, changes nothing.
-/
def editLine {m : Type → Type} [Monad m] [MonadExceptOf Missing m] (target : Target)
    (demands : Demands) (edit : Line → m (Option Line)) (f : File) : m File :=
  let number := f.lineNumber? target
  let existing := number.bind f.line?
  if (number.isNone && demands.name) || (existing.isNone && demands.line) then
    throw (Missing.atTarget f.location target number)
  else match number with
    | none => pure f
    | some number => f.setLine number <$> edit (f.line number)

/-- Equal up to the spelling of locations and wildcard severities. -/
def same (f g : File) : Bool :=
  f.location.same g.location && f.lines.agrees Line.same g.lines &&
    f.names.agrees (· == ·) g.names

end File

end NoticeCheck
