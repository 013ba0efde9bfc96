import NoticeCheck.Notice

/-! The notices recorded for one line of a file. -/
namespace NoticeCheck

structure Line where
  location : Path
  number : Nat
  notices : List Notice
  deriving DecidableEq

namespace Line

def empty (location : Path) (number : Nat) : Line :=
  ⟨location, number, []⟩

def hasNotices (l : Line) : Bool :=
  !l.notices.isEmpty

/-- A notice about this line; it is not recorded. -/
def notice (l : Line) (severity : Severity) (message : Text) : Notice :=
  ⟨l.location, l.number, none, severity, message⟩

/-- The line with the given notices, absent ones left out; none when nothing is left. -/
def withNotices? (l : Line) (notices : List (Option Notice)) : Option Line :=
  match notices.reduceOption with
  | [] => none
  | kept => some { l with notices := kept }

/-- As `withNotices?`, but a line may end up empty. -/
def withNotices (l : Line) (notices : List (Option Notice)) : Line :=
  { l with notices := notices.reduceOption }

def retain (l : Line) (keep : Notice → Bool) : Line :=
  { l with notices := l.notices.filter keep }

def append? (l : Line) (made : List (Option Notice)) : Option Line :=
  l.withNotices? (l.notices.map some ++ made)

theorem reduceOption_map_some (notices : List Notice) :
    (notices.map some).reduceOption = notices := by
  change (notices.map some).filterMap id = notices
  rw [List.filterMap_map]
  exact List.filterMap_some

/-- Equal up to `Notice.same` and the spelling of the location. -/
def same (l m : Line) : Bool :=
  l.location.same m.location && l.number == m.number &&
    l.notices.length == m.notices.length && (l.notices.zip m.notices).all fun (a, b) => a.same b

end Line

end NoticeCheck
