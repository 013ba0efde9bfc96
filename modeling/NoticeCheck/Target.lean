import NoticeCheck.Path

/-! Targets of edits inside a file, and the error for one that is not there. -/
namespace NoticeCheck

/-- A line of a file, by number or by a name registered for it. -/
inductive Target where
  | name (text : Text)
  | line (number : Nat)
  deriving DecidableEq

def Target.display : Target → Text
  | name text => text
  | line number => Text.ofNat number

/-- Notices that had to exist were not found. -/
structure Missing where
  location : Path
  line : Option Nat
  name : Option Text
  deriving DecidableEq

namespace Missing

def file (location : Path) : Missing :=
  ⟨location, none, none⟩

/-- Nothing at `target`, which stands for the line `line` if it resolves at all. -/
def atTarget (location : Path) (target : Target) (line : Option Nat) : Missing :=
  match target with
  | .name text => ⟨location, line, some text⟩
  | .line _ => ⟨location, line, none⟩

def message (m : Missing) : Text :=
  let line := match m.line with
    | some n => ':' :: Text.ofNat n
    | none => []
  let name := match m.name with
    | some text => " (".toList ++ text ++ [')']
    | none => []
  "Failed to find registered notices for ".toList ++ m.location.spelling ++ line ++ name

end Missing

end NoticeCheck
