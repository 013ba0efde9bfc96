import NoticeCheck.Program

/-! Two programs side by side: the notices of every file and line on a left and a right side. -/
namespace NoticeCheck

inductive Pair where
  | same (notice : Notice)
  | different (left right : Option Notice)
  deriving DecidableEq

namespace Pair

def isSame : Pair → Bool
  | same _ => true
  | different .. => false

/-- Pair two lists by position; a side that is shorter is filled up. -/
def zip : (left right : List Notice) → List Pair
  | [], right => right.map fun want => different none (some want)
  | got :: left, [] => different (some got) none :: zip left []
  | got :: left, want :: right =>
    (if want.agrees got then same got else different (some got) (some want)) :: zip left right

end Pair

structure Sides where
  left : List Notice := []
  right : List Notice := []
  deriving DecidableEq

inductive Side where
  | left
  | right
  deriving DecidableEq

namespace Sides

def push (s : Sides) : Side → Notice → Sides
  | .left, n => { s with left := s.left ++ [n] }
  | .right, n => { s with right := s.right ++ [n] }

def split (s : Sides) : Sides :=
  ⟨Notice.splitAll s.left, Notice.splitAll s.right⟩

def pairs (s : Sides) : List Pair :=
  Pair.zip s.left s.right

end Sides

/-- Both sides by shown path and line number. -/
structure Comparison where
  files : SortedMap Text (SortedMap Nat Sides)
  deriving DecidableEq

namespace Comparison

def empty : Comparison :=
  ⟨.empty⟩

def push (root : Path) (side : Side) (c : Comparison) (n : Notice) : Comparison :=
  ⟨c.files.update (root.shown n.location) .empty fun lines =>
    lines.update n.line {} fun sides => sides.push side n⟩

/-- All notices of both programs; each side of a line is sorted for pairing and split into rows. -/
def ofPrograms (root : Path) (left right : Program) : Comparison :=
  let pushed := right.notices.foldl (push root .right)
    (left.notices.foldl (push root .left) empty)
  ⟨pushed.files.mapValues fun lines => lines.mapValues Sides.split⟩

def isEmpty (c : Comparison) : Bool :=
  c.files.entries.isEmpty

/-- Whether all pairs of all lines agree. -/
def isMatch (c : Comparison) : Bool :=
  c.files.values.all fun lines => lines.values.all fun sides => sides.pairs.all Pair.isSame

end Comparison

end NoticeCheck
