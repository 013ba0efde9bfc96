import NoticeCheck.Edit.Basic
import NoticeCheck.Selector

/-! Normalisers see every reported notice before it is recorded, and replace or drop it. -/
namespace NoticeCheck

abbrev Normaliser :=
  Machine Notice (Option Notice)

namespace Normaliser

def ofFunction (f : Notice → Option Notice) : Normaliser :=
  Machine.ofFunction f

/-- An edit as a normaliser; a notice whose edit fails stays as it is. -/
def ofEdit (e : Edit Notice) : Normaliser where
  Memory := e.Memory
  start := e.start
  step n := do
    match ← e.step n with
    | .ok edited => pure edited
    | .error _ => pure (some n)

/-- The edit `e` for accepted notices only. -/
def onlyFor (s : Selector) (e : Edit Notice) : Edit Notice where
  Memory := s.Memory × e.Memory
  start := (s.start, e.start)
  step n := do
    if ← onFirst (s.step n) then onSecond (e.step n) else pure (.ok (some n))

/-- Rules in order: an accepting rule edits the notice, and a dropped notice meets no later rule. -/
def ofRules (rules : List (Selector × Edit Notice)) : Normaliser :=
  ofEdit (Edit.sequence (rules.map fun (s, e) => onlyFor s e))

end Normaliser

end NoticeCheck
