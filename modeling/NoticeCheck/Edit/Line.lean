import NoticeCheck.Edit.Basic
import NoticeCheck.Line
import NoticeCheck.Selector

/-! Edits of the notices on one line. A line left without notices is removed. -/
namespace NoticeCheck.Edit

/-- Append the notices made from the line as it is. -/
def append (make : Line → List (Option Notice)) : Edit Line :=
  ofFunction fun l => pure (l.append? (make l))

/-- Keep the accepted notices; the line stays even when none is left. -/
def retain (s : Selector) : Edit Line where
  Memory := s.Memory
  start := s.start
  step l := do
    let kept ← l.notices.filterMapM fun n => return if ← s.step n then some n else none
    pure (.ok (some { l with notices := kept }))

/--
Edit the last notice that the selector accepts, asking from the last one backwards. With none
accepted, either fail or append what the edit makes of an empty note.
-/
def latest (s : Selector) (mustExist : Bool) (e : Edit Notice) : Edit Line where
  Memory := s.Memory × e.Memory
  start := (s.start, e.start)
  step l := ExceptT.run do
    match ← (onFirst (s.latest? l.notices) : StateM (s.Memory × e.Memory) _) with
    | some (before, n, after) =>
      let edited ← ExceptT.mk (onSecond (e.step n))
      pure (l.withNotices? (before.map some ++ edited :: after.map some))
    | none =>
      if mustExist then
        throw (Missing.atTarget l.location (.line l.number) (some l.number))
      let edited ← ExceptT.mk (onSecond (e.step (l.notice .note [])))
      pure (l.withNotices? (l.notices.map some ++ [edited]))

/-- Edit every notice with an agreeing severity and a message that begins with `start`. -/
def onMatch (start : Text) (severity : Severity) (e : Edit Notice) : Edit Line where
  Memory := e.Memory
  start := e.start
  step l := ExceptT.run do
    let edited ← l.notices.mapM fun n =>
      if severity.agrees n.severity && n.message.startsWith start then e.perform n
      else pure (some n)
    pure (l.withNotices? edited)

end NoticeCheck.Edit
