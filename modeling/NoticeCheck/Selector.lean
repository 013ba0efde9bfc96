import NoticeCheck.Machine
import NoticeCheck.Notice

/-! Selectors of notices. They may remember the notices they have been asked about. -/
namespace NoticeCheck

abbrev Selector :=
  Machine Notice Bool

/-- Conditions on a notice and on how often the selector has been asked. -/
structure Conditions where
  severity : Option Severity := none
  start : Text := []
  fragment : Text := []
  reveal : Option Bool := none
  call : Option Nat := none

/-- Whether a notice meets the conditions on the `count`-th call. -/
def Conditions.hold (c : Conditions) (count : Nat) (n : Notice) : Bool :=
  c.severity.all (·.agrees n.severity) && n.message.startsWith c.start &&
    n.message.contains c.fragment && c.reveal.all (· == n.isReveal) && c.call.all (· == count)

namespace Selector

def ofFunction (accepts : Notice → Bool) : Selector :=
  Machine.ofFunction accepts

/-- Calls are counted from one. -/
def ofConditions (c : Conditions) : Selector where
  Memory := Nat
  start := 0
  step n := do
    modify (· + 1)
    return c.hold (← get) n

/-- Ask about notices from the last to the first; the first accepted one, between its neighbours. -/
def scanBack {σ : Type} (accepts : Notice → StateM σ Bool) :
    (earlier later : List Notice) → StateM σ (Option (List Notice × Notice × List Notice))
  | [], _ => pure none
  | n :: earlier, later => do
    if ← accepts n then pure (some (earlier.reverse, n, later))
    else scanBack accepts earlier (n :: later)

/-- The last accepted notice, with those before and those after it. -/
def latest? (s : Selector) (notices : List Notice) :
    StateM s.Memory (Option (List Notice × Notice × List Notice)) :=
  scanBack s.step notices.reverse []

end Selector

end NoticeCheck
