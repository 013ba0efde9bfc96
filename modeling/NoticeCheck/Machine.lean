/-!
Machines: functions that may remember their earlier calls. The memory belongs to the machine, so
that one machine used twice goes on where it stopped.
-/
namespace NoticeCheck

structure Machine (α β : Type) where
  Memory : Type
  start : Memory
  step : α → StateM Memory β

namespace Machine

variable {α β : Type}

/-- A function as a machine without memory. -/
def ofFunction (f : α → β) : Machine α β where
  Memory := Unit
  start := ()
  step a := pure (f a)

/-- The answer of the first call. -/
def run (m : Machine α β) (a : α) : β :=
  ((m.step a).run m.start).1

/-- The answer of the next call and the machine after it. -/
def call (m : Machine α β) (a : α) : β × Machine α β :=
  let (b, memory) := (m.step a).run m.start
  (b, { m with start := memory })

/-- The answers to a sequence of calls. -/
def answers (m : Machine α β) (as : List α) : List β :=
  ((as.mapM m.step).run m.start).1

end Machine

/-- Act on the first half of a memory. -/
def onFirst {σ τ β : Type} (x : StateM σ β) : StateM (σ × τ) β := do
  let (s, t) ← get
  let (b, s') := x.run s
  set (s', t)
  pure b

/-- Act on the second half of a memory. -/
def onSecond {σ τ β : Type} (x : StateM τ β) : StateM (σ × τ) β := do
  let (s, t) ← get
  let (b, t') := x.run t
  set (s, t')
  pure b

end NoticeCheck
