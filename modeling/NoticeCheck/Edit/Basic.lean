import NoticeCheck.Machine
import NoticeCheck.Target

/-!
Edits of one level of the notice tree. An edit gives a new value, removes it by giving none, or
fails on a missing target; what it remembers survives a failure.
-/
namespace NoticeCheck

abbrev Edit (α : Type) :=
  Machine α (Except Missing (Option α))

/-- A computation that may fail on a missing target and keeps a memory either way. -/
abbrev EditM (σ : Type) :=
  ExceptT Missing (StateM σ)

namespace Edit

variable {α : Type}

def perform (e : Edit α) (a : α) : EditM e.Memory (Option α) :=
  ExceptT.mk (e.step a)

def ofFunction (f : α → Except Missing (Option α)) : Edit α :=
  Machine.ofFunction f

/-- Replace every value by its image. -/
def map (f : α → α) : Edit α :=
  ofFunction fun a => pure (some (f a))

def keep : Edit α :=
  map id

def remove : Edit α :=
  ofFunction fun _ => pure none

/-- One edit, then another on its result; a removal or a failure ends it. -/
def andThen (e f : Edit α) : Edit α where
  Memory := e.Memory × f.Memory
  start := (e.start, f.start)
  step a := do
    match ← onFirst (e.step a) with
    | .ok (some b) => onSecond (f.step b)
    | done => pure done

def sequence : List (Edit α) → Edit α
  | [] => keep
  | e :: es => e.andThen (sequence es)

/-- Perform an edit a number of times, each time on the last result. -/
def performTimes (e : Edit α) : Nat → α → EditM e.Memory (Option α)
  | 0, a => pure (some a)
  | n + 1, a => do
    match ← e.perform a with
    | some b => performTimes e n b
    | none => pure none

/-- One edit repeated; it remembers across the repetitions. -/
def repeated (times : Nat) (e : Edit α) : Edit α where
  Memory := e.Memory
  start := e.start
  step a := (e.performTimes times a).run

/-- Perform the edit on the first call only; later values pass unchanged. -/
def once (e : Edit α) : Edit α where
  Memory := Bool × e.Memory
  start := (false, e.start)
  step a := do
    let (fired, _) ← get
    if fired then pure (.ok (some a))
    else
      modify fun (_, memory) => (true, memory)
      onSecond (e.step a)

end Edit

end NoticeCheck
