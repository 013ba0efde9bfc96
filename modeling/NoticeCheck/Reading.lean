import NoticeCheck.Directive
import NoticeCheck.Edit.File
import NoticeCheck.Layout

/-!
Reading a fixture: its directives become expected notices, and lines described by a reveal become
probes. All work is planned against slots first and then done at the numbers of the final rows.
-/
namespace NoticeCheck

/-- Why a fixture cannot be read. -/
inductive ReadingError where
  | directive (fault : Directive.Fault) (line : Text)
  /-- A directive with no line above it to describe. -/
  | orphan (line : Text)
  /-- A reveal that describes a blank line. -/
  | nothingToReveal (line : Text)
  | missing (missing : Missing)
  /-- A slot outside the layout. -/
  | unknownSlot (slot : Slot)
  deriving DecidableEq

def ReadingError.message : ReadingError → Text
  | directive fault line => fault.message ++ ": ".toList ++ line
  | orphan line => "Expectations must come after the line they describe: ".toList ++ line
  | nothingToReveal line => "REVEAL must follow a line with an expression: ".toList ++ line
  | missing m => m.message
  | unknownSlot _ => "Unknown slot".toList

namespace Reading

/-- What a directive asks for at its slot. -/
inductive Task where
  | name (text : Text)
  | reveal (revealed : Text)
  | error (subtype message : Text)
  | note (message : Text)
  deriving DecidableEq

structure Plan where
  layout : Layout
  tasks : List (Slot × Task)
  /-- The slot that a directive on the next line describes. -/
  described : Option Slot
  deriving DecidableEq

/-- A line that is no more than a name being assigned or declared; gives the name. -/
def assigned? (line : Text) : Option Text :=
  let isWord (c : Char) := c.isAlphanum || c == '_'
  let name := line.takeWhile isWord
  let rest : Text := line.dropWhile isWord
  let isEnd : Bool := match rest.skipBlanks with
    | [] => true
    | '=' :: _ => true
    | ':' :: c :: _ => c != '='
    | _ => false
  if name ≠ [] ∧ isEnd then some name else none

/-- A call of the probe with at least one character of an argument. -/
def isProbe (probe line : Text) : Bool :=
  match line.after? (probe ++ ['(']) with
  | some (c :: _) => c != ')'
  | _ => false

def call (indent probe argument : Text) : Text :=
  indent ++ probe ++ '(' :: argument ++ [')']

/-- Make sure that a slot holds a probe; gives the slot of the probe, which may be inserted. -/
def revealAt (probe indent line : Text) (layout : Layout) (slot : Slot) :
    Except ReadingError (Layout × Slot) :=
  match layout.text? slot with
  | none => throw (.unknownSlot slot)
  | some text =>
    let text := text.trim
    if text = [] then throw (.nothingToReveal line)
    else if isProbe probe text then pure (layout, slot)
    else
      let planned := match assigned? text with
        | some name => layout.insertBelow? slot (call indent probe name)
        | none => (layout.replace? slot (call indent probe text)).map fun l => (l, slot)
      match planned with
      | some planned => pure planned
      | none => throw (.unknownSlot slot)

/-- A probe inserted below a line takes over all work planned for that line. -/
def retarget (source target : Slot) (tasks : List (Slot × Task)) : List (Slot × Task) :=
  tasks.map fun (slot, task) => (if slot = source then target else slot, task)

/-- The tasks of a directive: its notice, then its name. -/
def tasksOf (d : Directive) : List Task :=
  let notice := match d.instruction with
    | .name => []
    | .reveal => [.reveal d.payload]
    | .error subtype => [.error subtype d.payload]
    | .note => [.note d.payload]
  notice ++ (d.name.map Task.name).toList

/-- Plan for the line with index `index`. -/
def Plan.addLine (probe : Text) (plan : Plan) (line : Text) (index : Nat) :
    Except ReadingError Plan :=
  match Directive.parse line with
  | .error fault => throw (.directive fault line)
  | .ok none => pure { plan with described := some (.source index) }
  | .ok (some d) =>
    match plan.described with
    | none => throw (.orphan line)
    | some slot => do
      let (layout, target) ←
        if d.instruction = .reveal then revealAt probe d.indent line plan.layout slot
        else pure (plan.layout, slot)
      return {
        layout
        tasks := retarget slot target plan.tasks ++ (tasksOf d).map fun task => (target, task)
        described := some target }

def Plan.ofText (probe source : Text) : Except ReadingError Plan :=
  source.rows.zipIdx.foldlM (fun plan (line, index) => plan.addLine probe line index)
    ⟨.ofText source, [], none⟩

/-- Append one notice to a line. -/
def append (number : Nat) (severity : Severity) (message : Text) (f : File) :
    Except Missing File :=
  f.editLine (.line number) { line := false } fun l =>
    pure (l.append? [some (l.notice severity message)])

/-- Accepts a plain note unless anything else was asked about before it. -/
def plainNote : Selector where
  Memory := Bool
  start := false
  step n := do
    if ← get then return false
    let accepted := n.severity.isNote && !n.isReveal
    set !accepted
    return accepted

/-- Extend the last notice of a line if that is a plain note, or else start a new note. -/
def mergeNote (number : Nat) (message : Text) (f : File) : Except Missing File :=
  let extend (n : Notice) : Notice :=
    let merged := if n.message = [] then message else n.message ++ '\n' :: message
    { n with severity := .note, message := merged }
  f.editLine (.line number) { line := false }
    (Edit.latest plainNote false (Edit.map extend)).run

def Task.perform (number : Nat) (f : File) : Task → Except Missing File
  | name text => pure (f.setName text number)
  | reveal revealed => append number .note (Notice.revealMessage revealed) f
  | error subtype message => append number (.error subtype) message f
  | note message => mergeNote number message f

/-- Do the planned work in order on a file, at the numbers of the final rows. -/
def Plan.perform (plan : Plan) (f : File) : Except ReadingError (Text × File) :=
  match plan.layout.result? with
  | none => throw (.unknownSlot (.source plan.layout.rows.length))
  | some result => do
    let file ← plan.tasks.foldlM (fun (f : File) (slot, task) =>
      match result.number? slot with
      | none => throw (.unknownSlot slot)
      | some number => (task.perform number f).mapError .missing) f
    return (result.text, file)

end Reading

def defaultProbe : Text :=
  "reveal_type".toList

/--
Read a fixture: its revised text and the notices it expects. Of the file known before only the
location is kept.
-/
def readFixture (probe source : Text) (known : File) : Except ReadingError (Text × File) := do
  (← Reading.Plan.ofText probe source).perform known.reset

end NoticeCheck
