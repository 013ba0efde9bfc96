import NoticeCheck.Proofs.Keeping

/-!
The operations on a program: edits of one line or of a whole file, the notices of a transcript, and
a fixture that was read. Whatever an edit of a line leaves of it is that line with other notices.
-/
namespace NoticeCheck

/--
An edit of one line. What it makes, accepts or changes may be anything; one that remembers earlier
calls starts where they left it.
-/
inductive LineOperation where
  | append (make : Line → List (Option Notice))
  | latest (s : Selector) (mustExist : Bool) (e : Edit Notice)
  | onMatch (start : Text) (severity : Severity) (e : Edit Notice)

/-- An edit of a file, of one of its lines or of all of it. -/
inductive FileOperation where
  | line (target : Target) (demands : File.Demands) (op : LineOperation)
  | expect (name : Text) (e : Expectation) (replacing : Bool)
  | eraseFromReveals (name fragment : Text) (mustExist : Bool)
  | setName (name : Text) (number : Nat)
  | clear (names : Bool)

inductive Operation where
  | editFile (location : Path) (mustExist : Bool) (op : FileOperation)
  | addLines (normaliser : Normaliser) (root : Path) (lines : List Text)
  /-- Read a fixture and store the notices it expects as the file they are about. -/
  | setFixture (probe source : Text) (known : File)

def LineOperation.edit : LineOperation → Edit Line
  | append make => .append make
  | latest s mustExist e => .latest s mustExist e
  | onMatch start severity e => .onMatch start severity e

def FileOperation.perform (op : FileOperation) (f : File) : Except Missing File :=
  match op with
  | line target demands op => f.editLine target demands op.edit.run
  | expect name e replacing => f.expect name e replacing
  | eraseFromReveals name fragment mustExist => f.eraseFromReveals name fragment mustExist
  | setName name number => pure (f.setName name number)
  | clear names => pure (if names then f.reset else f.clear)

/-- The program after an operation; one that fails leaves it as it was. -/
def Program.perform (p : Program) : Operation → Program
  | .editFile location mustExist op =>
    (p.editFile location mustExist fun f => some <$> op.perform f).toOption.getD p
  | .addLines normaliser root lines => (p.addLines normaliser root lines).toOption.getD p
  | .setFixture probe source known =>
    ((readFixture probe source known).map fun (_, f) =>
      p.setFile f.location (some f)).toOption.getD p

/-- What an expectation makes of a line. -/
def Expectation.edit (e : Expectation) (replacing : Bool) (l : Line) :
    Except Missing (Option Line) :=
  let l := if replacing then l.retain fun n => !e.supersedes n else l
  pure (l.append? ((e.made l).map some))

/-- What erasing a fragment makes of a line called `name`. -/
def Line.erase (name fragment : Text) (mustExist : Bool) (l : Line) :
    Except Missing (Option Line) :=
  let affected (n : Notice) : Bool := n.isReveal && n.message.contains fragment
  if mustExist && !l.notices.any affected then
    throw (Missing.atTarget l.location (.name name) (some l.number))
  else
    pure (l.withNotices? (l.notices.map fun n =>
      some (if affected n then { n with message := n.message.eraseAll fragment } else n)))

/-- The line that an operation edits and its edit; none for an edit of all of the file. -/
def FileOperation.lineEdit? : FileOperation →
    Option (Target × File.Demands × (Line → Except Missing (Option Line)))
  | line target demands op => some (target, demands, op.edit.run)
  | expect name e replacing => some (.name name, { line := false }, e.edit replacing)
  | eraseFromReveals name fragment mustExist =>
    some (.name name, { line := false }, Line.erase name fragment mustExist)
  | setName .. | clear _ => none

/-- What a task of a fixture does to its file, as an operation. -/
def Reading.Task.operation (number : Nat) (task : Task) : FileOperation :=
  match task with
  | name text => .setName text number
  | reveal revealed => .line (.line number) { line := false }
      (.append fun l => [some (l.notice .note (Notice.revealMessage revealed))])
  | error subtype message => .line (.line number) { line := false }
      (.append fun l => [some (l.notice (.error subtype) message)])
  | note message => .line (.line number) { line := false } (.latest plainNote false (.map fun n =>
      let merged := if n.message = [] then message else n.message ++ '\n' :: message
      { n with severity := .note, message := merged }))

theorem Reading.Task.perform_operation (number : Nat) (f : File) (task : Task) :
    (task.operation number).perform f = task.perform number f := by
  cases task <;> rfl

namespace LineOperation

/-- An edit that ends with other notices for the line. -/
private theorem refills_of_bind {σ α : Type} {x : EditM σ α} {s : σ} {l l' : Line}
    {notices : α → List (Option Notice)}
    (h : ((x >>= fun a => pure (l.withNotices? (notices a))).run.run s).1 = .ok (some l')) :
    l.Refills l' := by
  rw [Reading.run_exceptT_bind] at h
  split at h
  · exact Line.refills_of_withNotices? (Except.ok.inj h)
  · cases h

private theorem refills_latest {s : Selector} {mustExist : Bool} {e : Edit Notice} {l l' : Line}
    (h : (Edit.latest s mustExist e).run l = .ok (some l')) : l.Refills l' := by
  rw [Edit.latest, Machine.run] at h
  dsimp only at h
  rw [Reading.run_liftM_bind] at h
  split at h
  · exact refills_of_bind h
  · cases mustExist with
    | false => exact refills_of_bind h
    | true => cases h

private theorem refills_onMatch {start : Text} {severity : Severity} {e : Edit Notice} {l l' : Line}
    (h : (Edit.onMatch start severity e).run l = .ok (some l')) : l.Refills l' := by
  rw [Edit.onMatch, Machine.run] at h
  exact refills_of_bind h

/-- What is left of a line is that line with other notices. -/
theorem refills {op : LineOperation} {l l' : Line} (h : op.edit.run l = .ok (some l')) :
    l.Refills l' := by
  cases op with
  | append make => exact Line.refills_of_withNotices? (Except.ok.inj h)
  | latest s mustExist e => exact refills_latest h
  | onMatch start severity e => exact refills_onMatch h

end LineOperation

theorem Expectation.refills {e : Expectation} {replacing : Bool} {l l' : Line}
    (h : e.edit replacing l = .ok (some l')) : l.Refills l' := by
  obtain ⟨notices, hnotices, rfl⟩ := Line.refills_of_withNotices? (Except.ok.inj h)
  cases replacing <;> exact ⟨notices, hnotices, rfl⟩

theorem Line.refills_erase {name fragment : Text} {mustExist : Bool} {l l' : Line}
    (h : l.erase name fragment mustExist = .ok (some l')) : l.Refills l' := by
  unfold erase at h
  dsimp only at h
  split at h
  · cases h
  · exact refills_of_withNotices? (Except.ok.inj h)

namespace FileOperation

variable {op : FileOperation} {target : Target} {demands : File.Demands}
  {edit : Line → Except Missing (Option Line)}

theorem perform_of_lineEdit? (h : op.lineEdit? = some (target, demands, edit)) (f : File) :
    op.perform f = f.editLine target demands edit := by
  cases op <;> cases h <;> rfl

theorem refills_of_lineEdit? (h : op.lineEdit? = some (target, demands, edit)) {l l' : Line}
    (hl : edit l = .ok (some l')) : l.Refills l' := by
  cases op with
  | line _ _ op => cases h; exact LineOperation.refills hl
  | expect name e replacing => cases h; exact Expectation.refills hl
  | eraseFromReveals name fragment mustExist => cases h; exact Line.refills_erase hl
  | setName name number => cases h
  | clear names => cases h

end FileOperation

/-- An operation on a file leaves it kept, and at its location. -/
theorem File.IsKept.perform {f g : File} (hf : f.IsKept) {op : FileOperation}
    (h : op.perform f = .ok g) : g.IsKept ∧ g.location = f.location := by
  cases hedit : op.lineEdit? with
  | some e =>
    obtain ⟨target, demands, edit⟩ := e
    rw [FileOperation.perform_of_lineEdit? hedit] at h
    rcases eq_of_editLine h with ⟨-, rfl⟩ | ⟨number, line, -, hline, rfl⟩
    · exact ⟨hf, rfl⟩
    · refine ⟨hf.setLine fun l hl => hf.isKept_of_refills ?_, rfl⟩
      exact FileOperation.refills_of_lineEdit? hedit (hl ▸ hline)
  | none =>
    cases op with
    | setName name number =>
      obtain rfl := Except.ok.inj h
      exact ⟨hf, rfl⟩
    | clear names =>
      obtain rfl := Except.ok.inj h
      cases names <;> exact ⟨nofun, rfl⟩
    | line | expect | eraseFromReveals => cases hedit

end NoticeCheck
