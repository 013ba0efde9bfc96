import NoticeCheck.Proofs.Operation

/-!
Operations with an assertion in front of every line and file that is stored. On a program that keeps
its files and lines where they belong no assertion fails, so that asserting makes no difference.
-/
namespace NoticeCheck

section

variable {m : Type → Type} [Monad m] [MonadExceptOf Missing m]

/-- As `editLine`; a line is about this file and has the number that it is stored under. -/
def File.editLineAsserting (target : Target) (demands : Demands) (edit : Line → m (Option Line))
    (f : File) : OptionT m File :=
  f.editLine target demands fun l => do
    let line ← OptionT.lift (edit l)
    guard (line.all fun l' =>
      f.lineNumber? target == some l'.number && l'.location.same f.location)
    return line

/-- As `editFile`; a file is stored under its own location. -/
def Program.editFileAsserting (location : Path) (mustExist : Bool)
    (edit : File → OptionT m (Option File)) (p : Program) : OptionT m Program :=
  p.editFile location mustExist fun f => do
    let file ← edit f
    guard (file.all fun f' => f'.location.same location)
    return file

end

/-- As `perform`, with assertions; no result when one of them fails. -/
def FileOperation.performAsserting (op : FileOperation) (f : File) :
    OptionT (Except Missing) File :=
  match op.lineEdit? with
  | some (target, demands, edit) => f.editLineAsserting target demands edit
  | none => .lift (op.perform f)

namespace Reading

/-- One planned task, at the number of its slot. -/
def performTask (result : Layout.Result) (f : File) : Slot × Task → Except ReadingError File
  | (slot, task) =>
    match result.number? slot with
    | none => throw (.unknownSlot slot)
    | some number => (task.perform number f).mapError .missing

def performTaskAsserting (result : Layout.Result) (f : File) :
    Slot × Task → OptionT (Except ReadingError) File
  | (slot, task) =>
    match result.number? slot with
    | none => throwThe ReadingError (.unknownSlot slot)
    | some number => OptionT.mk
      (((task.operation number).performAsserting f).run.mapError .missing)

def Plan.performAsserting (plan : Plan) (f : File) :
    OptionT (Except ReadingError) (Text × File) :=
  match plan.layout.result? with
  | none => throwThe ReadingError (.unknownSlot (.source plan.layout.rows.length))
  | some result => do
    let file ← plan.tasks.foldlM (performTaskAsserting result) f
    return (result.text, file)

end Reading

def readFixtureAsserting (probe source : Text) (known : File) :
    OptionT (Except ReadingError) (Text × File) := do
  (← OptionT.lift (Reading.Plan.ofText probe source)).performAsserting known.reset

namespace Program

def addPrintedAsserting (normaliser : Normaliser) (root : Path) (p : Program) (line : Text) :
    OptionT (ExceptT TranscriptError (StateM normaliser.Memory)) Program :=
  match PrintedNotice.parse line with
  | .error fault => throwThe TranscriptError (.ofFault line fault)
  | .ok printed =>
    let append (l : Line) : EditM normaliser.Memory (Option Line) := do
      let n := { l.notice printed.severity printed.message with column := printed.column }
      return l.append? [← normaliser.step n]
    let inLine (f : File) : OptionT (EditM normaliser.Memory) (Option File) :=
      some <$> f.editLineAsserting (.line printed.line) { line := false } append
    OptionT.mk (ExceptT.adapt .missing
      (p.editFileAsserting (root.join printed.path) false inLine).run)

def addLinesAsserting (normaliser : Normaliser) (root : Path) (p : Program) (lines : List Text) :
    OptionT (Except TranscriptError) Program :=
  OptionT.mk ((lines.foldlM (addPrintedAsserting normaliser root) p).run.run.run
    normaliser.start).1

/-- The program after an attempt: as it was after a failure, none after a failed assertion. -/
def attempt {ε : Type} (p : Program) (x : OptionT (Except ε) Program) : Option Program :=
  match x.run with
  | .error _ => some p
  | .ok q => q

/-- As `perform`, with assertions; no result when one of them fails. -/
def performAsserting (p : Program) : Operation → Option Program
  | .editFile location mustExist op =>
    p.attempt (p.editFileAsserting location mustExist fun f => some <$> op.performAsserting f)
  | .addLines normaliser root lines => p.attempt (p.addLinesAsserting normaliser root lines)
  | .setFixture probe source known => p.attempt do
    let (_, f) ← readFixtureAsserting probe source known
    guard (f.location.same f.location)
    return p.setFile f.location (some f)

end Program

/-- Only the line that a target stands for is edited. -/
theorem File.editLine_congr {m : Type → Type} [Monad m] [MonadExceptOf Missing m] {f : File}
    {target : Target} (demands : Demands) {edit edit' : Line → m (Option Line)}
    (h : ∀ number, f.lineNumber? target = some number →
      edit (f.line number) = edit' (f.line number)) :
    f.editLine target demands edit = f.editLine target demands edit' := by
  unfold editLine
  dsimp only
  split
  · rfl
  · split
    · rfl
    · next number hnumber => rw [h number hnumber]

theorem File.run_editLine_lift (target : Target) (demands : Demands)
    (edit : Line → Except Missing (Option Line)) (f : File) :
    (f.editLine target demands fun l => OptionT.lift (edit l)).run =
      (f.editLine target demands edit).map some := by
  unfold editLine
  dsimp only
  split
  · rfl
  · split
    · rfl
    · next number _ => cases edit (f.line number) <;> rfl

/-- Only the file at the location is edited. -/
theorem Program.editFile_congr {m : Type → Type} [Monad m] [MonadExceptOf Missing m]
    {p : Program} {location : Path} (mustExist : Bool) {edit edit' : File → m (Option File)}
    (h : edit (p.file location) = edit' (p.file location)) :
    p.editFile location mustExist edit = p.editFile location mustExist edit' := by
  unfold editFile
  rw [h]

theorem Program.run_editFile_lift (location : Path) (mustExist : Bool)
    (edit : File → Except Missing (Option File)) (p : Program) :
    (p.editFile location mustExist fun f => OptionT.lift (edit f)).run =
      (p.editFile location mustExist edit).map some := by
  unfold editFile
  split
  · rfl
  · dsimp only
    cases edit (p.file location) <;> rfl

/-- A test that the result passes is no different from no test. -/
private theorem lift_bind_guard_except {ε α : Type} {x : Except ε α} {test : α → Bool}
    (h : ∀ a, x = .ok a → test a = true) :
    (do let a ← OptionT.lift x
        guard (test a)
        return a : OptionT (Except ε) α) = OptionT.lift x := by
  cases x with
  | error e => rfl
  | ok a =>
    have htest := h a rfl
    change (guard (test a = true) >>= fun _ => pure a : OptionT (Except ε) α) = pure a
    unfold guard
    rw [if_pos htest]
    rfl

/-- On a kept file, an edit that refills lines passes the assertion. -/
theorem File.IsKept.run_editLineAsserting {f : File} (hf : f.IsKept) (target : Target)
    (demands : Demands) {edit : Line → Except Missing (Option Line)}
    (hedit : ∀ l l', edit l = .ok (some l') → l.Refills l') :
    (f.editLineAsserting target demands edit).run =
      (f.editLine target demands edit).map some := by
  rw [← run_editLine_lift]
  refine congrArg OptionT.run (editLine_congr demands fun number hnumber => ?_)
  refine lift_bind_guard_except fun line hline => ?_
  cases line with
  | none => rfl
  | some l =>
    have hl := hf.isKept_of_refills (hedit _ l hline)
    simp [hnumber, hl.number, hl.location]

theorem File.IsKept.run_performAsserting {f : File} (hf : f.IsKept) (op : FileOperation) :
    (op.performAsserting f).run = (op.perform f).map some := by
  unfold FileOperation.performAsserting
  cases hedit : op.lineEdit? with
  | none =>
    cases op.perform f <;> rfl
  | some e =>
    obtain ⟨target, demands, edit⟩ := e
    rw [FileOperation.perform_of_lineEdit? hedit]
    exact hf.run_editLineAsserting target demands fun l l' =>
      FileOperation.refills_of_lineEdit? hedit

namespace Reading

variable {result : Layout.Result} {f : File}

theorem isKept_performTask (hf : f.IsKept) {e : Slot × Task} {g : File}
    (h : performTask result f e = .ok g) : g.IsKept := by
  obtain ⟨slot, task⟩ := e
  unfold performTask at h
  dsimp only at h
  split at h
  · cases h
  · next number hnumber =>
    cases hperform : task.perform number f with
    | error e =>
      rw [hperform] at h
      cases h
    | ok g' =>
      rw [hperform] at h
      obtain rfl := Except.ok.inj h
      exact (hf.perform ((task.perform_operation number f).trans hperform)).1

theorem run_performTaskAsserting (hf : f.IsKept) (e : Slot × Task) :
    (performTaskAsserting result f e).run = (performTask result f e).map some := by
  obtain ⟨slot, task⟩ := e
  unfold performTaskAsserting performTask
  dsimp only
  split
  · rfl
  · next number _ =>
    have hrun := hf.run_performAsserting (task.operation number)
    rw [task.perform_operation] at hrun
    rw [OptionT.run_mk, hrun]
    cases task.perform number f <;> rfl

/-- The planned tasks are done without a failing assertion, and leave a kept file. -/
theorem run_foldlM_performTaskAsserting (hf : f.IsKept) (tasks : List (Slot × Task)) :
    (tasks.foldlM (performTaskAsserting result) f).run =
        (tasks.foldlM (performTask result) f).map some ∧
      ∀ g, tasks.foldlM (performTask result) f = .ok g → g.IsKept := by
  induction tasks generalizing f with
  | nil =>
    refine ⟨rfl, fun g hg => ?_⟩
    obtain rfl := Except.ok.inj hg
    exact hf
  | cons e tasks ih =>
    rw [List.foldlM_cons, List.foldlM_cons, OptionT.run_bind, run_performTaskAsserting hf]
    cases he : performTask result f e with
    | error e => exact ⟨rfl, nofun⟩
    | ok next => exact ih (isKept_performTask hf he)

theorem Plan.perform_eq (plan : Plan) (f : File) :
    plan.perform f = match plan.layout.result? with
      | none => .error (.unknownSlot (.source plan.layout.rows.length))
      | some result =>
        (plan.tasks.foldlM (performTask result) f).map fun g => (result.text, g) := rfl

theorem Plan.run_performAsserting (hf : f.IsKept) (plan : Plan) :
    (plan.performAsserting f).run = (plan.perform f).map some ∧
      ∀ t g, plan.perform f = .ok (t, g) → g.IsKept := by
  rw [Plan.perform_eq]
  unfold performAsserting
  cases plan.layout.result? with
  | none => exact ⟨rfl, nofun⟩
  | some result =>
    obtain ⟨hrun, hkept⟩ := run_foldlM_performTaskAsserting hf plan.tasks
    dsimp only
    rw [OptionT.run_bind, hrun]
    cases hfold : plan.tasks.foldlM (performTask result) f with
    | error e => exact ⟨rfl, nofun⟩
    | ok g =>
      refine ⟨rfl, fun t g' hg' => ?_⟩
      obtain ⟨-, rfl⟩ := Prod.mk.inj (Except.ok.inj hg')
      exact hkept g hfold

end Reading

/-- A fixture is read without a failing assertion, and what it expects is a kept file. -/
theorem run_readFixtureAsserting (probe source : Text) (known : File) :
    (readFixtureAsserting probe source known).run =
        (readFixture probe source known).map some ∧
      ∀ t f, readFixture probe source known = .ok (t, f) → f.IsKept := by
  unfold readFixtureAsserting readFixture
  cases Reading.Plan.ofText probe source with
  | error e => exact ⟨rfl, nofun⟩
  | ok plan => exact plan.run_performAsserting (File.isKept_empty known.location)

namespace Program

variable {p : Program}

/-- A file of a kept program may be edited by what keeps the file and its location. -/
theorem IsKept.run_editFileAsserting (hp : p.IsKept) (location : Path) (mustExist : Bool)
    {edit : File → Except Missing File} {editAsserting : File → OptionT (Except Missing) File}
    (hrun : ∀ f, f.IsKept → (editAsserting f).run = (edit f).map some)
    (hedit : ∀ f g, f.IsKept → edit f = .ok g → g.IsKept ∧ g.location = f.location) :
    (p.editFileAsserting location mustExist fun f => some <$> editAsserting f).run =
        (p.editFile location mustExist fun f => some <$> edit f).map some ∧
      ∀ q, (p.editFile location mustExist fun f => some <$> edit f) = .ok q → q.IsKept := by
  obtain ⟨hlocation, hfile⟩ := hp.file_at location
  constructor
  -- the edit runs on the file at `location` alone, which is kept; elsewhere it may fail its tests
  · have hlift : (some <$> editAsserting (p.file location) : OptionT _ _) =
        OptionT.lift (some <$> edit (p.file location)) := by
      apply OptionT.ext
      rw [OptionT.run_map, hrun _ hfile]
      cases edit (p.file location) <;> rfl
    rw [← run_editFile_lift]
    refine congrArg OptionT.run (editFile_congr mustExist ?_)
    dsimp only
    rw [hlift]
    refine lift_bind_guard_except fun file hresult => ?_
    obtain ⟨g, hg, rfl⟩ := exists_of_map_eq_ok hresult
    rw [← (hedit _ g hfile hg).2] at hlocation
    exact hlocation
  · intro q hq
    unfold editFile at hq
    split at hq
    · cases hq
    · obtain ⟨file, hresult, rfl⟩ := exists_of_map_eq_ok hq
      obtain ⟨g, hg, rfl⟩ := exists_of_map_eq_ok hresult
      obtain ⟨hkept, hsame⟩ := hedit _ g hfile hg
      exact hp.setFile (hsame ▸ hlocation) hkept

section

variable {ε σ α β γ : Type} (x : StateM σ α) (g : α → β)

private theorem map_lift (f : β → γ) :
    f <$> (OptionT.lift (do return g (← x)) : OptionT (ExceptT ε (StateM σ)) β) =
      OptionT.lift (do return f (g (← x))) := rfl

/-- A test that every result passes is no different from no test. -/
private theorem lift_bind_guard {test : β → Bool} (h : ∀ a, test (g a) = true) :
    (do let b ← OptionT.lift (do return g (← x))
        guard (test b)
        return b : OptionT (ExceptT ε (StateM σ)) β) = OptionT.lift (do return g (← x)) := by
  apply OptionT.ext
  unfold guard
  simp [h]

end

/-- The notice printed on a line is recorded without a failing assertion. -/
theorem IsKept.run_addPrintedAsserting (hp : p.IsKept) (normaliser : Normaliser) (root : Path)
    (line : Text) (s : normaliser.Memory) :
    (addPrintedAsserting normaliser root p line).run.run.run s =
        ((addPrinted normaliser root p line).run.run s).map (Except.map some) id ∧
      ∀ q, ((addPrinted normaliser root p line).run.run s).1 = .ok q → q.IsKept := by
  unfold addPrintedAsserting addPrinted
  cases PrintedNotice.parse line with
  | error fault => exact ⟨rfl, nofun⟩
  | ok n =>
    obtain ⟨hlocation, hfile⟩ := hp.file_at (root.join n.path)
    have hkept : ∀ made l, ((p.file (root.join n.path)).line n.line).append? made = some l →
        l.IsKept (p.file (root.join n.path)).location n.line := fun made l hl =>
      hfile.isKept_of_refills (Line.refills_of_withNotices? hl)
    have hline : ∀ made, ((((p.file (root.join n.path)).line n.line).append? made).all fun l' =>
        (p.file (root.join n.path)).lineNumber? (.line n.line) == some l'.number &&
          l'.location.same (p.file (root.join n.path)).location) = true := by
      intro made
      cases hl : ((p.file (root.join n.path)).line n.line).append? made with
      | none => rfl
      | some l => simp [File.lineNumber?, (hkept made l hl).number, (hkept made l hl).location]
    have hstored : ∀ line, (some ((p.file (root.join n.path)).setLine n.line line)).all
        (fun f' => f'.location.same (root.join n.path)) = true := fun _ => hlocation
    have hoptional : ¬((p.file? (root.join n.path)).isNone && false) = true := by simp
    unfold editFileAsserting editFile File.editLineAsserting
    dsimp only
    rw [if_neg hoptional, if_neg hoptional, Reading.editLine_number, Reading.editLine_number]
    rw [lift_bind_guard _ _ fun kept => hline [kept], map_lift, map_lift,
      lift_bind_guard _ _ fun kept => hstored _]
    refine ⟨rfl, fun q hq => ?_⟩
    obtain rfl := Except.ok.inj hq
    exact hp.setFile hlocation (hfile.setLine fun l hl => hkept _ l hl)

theorem IsKept.run_addLinesAsserting (hp : p.IsKept) (normaliser : Normaliser) (root : Path)
    (lines : List Text) :
    (p.addLinesAsserting normaliser root lines).run =
        (p.addLines normaliser root lines).map some ∧
      ∀ q, p.addLines normaliser root lines = .ok q → q.IsKept := by
  suffices hrun : ∀ s, (lines.foldlM (addPrintedAsserting normaliser root) p).run.run.run s =
        ((lines.foldlM (addPrinted normaliser root) p).run.run s).map (Except.map some) id ∧
      ∀ q, ((lines.foldlM (addPrinted normaliser root) p).run.run s).1 = .ok q → q.IsKept from
    ⟨congrArg Prod.fst (hrun normaliser.start).1, (hrun normaliser.start).2⟩
  induction lines generalizing p with
  | nil =>
    refine fun s => ⟨rfl, fun q hq => ?_⟩
    obtain rfl := Except.ok.inj hq
    exact hp
  | cons line lines ih =>
    intro s
    obtain ⟨hfirst, hkept⟩ := hp.run_addPrintedAsserting normaliser root line s
    rw [List.foldlM_cons, List.foldlM_cons, OptionT.run_bind, Option.elimM,
      Reading.run_exceptT_bind, Reading.run_exceptT_bind, hfirst]
    rcases hresult : (addPrinted normaliser root p line).run.run s with ⟨_ | q, s'⟩
    · exact ⟨rfl, nofun⟩
    · rw [hresult] at hkept
      exact ih (hkept q rfl) s'

private theorem attempt_eq {ε : Type} {x : OptionT (Except ε) Program} {y : Except ε Program}
    (h : x.run = y.map some) : p.attempt x = some (y.toOption.getD p) := by
  unfold attempt
  rw [h]
  cases y <;> rfl

private theorem IsKept.getD {ε : Type} {x : Except ε Program} (hp : p.IsKept)
    (h : ∀ q, x = .ok q → q.IsKept) : (x.toOption.getD p).IsKept := by
  cases x with
  | error e => exact hp
  | ok q => exact h q rfl

/-- An operation on a kept program fails no assertion, and leaves a kept program. -/
theorem IsKept.performAsserting_eq (hp : p.IsKept) (op : Operation) :
    p.performAsserting op = some (p.perform op) ∧ (p.perform op).IsKept := by
  cases op with
  | editFile location mustExist op =>
    obtain ⟨hrun, hkept⟩ := hp.run_editFileAsserting location mustExist
      (fun f hf => hf.run_performAsserting op) fun f g hf => hf.perform
    exact ⟨attempt_eq hrun, hp.getD hkept⟩
  | addLines normaliser root lines =>
    obtain ⟨hrun, hkept⟩ := hp.run_addLinesAsserting normaliser root lines
    exact ⟨attempt_eq hrun, hp.getD hkept⟩
  | setFixture probe source known =>
    obtain ⟨hrun, hkept⟩ := run_readFixtureAsserting probe source known
    have hstored : (do
        let (_, f) ← readFixtureAsserting probe source known
        guard (f.location.same f.location)
        return p.setFile f.location (some f) : OptionT (Except ReadingError) Program).run =
          ((readFixture probe source known).map fun (_, f) =>
            p.setFile f.location (some f)).map some := by
      rw [OptionT.run_bind, Option.elimM, hrun]
      cases readFixture probe source known with
      | error e => rfl
      | ok read =>
        change (guard (read.2.location.same read.2.location = true) >>= fun _ =>
          pure (p.setFile read.2.location (some read.2)) :
            OptionT (Except ReadingError) Program).run = _
        unfold guard
        rw [if_pos read.2.location.same_refl]
        rfl
    refine ⟨attempt_eq hstored, hp.getD fun q hq => ?_⟩
    obtain ⟨⟨t, f⟩, hread, rfl⟩ := exists_of_map_eq_ok hq
    exact hp.setFile f.location.same_refl (hkept t f hread)

end Program

/--
Whatever is done to an empty program, in any order, files and lines are stored where they belong
and no line is empty, and with assertions in front of everything stored the same is done.
-/
theorem isKept_foldl_perform (ops : List Operation) :
    (ops.foldl Program.perform .empty).IsKept ∧
      ops.foldlM Program.performAsserting .empty = some (ops.foldl Program.perform .empty) := by
  suffices h : ∀ p : Program, p.IsKept → (ops.foldl Program.perform p).IsKept ∧
      ops.foldlM Program.performAsserting p = some (ops.foldl Program.perform p) from
    h _ Program.isKept_empty
  induction ops with
  | nil => exact fun p hp => ⟨hp, rfl⟩
  | cons op ops ih =>
    intro p hp
    obtain ⟨hrun, hkept⟩ := hp.performAsserting_eq op
    rw [List.foldlM_cons, hrun]
    exact ih _ hkept

/-- A file that is stored under the location of another one fails its assertion. -/
example :
    let p := Program.empty.setFile ⟨['a']⟩ (some (.empty ⟨['b']⟩))
    p.performAsserting (.editFile ⟨['a']⟩ true (.clear false)) = none := by
  rfl

end NoticeCheck
