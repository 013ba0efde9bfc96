import NoticeCheck.Proofs.Linewise
import NoticeCheck.Proofs.Targeting

/-!
Edits of different lines. An edit sees nothing of a line that another one has set, so that two of
them can be made in either order.
-/
namespace NoticeCheck

/--
Two computations, each continued, have the same result when each continuation fails with the other
computation and both continuations come to the same otherwise.
-/
theorem toOption_bind_comm {ε α β : Type} {x y : Except ε α} {f g : α → Except ε β}
    (hx : ∀ a e, x = .ok a → y = .error e → (f a).toOption = none)
    (hy : ∀ b e, y = .ok b → x = .error e → (g b).toOption = none)
    (hboth : ∀ a b, x = .ok a → y = .ok b → (f a).toOption = (g b).toOption) :
    (x >>= f).toOption = (y >>= g).toOption := by
  cases hfirst : x with
  | error e =>
    cases hsecond : y with
    | error e' => rfl
    | ok b => exact (hy b e hsecond hfirst).symm
  | ok a =>
    cases hsecond : y with
    | error e => exact hx a e hfirst hsecond
    | ok b => exact hboth a b hfirst hsecond

private theorem toOption_map {ε α β : Type} (f : α → β) (x : Except ε α) :
    (x.map f).toOption = x.toOption.map f := by
  cases x <;> rfl

theorem toOption_eq_iff {ε α : Type} {x y : Except ε α} : x.toOption = y.toOption ↔
    (∃ e e', x = .error e ∧ y = .error e') ∨ ∃ a, x = .ok a ∧ y = .ok a := by
  cases x <;> cases y <;> simp [Except.toOption, eq_comm]

namespace File

variable {f g : File} {target target' : Target} {demands demands' : Demands}
  {edit edit' : Line → Except Missing (Option Line)}

theorem setLine_comm (f : File) {j k : Nat} (h : j ≠ k) (l m : Option Line) :
    (f.setLine j l).setLine k m = (f.setLine k m).setLine j l := by
  have hne : compare j k ≠ .eq := fun heq => h (Std.LawfulEqOrd.eq_of_compare heq)
  unfold setLine
  rw [f.lines.put_comm hne]

theorem setLine_setLines {k : Nat} {lines : List (Nat × Option Line)} (h : ∀ e ∈ lines, e.1 ≠ k)
    (f : File) (l : Option Line) :
    (f.setLine k l).setLines lines = (f.setLines lines).setLine k l := by
  induction lines generalizing f with
  | nil => rfl
  | cons e lines ih =>
    have hcomm := f.setLine_comm (h e List.mem_cons_self).symm l e.2
    exact (congrArg (setLines · lines) hcomm).trans
      (ih (fun a ha => h a (List.mem_cons_of_mem _ ha)) (f.setLine e.1 e.2))

theorem setLines_comm {lines lines' : List (Nat × Option Line)}
    (h : ∀ e ∈ lines, ∀ e' ∈ lines', e.1 ≠ e'.1) (f : File) :
    (f.setLines lines).setLines lines' = (f.setLines lines').setLines lines := by
  induction lines generalizing f with
  | nil => rfl
  | cons e lines ih =>
    have hset := f.setLine_setLines
      (fun e' he' => (h e List.mem_cons_self e' he').symm) e.2
    exact (ih (fun a ha => h a (List.mem_cons_of_mem _ ha)) (f.setLine e.1 e.2)).trans
      (congrArg (setLines · lines) hset)

theorem lineNumber?_setLines (f : File) (lines : List (Nat × Option Line)) (target : Target) :
    (f.setLines lines).lineNumber? target = f.lineNumber? target := by
  induction lines generalizing f with
  | nil => rfl
  | cons e lines ih =>
    refine (ih (f.setLine e.1 e.2)).trans ?_
    cases target <;> rfl

/-- An edit of another line does not see that a line was set, and leaves it as it was set. -/
theorem editLine_setLine {k : Nat} (h : f.lineNumber? target ≠ some k) (l : Option Line) :
    (f.setLine k l).editLine target demands edit =
      (f.editLine target demands edit).map fun g => g.setLine k l := by
  have hnames : (f.setLine k l).lineNumber? target = f.lineNumber? target :=
    f.lineNumber?_setLines [(k, l)] target
  cases hnumber : f.lineNumber? target with
  | none =>
    rw [editLine_of_unknown hnumber, editLine_of_unknown (hnames.trans hnumber)]
    split <;> rfl
  | some number =>
    have hne : number ≠ k := fun hk => h (by rw [hnumber, hk])
    rw [editLine_of_known hnumber, editLine_of_known (hnames.trans hnumber), line?_setLine,
      line_setLine, if_neg hne, if_neg hne]
    split
    · rfl
    · cases edit (f.line number) with
      | error m => rfl
      | ok line => exact congrArg Except.ok (f.setLine_comm hne.symm l line)

theorem editLine_setLines {lines : List (Nat × Option Line)}
    (h : ∀ e ∈ lines, f.lineNumber? target ≠ some e.1) :
    (f.setLines lines).editLine target demands edit =
      (f.editLine target demands edit).map fun g => g.setLines lines := by
  induction lines generalizing f with
  | nil => cases hedit : f.editLine target demands edit <;> exact hedit
  | cons e lines ih =>
    have hfirst : (f.setLine e.1 e.2).lineNumber? target = f.lineNumber? target :=
      f.lineNumber?_setLines [e] target
    refine (ih fun a ha => ?_).trans ?_
    · rw [hfirst]
      exact h a (List.mem_cons_of_mem _ ha)
    · rw [editLine_setLine (h e List.mem_cons_self)]
      cases f.editLine target demands edit <;> rfl

/-- All that an edit does is to set the line that its target stands for, if there is one. -/
theorem exists_setLines_of_editLine (h : f.editLine target demands edit = .ok g) :
    ∃ lines, g = f.setLines lines ∧ ∀ e ∈ lines, f.lineNumber? target = some e.1 := by
  rcases eq_of_editLine h with ⟨-, rfl⟩ | ⟨number, line, hnumber, -, rfl⟩
  · exact ⟨[], rfl, nofun⟩
  · refine ⟨[(number, line)], rfl, fun e he => ?_⟩
    rw [List.mem_singleton.mp he, hnumber]

/-- Edits of different lines of a file both fail in either order, or come to the same file. -/
theorem toOption_editLine_comm (hlines : ∀ number, f.lineNumber? target = some number →
      f.lineNumber? target' ≠ some number) :
    (f.editLine target demands edit >>= fun g => g.editLine target' demands' edit').toOption =
      (f.editLine target' demands' edit' >>= fun g =>
        g.editLine target demands edit).toOption := by
  refine toOption_bind_comm (fun g m hg hm => ?_) (fun g m hg hm => ?_) fun g g' hg hg' => ?_
  · obtain ⟨lines, rfl, hset⟩ := exists_setLines_of_editLine hg
    rw [editLine_setLines fun e he => hlines e.1 (hset e he), hm]
    rfl
  · obtain ⟨lines, rfl, hset⟩ := exists_setLines_of_editLine hg
    rw [editLine_setLines fun e he h => hlines e.1 h (hset e he), hm]
    rfl
  · obtain ⟨lines, rfl, hset⟩ := exists_setLines_of_editLine hg
    obtain ⟨lines', rfl, hset'⟩ := exists_setLines_of_editLine hg'
    rw [editLine_setLines fun e he => hlines e.1 (hset e he), hg',
      editLine_setLines fun e he h => hlines e.1 h (hset' e he), hg]
    refine congrArg some (setLines_comm (fun e' he' e he h => ?_) f)
    exact hlines e.1 (hset e he) (h ▸ hset' e' he')

end File

namespace Program

variable {p : Program} {location place : Path} {mustExist : Bool}
  {edit : File → Except Missing File}

/-- As `editFile` for an edit that leaves a file. -/
theorem editFile_some (p : Program) (location : Path) (mustExist : Bool)
    (edit : File → Except Missing File) :
    (p.editFile location mustExist fun f => some <$> edit f) =
      if p.file? location = none ∧ mustExist = true then .error (.file location)
      else (edit (p.file location)).map fun f => p.setFile location (some f) := by
  rw [editFile_eq]
  split
  · rfl
  · cases edit (p.file location) <;> rfl

theorem setFile_comm (p : Program) (h : location.same place = false) (f g : Option File) :
    (p.setFile location f).setFile place g = (p.setFile place g).setFile location f := by
  have hne : compare location place ≠ .eq := by
    rw [Ne, Path.compare_eq_iff, h]
    exact Bool.false_ne_true
  exact congrArg mk (p.files.put_comm hne f g)

theorem file?_setFile_of_ne (p : Program) (h : location.same place = false) (g : Option File) :
    (p.setFile place g).file? location = p.file? location := by
  rw [file?_setFile, if_neg]
  rw [Path.compare_eq_iff, h]
  exact Bool.false_ne_true

theorem file_setFile_of_ne (p : Program) (h : location.same place = false) (g : Option File) :
    (p.setFile place g).file location = p.file location := by
  rw [file, file, p.file?_setFile_of_ne h]

/-- An edit of another file does not see that a file was set, and leaves it as it was set. -/
theorem editFile_setFile (h : location.same place = false) (g : File) :
    ((p.setFile place (some g)).editFile location mustExist fun f => some <$> edit f) =
      (p.editFile location mustExist fun f => some <$> edit f).map fun q =>
        q.setFile place (some g) := by
  rw [editFile_some, editFile_some, p.file?_setFile_of_ne h, p.file_setFile_of_ne h]
  split
  · rfl
  · cases edit (p.file location) with
    | error m => rfl
    | ok f => exact congrArg Except.ok (p.setFile_comm h (some f) (some g)).symm

/-- Edits of one file, one after the other, are one edit of that file. -/
theorem editFile_setFile_self (location : Path) (mustExist : Bool)
    (edit : File → Except Missing File) (p : Program) (g : File) :
    ((p.setFile location (some g)).editFile location mustExist fun f => some <$> edit f) =
      (edit g).map fun f => p.setFile location (some f) := by
  have hfile? : (p.setFile location (some g)).file? location = some g := by
    rw [file?_setFile, if_pos (Path.compare_eq_iff.mpr location.same_refl)]
  have hfile : (p.setFile location (some g)).file location = g := by
    rw [file, hfile?, Option.getD_some]
  rw [editFile_some, hfile?, hfile, if_neg (fun h => Option.some_ne_none g h.1)]
  refine congrArg (fun set => (edit g).map set) (funext fun f => ?_)
  exact p.setFile_setFile location g f

end Program

/-- The first answer of two edits in a row; a removal or a failure by the first ends it. -/
theorem Edit.run_andThen {α : Type} (e e' : Edit α) (a : α) :
    (e.andThen e').run a = match e.run a with
      | .ok (some b) => e'.run b
      | done => done := by
  unfold andThen Machine.run
  dsimp only
  rw [StateT.run_bind, Reading.run_onFirst]
  rcases ((e.step a).run e.start).1 with _ | _ | _ <;> rfl

/-- An edit of one line of one file. -/
structure LineEdit where
  location : Path
  target : Target
  demands : File.Demands := {}
  edit : Edit Line

namespace LineEdit

def inProgram (mustExist : Bool) (x : LineEdit) : Edit Program :=
  .inFile x.location mustExist (.inLine x.target x.demands x.edit)

/-- The number of the line to edit, as the file at the location resolves the target. -/
def number? (p : Program) (x : LineEdit) : Option Nat :=
  (p.file x.location).lineNumber? x.target

/-- Both edit the same line of the same file. -/
def Meets (p : Program) (x y : LineEdit) : Prop :=
  x.location.same y.location = true ∧
    ∃ number, x.number? p = some number ∧ y.number? p = some number

/-- The first answer of the edit, as a function. -/
private def perform (mustExist : Bool) (x : LineEdit) (p : Program) : Except Missing Program :=
  p.editFile x.location mustExist fun f => some <$> f.editLine x.target x.demands x.edit.run

private theorem run_inProgram (mustExist : Bool) (x : LineEdit) (p : Program) :
    (x.inProgram mustExist).run p = (x.perform mustExist p).map some := by
  have hline : (Edit.inLine x.target x.demands x.edit).run =
      fun f => some <$> f.editLine x.target x.demands x.edit.run :=
    funext fun f => Edit.run_inLine x.target x.demands x.edit f
  rw [inProgram, Edit.run_inFile, hline, perform]

private theorem run_andThen_inProgram (mustExist : Bool) (x y : LineEdit) (p : Program) :
    ((x.inProgram mustExist).andThen (y.inProgram mustExist)).run p =
      (x.perform mustExist p >>= y.perform mustExist).map some := by
  rw [Edit.run_andThen, run_inProgram]
  cases x.perform mustExist p with
  | error m => rfl
  | ok q => exact run_inProgram mustExist y q

variable {p : Program} {mustExist : Bool} {x y : LineEdit}

/-- In one file, two edits are one edit of the file. -/
private theorem perform_bind_of_eq (h : x.location = y.location) :
    (x.perform mustExist p >>= y.perform mustExist) =
      if p.file? x.location = none ∧ mustExist = true then .error (.file x.location)
      else ((p.file x.location).editLine x.target x.demands x.edit.run >>= fun g =>
        g.editLine y.target y.demands y.edit.run).map fun f => p.setFile x.location (some f) := by
  unfold perform
  rw [Program.editFile_some]
  split
  · rfl
  · cases (p.file x.location).editLine x.target x.demands x.edit.run with
    | error m => rfl
    | ok g =>
      rw [← h]
      exact Program.editFile_setFile_self x.location mustExist
        (fun f => f.editLine y.target y.demands y.edit.run) p g

private theorem exists_setFile_of_perform {q : Program} (h : x.perform mustExist p = .ok q) :
    ∃ f, q = p.setFile x.location (some f) := by
  rw [perform, Program.editFile_some] at h
  split at h
  · cases h
  · cases hedit : (p.file x.location).editLine x.target x.demands x.edit.run with
    | error m =>
      rw [hedit] at h
      cases h
    | ok f =>
      rw [hedit] at h
      exact ⟨f, (Except.ok.inj h).symm⟩

private theorem perform_setFile {place : Path} (h : x.location.same place = false) (g : File) :
    x.perform mustExist (p.setFile place (some g)) =
      (x.perform mustExist p).map fun q => q.setFile place (some g) :=
  Program.editFile_setFile h g

/-- Edits of different files see nothing of each other. -/
private theorem toOption_perform_comm (h : x.location.same y.location = false) :
    (x.perform mustExist p >>= y.perform mustExist).toOption =
      (y.perform mustExist p >>= x.perform mustExist).toOption := by
  have h' : y.location.same x.location = false := by
    rw [Bool.eq_false_iff, Ne] at h ⊢
    exact fun hsame => h (Path.same_symm hsame)
  refine toOption_bind_comm (fun q m hq hm => ?_) (fun q m hq hm => ?_) fun q q' hq hq' => ?_
  · obtain ⟨f, rfl⟩ := exists_setFile_of_perform hq
    rw [perform_setFile h', hm]
    rfl
  · obtain ⟨f, rfl⟩ := exists_setFile_of_perform hq
    rw [perform_setFile h, hm]
    rfl
  · obtain ⟨f, rfl⟩ := exists_setFile_of_perform hq
    obtain ⟨g, rfl⟩ := exists_setFile_of_perform hq'
    rw [perform_setFile h', hq', perform_setFile h, hq]
    exact congrArg some (p.setFile_comm h' (some g) (some f))

end LineEdit

/--
Edits of different lines come to the same in either order: both orders fail, or both leave the same
program. The files may be absent, and the edits may make, change or remove their lines, or find
none. Only the two locations are spelled in one way if they are the same.
-/
theorem edits_commute (p : Program) (mustExist : Bool) (x y : LineEdit)
    (hspelled : x.location.same y.location = true → x.location = y.location)
    (hlines : ¬x.Meets p y) :
    let forth := (x.inProgram mustExist).andThen (y.inProgram mustExist)
    let back := (y.inProgram mustExist).andThen (x.inProgram mustExist)
    (∃ m m', forth.run p = .error m ∧ back.run p = .error m') ∨
      ∃ q, forth.run p = .ok (some q) ∧ back.run p = .ok (some q) := by
  intro forth back
  have hsame : (x.perform mustExist p >>= y.perform mustExist).toOption =
      (y.perform mustExist p >>= x.perform mustExist).toOption := by
    cases hfile : x.location.same y.location with
    | false => exact LineEdit.toOption_perform_comm hfile
    | true =>
      have hlocation := hspelled hfile
      have hnumbers : ∀ number, (p.file x.location).lineNumber? x.target = some number →
          (p.file x.location).lineNumber? y.target ≠ some number := by
        intro number hx hy
        rw [hlocation] at hy
        exact hlines ⟨hfile, number, hx, hy⟩
      rw [LineEdit.perform_bind_of_eq hlocation, LineEdit.perform_bind_of_eq hlocation.symm,
        ← hlocation]
      split
      · rfl
      · rw [toOption_map, toOption_map, File.toOption_editLine_comm hnumbers]
  have hforth : forth.run p = _ := LineEdit.run_andThen_inProgram mustExist x y p
  have hback : back.run p = _ := LineEdit.run_andThen_inProgram mustExist y x p
  rw [hforth, hback]
  rcases toOption_eq_iff.mp hsame with ⟨m, m', hx, hy⟩ | ⟨q, hx, hy⟩
  · exact .inl ⟨m, m', by rw [hx]; rfl, by rw [hy]; rfl⟩
  · exact .inr ⟨q, by rw [hx]; rfl, by rw [hy]; rfl⟩

/-- A line is removed and a named one gets a warning, in a file that is spelled in another way. -/
theorem edits_commute_removed_line :
    let file : Path := ⟨"/r/m.py".toList⟩
    let note (number : Nat) : Notice := ⟨file, number, none, .note, "a".toList⟩
    let warning : Notice := ⟨file, 2, none, .warning, "b".toList⟩
    let f := ((File.empty file).setName ['n'] 2).record (note 1) |>.record (note 2)
    let p := Program.empty.setFile file (some f)
    let x : LineEdit := ⟨⟨"/r//m.py".toList⟩, .line 1, {}, .remove⟩
    let y : LineEdit :=
      ⟨⟨"/r//m.py".toList⟩, .name ['n'], {}, .append fun l => [some (l.notice .warning ['b'])]⟩
    ¬x.Meets p y ∧ ∃ q, ((x.inProgram true).andThen (y.inProgram true)).run p = .ok (some q) ∧
      ((y.inProgram true).andThen (x.inProgram true)).run p = .ok (some q) ∧
      (q.file file).line? 1 = none ∧
      (q.file file).line? 2 = some ⟨file, 2, [note 2, warning]⟩ := by
  intro file note warning f p x y
  have hapart : ¬x.Meets p y := by
    rintro ⟨-, number, hx, hy⟩
    have hfirst : x.number? p = some 1 := rfl
    have hsecond : y.number? p = some 2 := by decide
    cases hx.symm.trans hfirst
    cases hy.symm.trans hsecond
  let result := ((x.inProgram true).andThen (y.inProgram true)).run p
  let edited := (result.toOption.getD none).getD p
  have hresult : result = .ok (some edited) := rfl
  refine ⟨hapart, edited, hresult, ?_, by decide, by decide⟩
  rcases edits_commute p true x y (fun _ => rfl) hapart with ⟨m, -, hm, -⟩ | ⟨q, hforth, hback⟩
  · cases hresult.symm.trans hm
  · have hq : some edited = some q := Except.ok.inj (hresult.symm.trans hforth)
    exact hback.trans (congrArg Except.ok hq.symm)

end NoticeCheck
