import NoticeCheck.Proofs.Recording

/-!
Edits of one line of one file of a program. When such an edit fails, and that everything but the
line stays as it is.
-/
namespace NoticeCheck

namespace Program

/-- The program `q` is `p` with the file `f` at a location, however that is spelled. -/
structure ReplacesFile (p q : Program) (location : Path) (f : File) : Prop where
  file : q.file? location = some f
  others : ∀ e, location.same e.1 = false → (e ∈ q.files.entries ↔ e ∈ p.files.entries)

theorem replacesFile_setFile (p : Program) (location : Path) (f : File) :
    p.ReplacesFile (p.setFile location (some f)) location f where
  file := by
    rw [file?_setFile, if_pos (Path.compare_eq_iff.mpr location.same_refl)]
  others e he := by
    apply SortedMap.mem_put_iff_of_ne
    rw [Ne, Path.compare_eq_iff, he]
    exact Bool.false_ne_true

theorem editFile_eq (p : Program) (location : Path) (mustExist : Bool)
    (edit : File → Except Missing (Option File)) :
    p.editFile location mustExist edit =
      if p.file? location = none ∧ mustExist = true then .error (.file location)
      else (edit (p.file location)).map (p.setFile location) := by
  unfold editFile
  simp only [Bool.and_eq_true, Option.isNone_iff_eq_none]
  rfl

end Program

namespace Edit

private theorem run_map {σ α β : Type} (f : α → β) (x : EditM σ α) (s : σ) :
    ((f <$> x).run.run s).1 = (x.run.run s).1.map f := by
  rw [map_eq_pure_bind, Reading.run_exceptT_bind]
  rcases x.run.run s with ⟨_ | _, _⟩ <;> rfl

/-- The first answer of an edit in a line is that of the line edited with its first answer. -/
theorem run_inLine (target : Target) (demands : File.Demands) (e : Edit Line) (f : File) :
    (inLine target demands e).run f = (f.editLine target demands e.run).map some := by
  unfold inLine Machine.run File.editLine
  dsimp only
  split
  · rfl
  · cases f.lineNumber? target with
    | none => rfl
    | some number => exact (run_map some _ _).trans (congrArg _ (run_map _ _ _))

theorem run_inFile (location : Path) (mustExist : Bool) (e : Edit File) (p : Program) :
    (inFile location mustExist e).run p = (p.editFile location mustExist e.run).map some := by
  unfold inFile Machine.run Program.editFile
  dsimp only
  split
  · rfl
  · exact (run_map some _ _).trans (congrArg _ (run_map _ _ _))

end Edit

/--
An edit of a line fails exactly when what has to exist does not, or when the edit itself fails.
Otherwise the program has another file at the location and all others as they were, and that file
has another line, or none, where the edit was and all else as it was. It is the same file when the
edit had no line.
-/
theorem edit_replaces_line_only (p : Program) (location : Path) (mustExist : Bool) (target : Target)
    (demands : File.Demands) (e : Edit Line) :
    let f := p.file location
    let result := (Edit.inFile location mustExist (Edit.inLine target demands e)).run p
    ((∃ m, result = .error m) ↔
      (p.file? location = none ∧ mustExist = true) ∨
      (∃ name, target = .name name ∧ f.names.get? name = none ∧
        (demands.name = true ∨ demands.line = true)) ∨
      ∃ number, f.lineNumber? target = some number ∧
        ((f.line? number = none ∧ demands.line = true) ∨ ∃ m, e.run (f.line number) = .error m)) ∧
    ∀ q?, result = .ok q? → ∃ q g, q? = some q ∧ p.ReplacesFile q location g ∧
      (∀ number, f.lineNumber? target = some number →
        ∃ line, e.run (f.line number) = .ok line ∧ f.ReplacesLine g number line) ∧
      (f.lineNumber? target = none → g = f) := by
  intro f result
  have hresult : result = if p.file? location = none ∧ mustExist = true then
      .error (.file location)
      else (f.editLine target demands e.run).map fun g => some (p.setFile location (some g)) := by
    change (Edit.inFile location mustExist (Edit.inLine target demands e)).run p = _
    rw [Edit.run_inFile, p.editFile_eq, Edit.run_inLine]
    split
    · rfl
    · cases f.editLine target demands e.run <;> rfl
  have hunknown : f.lineNumber? target = none ↔
      ∃ name, target = .name name ∧ f.names.get? name = none := by
    cases target <;> simp [File.lineNumber?]
  rw [hresult]
  by_cases habsent : p.file? location = none ∧ mustExist = true
  · rw [if_pos habsent]
    refine ⟨⟨fun _ => .inl habsent, fun _ => ⟨_, rfl⟩⟩, fun q? hq => ?_⟩
    cases hq
  · rw [if_neg habsent]
    constructor
    · have hmap : (∃ m, ((f.editLine target demands e.run).map fun g =>
          some (p.setFile location (some g))) = .error m) ↔
          ∃ m, f.editLine target demands e.run = .error m := by
        cases f.editLine target demands e.run <;> simp [Except.map]
      rw [hmap, File.editLine_fails_iff, hunknown, or_iff_right habsent]
      simp only [← exists_and_right, and_assoc]
    · intro q? hq
      cases hedit : f.editLine target demands e.run with
      | error m =>
        rw [hedit] at hq
        cases hq
      | ok g =>
        rw [hedit] at hq
        obtain ⟨hline, hsame⟩ := File.replacesLine_of_editLine hedit
        exact ⟨_, g, (Except.ok.inj hq).symm, p.replacesFile_setFile location g, hline, hsame⟩

/-- A warning on a named line, in a file that is spelled in another way. -/
theorem edit_replaces_line_only_named :
    let file : Path := ⟨"/r/m.py".toList⟩
    let note (number : Nat) : Notice := ⟨file, number, none, .note, "a".toList⟩
    let warning : Notice := ⟨file, 2, none, .warning, "b".toList⟩
    let f := ((File.empty file).setName ['n'] 2).record (note 1) |>.record (note 2)
    let other := (File.empty ⟨"/r/n.py".toList⟩).setName ['n'] 3
    let p := (Program.empty.setFile file (some f)).setFile other.location (some other)
    let e := Edit.append fun l => [some (l.notice .warning "b".toList)]
    ∃ q g, (Edit.inFile ⟨"/r//m.py".toList⟩ true (Edit.inLine (.name ['n']) {} e)).run p =
        .ok (some q) ∧
      q.file? file = some g ∧ (other.location, other) ∈ q.files.entries ∧ g.names = f.names ∧
      g.line? 2 = some ⟨file, 2, [note 2, warning]⟩ ∧ g.line? 1 = some ⟨file, 1, [note 1]⟩ := by
  intro file note warning f other p e
  let result := (Edit.inFile ⟨"/r//m.py".toList⟩ true (Edit.inLine (.name ['n']) {} e)).run p
  have hresult : result = .ok (result.toOption.getD none) := rfl
  obtain ⟨q, g, hq, hfile, hline, -⟩ :=
    (edit_replaces_line_only p ⟨"/r//m.py".toList⟩ true (.name ['n']) {} e).2 _ hresult
  obtain ⟨line, hedit, hg⟩ := hline 2 rfl
  have hadded : e.run (f.line 2) = .ok (some ⟨file, 2, [note 2, warning]⟩) := rfl
  have hspelled : q.file? file = q.file? ⟨"/r//m.py".toList⟩ :=
    SortedMap.get?_congr (Path.compare_eq_iff.mpr (by decide))
  refine ⟨q, g, hresult.trans (congrArg _ hq), hspelled.trans hfile.file, ?_, hg.names, ?_, ?_⟩
  · exact (hfile.others _ (by decide)).mpr (by decide)
  · rw [hg.line, Except.ok.inj (hedit.symm.trans hadded)]
  · exact hg.others 1 (by decide)

end NoticeCheck
