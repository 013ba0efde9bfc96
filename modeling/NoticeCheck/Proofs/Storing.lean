import NoticeCheck.Fixture
import NoticeCheck.Proofs.Disk
import NoticeCheck.Proofs.Rereading

/-! Fixtures on a disk: what was written is what is read back. -/
namespace NoticeCheck

namespace Fixture

section

variable {α β : Type} (disk : Disk)

private theorem run_liftExcept (a : α) (k : α → ExceptT FixtureError (StateM Disk) β) :
    (liftExcept (.ok a : Except FixtureError α) >>= k).run.run disk = (k a).run.run disk := rfl

private theorem run_get (k : Disk → ExceptT FixtureError (StateM Disk) β) :
    (get >>= k).run.run disk = (k disk).run.run disk := rfl

end

theorem run_write (x : Fixture) (source : Text) (disk : Disk) :
    (x.write source).run.run disk = match x.read source (.empty x.location) with
      | .error e => (.error e, disk)
      | .ok (text, file) =>
        match (Disk.makeDirectory (x.location.parent?.getD x.root)).run.run disk with
        | (none, made) => (.error (.access (x.location.parent?.getD x.root)), made)
        | (some _, made) =>
          match made.replace? x.location (.text text) with
          | none => (.error (.access x.location), made)
          | some disk' => (.ok file, disk') := by
  rw [write]
  cases hread : x.read source (.empty x.location) with
  | error e => rfl
  | ok read =>
    obtain ⟨text, file⟩ := read
    simp only [run_liftExcept, Reading.run_liftM_bind]
    rcases (Disk.makeDirectory (x.location.parent?.getD x.root)).run.run disk with
      ⟨_ | place, made⟩
    · rfl
    · simp only [run_get]
      cases made.replace? x.location (.text text) <;> rfl

/-- A fixture is written by putting its revised text in place, when the directories are there. -/
theorem exists_replace_of_write {x : Fixture} {source : Text} {disk disk' : Disk} {f : File}
    (h : (x.write source).run.run disk = (.ok f, disk')) :
    ∃ t made, readFixture x.probe source (.empty x.location) = .ok (t, f) ∧ disk.Grows made ∧
      made.replace? x.location (.text t) = some disk' := by
  have hgrows := Disk.grows_makeDirectory (x.location.parent?.getD x.root) disk
  rw [run_write, read] at h
  cases hread : readFixture x.probe source (.empty x.location) with
  | error e =>
    simp only [hread, Except.mapError] at h
    cases (Prod.mk.inj h).1
  | ok read =>
    obtain ⟨text, file⟩ := read
    simp only [hread, Except.mapError] at h
    split at h
    · cases h
    · next made hmade =>
      split at h
      · cases h
      · next hreplace =>
        obtain ⟨hfile, rfl⟩ := Prod.mk.inj h
        rw [hmade] at hgrows
        exact ⟨text, made, by rw [Except.ok.inj hfile], hgrows, hreplace⟩

/-- A write that succeeds puts the revised text in one file; nothing else is lost or changed. -/
theorem exists_place_of_write {x : Fixture} {source : Text} {disk disk' : Disk} {f : File}
    (h : (x.write source).run.run disk = (.ok f, disk')) :
    ∃ t place, readFixture x.probe source (.empty x.location) = .ok (t, f) ∧
      disk'.filePlace? x.location = some place ∧ disk'.file? place = some (.text t) ∧
      (∀ other, other ≠ place → disk'.file? other = disk.file? other) ∧
      ∀ other, disk.entryAt? other = some .directory →
        disk'.entryAt? other = some .directory := by
  obtain ⟨t, made, hread, hgrows, hreplace⟩ := exists_replace_of_write h
  obtain ⟨place, hplace, hfile, hentry, hothers⟩ := Disk.exists_place_of_replace? hreplace
  refine ⟨t, place, hread, hplace, Disk.file?_of_entryAt? hentry, fun other hother => ?_,
    fun other hdir => ?_⟩
  · rw [Disk.file?_congr (hothers other hother), hgrows.file?_eq]
  · have hmade := hgrows.isDirectory hdir
    have hother : other ≠ place := fun heq => hfile (heq ▸ hmade)
    rw [hothers other hother, hmade]

/-- A fixture that was written is on the disk as its revised text. -/
theorem exists_text_of_write {x : Fixture} {source : Text} {disk disk' : Disk} {f : File}
    (h : (x.write source).run.run disk = (.ok f, disk')) :
    ∃ t, readFixture x.probe source (.empty x.location) = .ok (t, f) ∧
      disk'.readText? x.location = some t := by
  obtain ⟨t, place, hread, hplace, hfile, -, -⟩ := exists_place_of_write h
  exact ⟨t, hread, Disk.readText?_of_file? hplace hfile⟩

/-- A file after all edits; one that removes it leaves `absent`. -/
def edited (x : Fixture) (absent f : File) : Except FixtureError File :=
  x.edits.foldlM (fun f edit => do
    return (← (edit f).mapError FixtureError.missing).getD absent) f

/-- Edits fail only where something is missing. -/
theorem edited_ne_changed (x : Fixture) (absent f : File) (path : Path) :
    x.edited absent f ≠ .error (.changed path) := by
  rw [edited]
  induction x.edits generalizing f with
  | nil => nofun
  | cons edit edits ih =>
    rw [List.foldlM_cons]
    cases edit f with
    | error e => nofun
    | ok changed => exact ih (changed.getD absent)

theorem expected_of_read {x : Fixture} {disk : Disk} {source t : Text} {known f : File}
    (hsource : disk.readText? x.location = some source)
    (hread : readFixture x.probe source known = .ok (t, f)) :
    x.expected disk known = if t ≠ source then .error (.changed x.location) else
      (x.edited known.reset f).map fun file => if file.hasNotices then some file else none := by
  have hx : x.read source known = .ok (t, f) := by
    rw [read, hread]
    rfl
  simp only [expected, hsource, hx]
  by_cases h : t = source
  · rw [if_neg (not_not.mpr h)]
    refine (if_neg (not_not.mpr h)).trans ?_
    change (x.edited known.reset f >>= fun file => _) = _
    cases x.edited known.reset f <;> rfl
  · rw [if_pos h]
    exact if_pos h

/-- The text on a disk is rejected as changed exactly when reading revises it. -/
theorem expected_eq_changed_iff {x : Fixture} {disk : Disk} {source t : Text} {known f : File}
    (hsource : disk.readText? x.location = some source)
    (hread : readFixture x.probe source known = .ok (t, f)) :
    (∃ path, x.expected disk known = .error (.changed path)) ↔ t ≠ source := by
  rw [expected_of_read hsource hread]
  constructor
  · rintro ⟨path, hpath⟩ rfl
    rw [if_neg (not_not.mpr rfl)] at hpath
    cases h : x.edited known.reset f with
    | error e =>
      rw [h] at hpath
      obtain rfl := Except.error.inj hpath
      exact edited_ne_changed x known.reset f path h
    | ok file =>
      rw [h] at hpath
      cases hpath
  · intro h
    exact ⟨x.location, if_pos h⟩

end Fixture

/--
Reading a revised text again gives the same text, notices and names, and a fixture that was written
can be read back, except where the source has a line that begins with a closing parenthesis and is
described by exactly one reveal.
-/
theorem unchanged_iff_isSettled {probe : Text} (hprobe : Reading.IsWord probe) (source : Text) :
    (∀ known t f, readFixture probe source known = .ok (t, f) →
      (readFixture probe t known = .ok (t, f) ↔ Reading.IsSettled source)) ∧
    ∀ (x : Fixture) disk disk' f known, x.probe = probe →
      (x.write source).run.run disk = (.ok f, disk') →
      ((∃ path, x.expected disk' known = .error (.changed path)) ↔
        ¬Reading.IsSettled source) := by
  constructor
  · intro known t f h
    obtain ⟨t', f', hagain, htext, hfile⟩ := Reading.exists_read_again hprobe h known
    rw [hagain, ← htext]
    constructor
    · intro hsame
      exact (Prod.mk.inj (Except.ok.inj hsame)).1
    · intro hsame
      rw [hsame, hfile (htext.mp hsame) rfl]
  · rintro x disk disk' f known rfl hwrite
    obtain ⟨t, hread, ht⟩ := Fixture.exists_text_of_write hwrite
    obtain ⟨t', f', hagain, htext, -⟩ := Reading.exists_read_again hprobe hread known
    rw [Fixture.expected_eq_changed_iff ht hagain, Ne, htext]

private def sampleFixture : Fixture where
  root := ⟨"/r".toList⟩
  path := ⟨"m.py".toList⟩
  below := by decide

theorem unchanged_revealed_name :
    ∃ t f disk, readFixture defaultProbe "x = 1\n# ^ REVEAL ^ int".toList
        (.empty sampleFixture.location) = .ok (t, f) ∧
      readFixture defaultProbe t (.empty sampleFixture.location) = .ok (t, f) ∧
      (sampleFixture.write "x = 1\n# ^ REVEAL ^ int".toList).run.run .empty = (.ok f, disk) ∧
      ¬∃ path, sampleFixture.expected disk (.empty sampleFixture.location) =
        .error (.changed path) := by
  have hiff := unchanged_iff_isSettled Reading.isWord_defaultProbe
    "x = 1\n# ^ REVEAL ^ int".toList
  have hsettled := (hiff.1 (.empty sampleFixture.location) _ _ rfl).mp rfl
  refine ⟨_, _, _, rfl, rfl, rfl, fun h => ?_⟩
  exact (hiff.2 sampleFixture .empty _ _ (.empty sampleFixture.location) rfl rfl).mp h hsettled

theorem changed_closing_parenthesis :
    ∃ t t' f disk, readFixture defaultProbe ")\n# ^ REVEAL ^ int".toList
        (.empty sampleFixture.location) = .ok (t, f) ∧
      readFixture defaultProbe t (.empty sampleFixture.location) = .ok (t', f) ∧ t' ≠ t ∧
      (sampleFixture.write ")\n# ^ REVEAL ^ int".toList).run.run .empty = (.ok f, disk) ∧
      sampleFixture.expected disk (.empty sampleFixture.location) =
        .error (.changed sampleFixture.location) :=
  ⟨_, _, _, _, rfl, rfl, by decide, rfl, rfl⟩

end NoticeCheck
