import NoticeCheck.Proofs.Storing

/-!
Writing a fixture and reading it back. A file is put in place as a whole or not at all, and what is
expected of it afterwards is what was computed when it was written.
-/
namespace NoticeCheck.Fixture

variable {x : Fixture} {source : Text} {disk disk' : Disk}

/-- A source that cannot be read is not written, and nothing is made for it. -/
theorem run_write_of_read_error {fault : ReadingError}
    (h : readFixture x.probe source (.empty x.location) = .error fault) :
    (x.write source).run.run disk = (.error (.reading x.location fault), disk) := by
  have hread : x.read source (.empty x.location) = .error (.reading x.location fault) := by
    rw [read, h]
    rfl
  rw [run_write, hread]

/-- A write that fails leaves more directories at most. -/
theorem grows_of_write_error {e : FixtureError}
    (h : (x.write source).run.run disk = (.error e, disk')) : disk.Grows disk' := by
  have hgrows := Disk.grows_makeDirectory (x.location.parent?.getD x.root) disk
  rw [run_write] at h
  split at h
  · obtain ⟨-, rfl⟩ := Prod.mk.inj h
    exact .refl disk
  · split at h
    · next made hmade =>
      obtain ⟨-, rfl⟩ := Prod.mk.inj h
      rwa [hmade] at hgrows
    · next made hmade =>
      split at h
      · obtain ⟨-, rfl⟩ := Prod.mk.inj h
        rwa [hmade] at hgrows
      · cases h

/-- Only a source that cannot be read is refused for what is in it. -/
theorem read_error_of_write {path : Path} {fault : ReadingError}
    (h : (x.write source).run.run disk = (.error (.reading path fault), disk')) :
    path = x.location ∧ readFixture x.probe source (.empty x.location) = .error fault ∧
      disk' = disk := by
  cases hread : readFixture x.probe source (.empty x.location) with
  | error fault' =>
    rw [run_write_of_read_error hread] at h
    obtain ⟨herror, hdisk⟩ := Prod.mk.inj h
    obtain ⟨hpath, hfault⟩ := FixtureError.reading.inj (Except.error.inj herror)
    exact ⟨hpath.symm, congrArg _ hfault, hdisk.symm⟩
  | ok read =>
    rw [run_write, Fixture.read, hread] at h
    simp only [Except.mapError] at h
    split at h
    · cases h
    · split at h <;> cases h

/-- What a fixture without edits expects of a text that was written for it. -/
theorem expected_of_text (hprobe : Reading.IsPlainProbe x.probe) (hedits : x.edits = []) {t : Text}
    {f : File} (hread : readFixture x.probe source (.empty x.location) = .ok (t, f))
    (htext : disk.readText? x.location = some t) :
    x.expected disk (.empty x.location) = .error (.changed x.location) ∨
      x.expected disk (.empty x.location) = .ok (if f.hasNotices then some f else none) := by
  obtain ⟨t', f', hagain, hsame⟩ := Reading.exists_file_again hprobe hread
    (File.location_empty x.location)
  rw [expected_of_read htext hagain]
  by_cases h : t' = t
  · have hedited : x.edited (File.empty x.location).reset f' = .ok f' := by
      rw [edited, hedits]
      rfl
    right
    rw [if_neg (not_not.mpr h), hedited, hsame h]
    rfl
  · left
    exact if_pos h

/--
What is written is the revised text, in one file, and reading it back gives the notices computed on
writing unless the text on the disk would be revised again. A write that fails touches no file, and
makes no directory either when the source cannot be read. The probe may be any whose calls stay on
one row and do not look like comments, as those of every word do.
-/
theorem written_or_unharmed (x : Fixture) (hprobe : Reading.IsPlainProbe x.probe)
    (hedits : x.edits = []) (source : Text) (disk : Disk) :
    (∀ f disk', (x.write source).run.run disk = (.ok f, disk') →
      ∃ t place, readFixture x.probe source (.empty x.location) = .ok (t, f) ∧
        disk'.filePlace? x.location = some place ∧ disk'.file? place = some (.text t) ∧
        (∀ other, other ≠ place → disk'.file? other = disk.file? other) ∧
        (∀ other, disk.entryAt? other = some .directory →
          disk'.entryAt? other = some .directory) ∧
        (x.expected disk' (.empty x.location) = .error (.changed x.location) ∨
          x.expected disk' (.empty x.location) = .ok (if f.hasNotices then some f else none))) ∧
    ∀ e disk', (x.write source).run.run disk = (.error e, disk') →
      (∀ place, disk'.file? place = disk.file? place) ∧
      (∀ place, disk.entryAt? place = some .directory →
        disk'.entryAt? place = some .directory) ∧
      ∀ path fault, e = .reading path fault → path = x.location ∧
        readFixture x.probe source (.empty x.location) = .error fault ∧ disk' = disk := by
  constructor
  · intro f disk' h
    obtain ⟨t, place, hread, hplace, hfile, hothers, hdirs⟩ := exists_place_of_write h
    have htext := Disk.readText?_of_file? hplace hfile
    exact ⟨t, place, hread, hplace, hfile, hothers, hdirs,
      expected_of_text hprobe hedits hread htext⟩
  · intro e disk' h
    have hgrows := grows_of_write_error h
    refine ⟨hgrows.file?_eq, fun place => hgrows.isDirectory, fun path fault he => ?_⟩
    subst he
    exact read_error_of_write h

private def writtenFixture : Fixture where
  root := ⟨"/r".toList⟩
  path := ⟨"a/m.py".toList⟩
  below := by decide

private def earlierDisk : Disk :=
  let file (t : String) : Entry := .file (.text t.toList)
  ⟨((SortedMap.empty.insert ["r".toList] .directory).insert ["r".toList, "n.py".toList]
    (file "y")).insert ["r".toList, "b".toList] (file "z")⟩

/-- A directory is made for the first file; the other cannot be, with a file in its way. -/
theorem written_beside_another_file :
    let place : Place := ["r".toList, "a".toList, "m.py".toList]
    let blocked : Fixture := { writtenFixture with path := ⟨"b/m.py".toList⟩, below := by decide }
    let source : Text := "x = 1\n# ^ REVEAL ^ int".toList
    (∃ f disk, (writtenFixture.write source).run.run earlierDisk = (.ok f, disk) ∧
      f.hasNotices = true ∧ disk.file? place =
        some (.text "x = 1\nreveal_type(x)\n# ^ REVEAL ^ int".toList) ∧
      disk.file? ["r".toList, "n.py".toList] = some (.text ['y']) ∧
      (writtenFixture.expected disk (.empty writtenFixture.location) =
          .error (.changed writtenFixture.location) ∨
        writtenFixture.expected disk (.empty writtenFixture.location) = .ok (some f))) ∧
    ∃ disk, (blocked.write source).run.run earlierDisk =
        (.error (.access ⟨"/r/b".toList⟩), disk) ∧
      ∀ place, disk.file? place = earlierDisk.file? place := by
  intro place blocked source
  constructor
  · let written : Except FixtureError File × Disk :=
      (writtenFixture.write source).run.run earlierDisk
    let f := written.1.toOption.getD (.empty writtenFixture.location)
    have hwrite : written = (.ok f, written.2) := by decide +kernel
    have hnotices : f.hasNotices = true := by decide +kernel
    obtain ⟨t, found, -, hplace, -, hothers, -, hexpected⟩ :=
      (written_or_unharmed writtenFixture Reading.isPlainProbe_defaultProbe rfl source
        earlierDisk).1 f written.2 hwrite
    have hfound : written.2.filePlace? writtenFixture.location = some place := by decide +kernel
    obtain rfl : found = place := Option.some.inj (hplace.symm.trans hfound)
    have hother := hothers ["r".toList, "n.py".toList] (by decide)
    rw [if_pos hnotices] at hexpected
    exact ⟨f, written.2, hwrite, hnotices, by decide +kernel, hother.trans (by decide),
      hexpected⟩
  · let failed : Except FixtureError File × Disk := (blocked.write source).run.run earlierDisk
    have hfailed : failed = (.error (.access ⟨"/r/b".toList⟩), failed.2) := by decide +kernel
    have hblocked := (written_or_unharmed blocked Reading.isPlainProbe_defaultProbe rfl source
      earlierDisk).2 _ failed.2 hfailed
    exact ⟨failed.2, hfailed, hblocked.1⟩

end NoticeCheck.Fixture
