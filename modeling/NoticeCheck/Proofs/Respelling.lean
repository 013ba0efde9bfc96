import NoticeCheck.Proofs.Path
import NoticeCheck.Proofs.Ties

/-!
Other spellings of the same paths. What is spelled above the root is not shown, so it changes no
verdict; what is spelled below it is shown as it is, and then one file is compared as two.
-/
namespace NoticeCheck

/-- The same line, with locations perhaps spelled in another way. -/
structure Line.Respells (l m : Line) : Prop where
  location : l.location.parts = m.location.parts
  number : l.number = m.number
  notices : List.Forall₂ Notice.Alike l.notices m.notices

structure File.Respells (f g : File) : Prop where
  location : f.location.parts = g.location.parts
  lines : f.lines.Related Line.Respells g.lines
  names : f.names = g.names

namespace Program

/-- The same program, with keys and locations perhaps spelled in another way. -/
def Respells (p q : Program) : Prop :=
  List.Forall₂ (fun a b => a.1.parts = b.1.parts ∧ a.2.Respells b.2) p.files.entries q.files.entries

variable {root : Path} {p q : Program}

theorem Respells.notices (h : p.Respells q) : List.Forall₂ Notice.Alike p.notices q.notices := by
  have hfiles : List.Forall₂ File.Respells p.files.values q.files.values :=
    List.rel_map (fun _ _ hfile => hfile.2) h
  refine List.rel_flatMap hfiles fun f g hfg => ?_
  exact List.rel_flatMap hfg.lines.values fun _ _ hline => hline.notices

/-- Every notice is shown under the path under which the one in its place is shown. -/
def ShowsPaths (root : Path) (p q : Program) : Prop :=
  List.Forall₂ (fun m n => root.shown m.location = root.shown n.location) p.notices q.notices

theorem Respells.showsAlike (h : p.Respells q) (hshown : p.ShowsPaths root q) :
    p.ShowsAlike root q := by
  intro path number
  have hboth : List.Forall₂ (fun m n => m.Alike n ∧ root.shown m.location = root.shown n.location)
      p.notices q.notices :=
    List.forall₂_iff_zip.mpr ⟨h.notices.length_eq, fun hmn =>
      ⟨List.forall₂_zip h.notices hmn, List.forall₂_zip hshown hmn⟩⟩
  have hplace : List.Forall₂ Notice.Alike (p.shownAt root path number)
      (q.shownAt root path number) := by
    refine (List.rel_filter (fun m n hmn => ?_) hboth).imp fun _ _ hmn => hmn.1
    simp only [hmn.2, hmn.1.line]
  refine List.rel_flatMap (forall₂_sortBy (fun a b c d hab hcd => ?_) hplace)
    fun _ _ hmn => hmn.splitRows
  rw [Notice.pairingOrder_eq, Notice.pairingOrder_eq, hab.pairingKey, hcd.pairingKey]

/-- Each file is shown under one path only. -/
def ShowsOnce (root : Path) (p : Program) : Prop :=
  ∀ m ∈ p.notices, ∀ n ∈ p.notices, m.location.parts = n.location.parts →
    root.shown m.location = root.shown n.location

theorem exists_row_of_mem (root : Path) {p : Program} {n : Notice} (hn : n ∈ p.notices) :
    ∃ row ∈ Notice.splitAll (p.shownAt root (root.shown n.location) n.line),
      row.location = n.location := by
  have hshown : n ∈ p.shownAt root (root.shown n.location) n.line :=
    List.mem_filter.mpr ⟨hn, by simp⟩
  obtain ⟨message, more, hrows⟩ := List.exists_cons_of_ne_nil (Text.cut_ne_nil '\n' n.message)
  have hrow : { n with message := message } ∈ n.splitRows :=
    List.mem_map.mpr ⟨message, by rw [Text.rows, hrows]; exact List.mem_cons_self, rfl⟩
  refine ⟨_, (Notice.splitAll_perm _).mem_iff.mpr (List.mem_flatMap.mpr ⟨n, hshown, hrow⟩), rfl⟩

theorem Respells.showsPaths (h : p.Respells q) (honce : q.ShowsOnce root)
    (halike : p.ShowsAlike root q) : p.ShowsPaths root q := by
  refine List.forall₂_iff_zip.mpr ⟨h.notices.length_eq, fun {m n} hmn => ?_⟩
  obtain ⟨hm, hn⟩ := List.of_mem_zip hmn
  have hsame := List.forall₂_zip h.notices hmn
  obtain ⟨row, hrow, hlocation⟩ := exists_row_of_mem root hm
  -- a row of `m` is shown in `q` as well, for a notice of the same file
  obtain ⟨row', hrow', hrows⟩ := exists_mem_of_forall₂ (halike _ _) hrow
  obtain ⟨n', hn', hrow'⟩ := List.mem_flatMap.mp ((Notice.splitAll_perm _).mem_iff.mp hrow')
  obtain ⟨message, -, rfl⟩ := List.mem_map.mp hrow'
  obtain ⟨hn', hplace⟩ := List.mem_filter.mp hn'
  have hpath : root.shown n'.location = root.shown m.location := by
    simpa using (Bool.and_eq_true_iff.mp hplace).1
  have hparts : n'.location.parts = n.location.parts := by
    rw [← hsame.location, ← hlocation]
    exact hrows.location.symm
  exact hpath.symm.trans (honce n' hn' n hn hparts)

end Program

/--
Another spelling of the locations of a program leaves every verdict as it is when every location is
still shown under the same path, as it is when only the path up to the root is spelled differently.
When a file is shown under one path only, that is necessary. In general the verdicts are the same
exactly when the same rows are shown at all places.
-/
theorem isMatch_respelled {p q : Program} (h : p.Respells q) (root : Path) :
    (p.ShowsPaths root q → ∀ other, (Comparison.ofPrograms root p other).isMatch =
      (Comparison.ofPrograms root q other).isMatch) ∧
    (q.ShowsOnce root → (∀ other, (Comparison.ofPrograms root p other).isMatch =
      (Comparison.ofPrograms root q other).isMatch) → p.ShowsPaths root q) ∧
    (p.ShowsAlike root q ↔ ∀ other, (Comparison.ofPrograms root p other).isMatch =
      (Comparison.ofPrograms root q other).isMatch) ∧
    ∀ above above' below : Path, above.parts = root.parts → above'.parts = root.parts →
      root.shown (above.join below) = root.shown (above'.join below) := by
  refine ⟨fun hshown => ?_, fun honce hsame => ?_, Program.showsAlike_iff,
    fun _ _ below habove habove' => Path.shown_join_congr habove habove' below⟩
  · exact Program.showsAlike_iff.mp (h.showsAlike hshown)
  · exact h.showsPaths honce (Program.showsAlike_iff.mpr hsame)

section

/-- A program with one note on the first line of the file at `location`. -/
private def noteAt (location : Path) : Program :=
  Program.empty.record ⟨location, 1, none, .note, "a".toList⟩

private theorem respells_noteAt {location location' : Path}
    (h : location.parts = location'.parts) : (noteAt location).Respells (noteAt location') :=
  .cons ⟨h, h, .cons ⟨rfl, h, rfl, .cons ⟨h, rfl, rfl, rfl, rfl⟩ .nil⟩ .nil, rfl⟩ .nil

private theorem notices_noteAt (location : Path) :
    (noteAt location).notices = [⟨location, 1, none, .note, "a".toList⟩] := rfl

theorem isMatch_respelled_above_root :
    let root : Path := ⟨"/r".toList⟩
    let p := noteAt ⟨"//r/./pkg/m.py".toList⟩
    let q := noteAt ⟨"/r/pkg/m.py".toList⟩
    p.Respells q ∧ p.ShowsPaths root q ∧ q.ShowsOnce root ∧
      ∀ other, (Comparison.ofPrograms root p other).isMatch =
        (Comparison.ofPrograms root q other).isMatch := by
  intro root p q
  have hrespells : p.Respells q := respells_noteAt (by decide)
  obtain ⟨hkeeps, honly, -, habove⟩ := isMatch_respelled hrespells root
  have hshown : p.ShowsPaths root q :=
    .cons (habove ⟨"//r/.".toList⟩ root ⟨"pkg/m.py".toList⟩ (by decide) rfl) .nil
  have honce : q.ShowsOnce root := by
    intro m hm n hn _
    rw [notices_noteAt, List.mem_singleton] at hm hn
    rw [hm, hn]
  exact ⟨hrespells, honly honce (hkeeps hshown), honce, hkeeps hshown⟩

/-- A doubled slash below the root: the same file, and yet another verdict. -/
theorem isMatch_ne_of_doubled_slash :
    let root : Path := ⟨"/r".toList⟩
    let p := noteAt ⟨"/r/pkg/m.py".toList⟩
    let q := noteAt ⟨"/r/pkg//m.py".toList⟩
    p.Respells q ∧ (Comparison.ofPrograms root p p).isMatch = true ∧
      (Comparison.ofPrograms root q p).isMatch = false := by
  intro root p q
  exact ⟨respells_noteAt (by decide), by decide, by decide⟩

end

end NoticeCheck
