import NoticeCheck.Proofs.Recording
import NoticeCheck.Proofs.Ties

/-!
The notices of a line in another order, in a program or in a transcript. The verdict stays when ties
keep their order, and for no other reason.
-/
namespace NoticeCheck

section

variable {keep : Notice → Option Notice} {ns ms : List PrintedNotice}

namespace File

theorem line?_foldl_recordKept_empty (location : Path) (ns : List PrintedNotice) (k : Nat) :
    (ns.foldl (File.recordKept keep) (.empty location)).line? k = Line.holding? location k
      ((ns.filter fun n => n.line == k).filterMap fun n => keep (n.noticeAt location)) := by
  have hkeyed := isKeyed_empty location
  rw [((isTight_empty location).foldl_recordKept hkeyed ns).line?_eq (hkeyed.foldl_recordKept ns),
    line_foldl_recordKept hkeyed, location_foldl_recordKept]
  rfl

/-- What is printed for one file in another order is recorded in that order, line by line. -/
theorem related_foldl_recordKept (h : ns.Perm ms) (location : Path) :
    (ns.foldl (File.recordKept keep) (.empty location)).Related List.Perm
      (ms.foldl (File.recordKept keep) (.empty location)) := by
  have hmade : ∀ k,
      ((ns.filter fun n => n.line == k).filterMap fun n => keep (n.noticeAt location)).Perm
        ((ms.filter fun n => n.line == k).filterMap fun n => keep (n.noticeAt location)) :=
    fun k => (h.filter _).filterMap _
  refine ⟨?_, SortedMap.related_of_get? (SortedMap.keys_eq_of_isSome_get? fun k => ?_)
    fun k l m hl hm => ?_, ?_⟩
  · rw [location_foldl_recordKept, location_foldl_recordKept]
  · change (line? _ k).isSome = (line? _ k).isSome
    rw [line?_foldl_recordKept_empty, line?_foldl_recordKept_empty, Line.isSome_holding?,
      Line.isSome_holding?, (hmade k).isEmpty_eq]
  · change line? _ k = some l at hl
    change line? _ k = some m at hm
    rw [line?_foldl_recordKept_empty, Line.holding?_eq_some_iff] at hl hm
    obtain ⟨-, rfl⟩ := hl
    obtain ⟨-, rfl⟩ := hm
    exact ⟨rfl, rfl, hmade k⟩
  · rw [names_foldl_recordKept, names_foldl_recordKept]

end File

namespace Program

theorem keys_foldl_recordKept (root : Path) {p q : Program} (hkeys : p.files.keys = q.files.keys)
    (hpaths : ns.map PrintedNotice.path = ms.map PrintedNotice.path) :
    (ns.foldl (recordKept keep root) p).files.keys =
      (ms.foldl (recordKept keep root) q).files.keys := by
  induction ns generalizing p q ms with
  | nil =>
    obtain rfl := List.map_eq_nil_iff.mp hpaths.symm
    exact hkeys
  | cons n ns ih =>
    cases ms with
    | nil => cases hpaths
    | cons m ms =>
      obtain ⟨hpath, hpaths⟩ : n.path = m.path ∧ ns.map PrintedNotice.path =
        ms.map PrintedNotice.path := List.cons.inj hpaths
      rw [List.foldl_cons, List.foldl_cons]
      refine ih ?_ hpaths
      rw [recordKept, recordKept, hpath]
      exact SortedMap.keys_insert hkeys _ _ _

/-- What is printed for each path in another order is recorded in that order, line by line. -/
theorem related_foldl_recordKept (root : Path) (h : ns.Perm ms)
    (hpaths : ns.map PrintedNotice.path = ms.map PrintedNotice.path) :
    (ns.foldl (recordKept keep root) .empty).Related List.Perm
      (ms.foldl (recordKept keep root) .empty) := by
  refine SortedMap.related_of_get? (keys_foldl_recordKept root rfl hpaths)
    fun location f g hf hg => ?_
  change file? _ location = some f at hf
  change file? _ location = some g at hg
  rw [file?_foldl_recordKept] at hf hg
  have hhere := h.filter fun n => compare location (root.join n.path) == .eq
  have hfirst : (ns.filter fun n => compare location (root.join n.path) == .eq).map
      PrintedNotice.path = (ms.filter fun n => compare location (root.join n.path) == .eq).map
        PrintedNotice.path := by
    have hfilter := congrArg (List.filter fun path => compare location (root.join path) == .eq)
      hpaths
    rwa [List.filter_map, List.filter_map] at hfilter
  generalize ns.filter (fun n => compare location (root.join n.path) == .eq) = here at *
  generalize ms.filter (fun n => compare location (root.join n.path) == .eq) = here' at *
  cases here with
  | nil => cases hf
  | cons n here =>
    cases here' with
    | nil => cases hfirst
    | cons m here' =>
      have hpath : n.path = m.path := (List.cons.inj hfirst).1
      obtain rfl := Option.some.inj hf
      obtain rfl := Option.some.inj hg
      rw [hpath]
      exact File.related_foldl_recordKept hhere _

end Program

end

namespace Transcript

/-- The path and the line number that a printed line is about, if it can be read. -/
def place? (line : Text) : Option (Path × Nat) :=
  (readLine line).toOption.map fun n => (n.path, n.line)

/-- The same lines, but those about one path and line number may have changed places. -/
structure Reorders (stdout stdout' : Text) : Prop where
  lines : (noticeLines stdout).Perm (noticeLines stdout')
  places : (noticeLines stdout).map place? = (noticeLines stdout').map place?

theorem Reorders.symm {stdout stdout' : Text} (h : Reorders stdout stdout') :
    Reorders stdout' stdout :=
  ⟨h.lines.symm, h.places.symm⟩

theorem map_place?_of_forall₂ {lines : List Text} {ns : List PrintedNotice}
    (h : List.Forall₂ (fun line n => readLine line = .ok n) lines ns) :
    lines.map place? = (ns.map fun n => (n.path, n.line)).map some := by
  induction h with
  | nil => rfl
  | cons hline _ ih =>
    rw [List.map_cons, List.map_cons, List.map_cons, ih, place?, hline]
    rfl

/-- A transcript with its lines in another order prints the same notices in another order. -/
theorem Reorders.exists_mapM {stdout stdout' : Text} (h : Reorders stdout stdout')
    {ns : List PrintedNotice} (hread : (noticeLines stdout).mapM readLine = .ok ns) :
    ∃ ms, (noticeLines stdout').mapM readLine = .ok ms ∧ ns.Perm ms ∧
      ns.map PrintedNotice.path = ms.map PrintedNotice.path := by
  have hlines := forall₂_of_mapM_eq_ok hread
  obtain ⟨ms, hlines', hperm⟩ := List.perm_comp_forall₂ h.lines.symm hlines
  refine ⟨ms, mapM_eq_ok_of_forall₂ hlines', hperm.symm, ?_⟩
  have hplaces := h.places
  rw [map_place?_of_forall₂ hlines, map_place?_of_forall₂ hlines'] at hplaces
  have hpaths := congrArg (List.map Prod.fst)
    (List.map_injective_iff.mpr (Option.some_injective _) hplaces)
  rwa [List.map_map, List.map_map] at hpaths

end Transcript

/-- Reading a transcript with its lines in another order. -/
theorem Program.addLines_of_reorders {stdout stdout' : Text}
    (h : Transcript.Reorders stdout stdout') (keep : Notice → Option Notice) (root : Path) :
    ((∃ e, Program.empty.addLines (.ofFunction keep) root (Transcript.noticeLines stdout) =
          .error e) ∧
      ∃ e, Program.empty.addLines (.ofFunction keep) root (Transcript.noticeLines stdout') =
        .error e) ∨
      ∃ p q, Program.empty.addLines (.ofFunction keep) root (Transcript.noticeLines stdout) =
          .ok p ∧
        Program.empty.addLines (.ofFunction keep) root (Transcript.noticeLines stdout') = .ok q ∧
        p.Related List.Perm q := by
  simp only [addLines_ofFunction]
  cases hread : (Transcript.noticeLines stdout).mapM Transcript.readLine with
  | ok ns =>
    obtain ⟨ms, hread', hperm, hpaths⟩ := h.exists_mapM hread
    rw [hread']
    exact .inr ⟨_, _, rfl, rfl, related_foldl_recordKept root hperm hpaths⟩
  | error e =>
    cases hread' : (Transcript.noticeLines stdout').mapM Transcript.readLine with
    | error e' => exact .inl ⟨⟨e, rfl⟩, e', rfl⟩
    | ok ms =>
      obtain ⟨ns, hok, -⟩ := h.symm.exists_mapM hread'
      rw [hread] at hok
      cases hok

/--
Notices recorded in another order leave every verdict as it is, on either side, exactly when ties
keep their order. A transcript with the notices of its lines in another order is read as a program
with them in another order, or neither can be read.
-/
theorem isMatch_reordered (root : Path) :
    (∀ p p' q q' : Program, p.KeepsTies root p' → q.KeepsTies root q' →
      (Comparison.ofPrograms root p q).isMatch = (Comparison.ofPrograms root p' q').isMatch) ∧
    (∀ p p' : Program, p.Related List.Perm p' →
      (p.KeepsTies root p' ↔ ∀ other, (Comparison.ofPrograms root p other).isMatch =
        (Comparison.ofPrograms root p' other).isMatch) ∧
      (p.KeepsTies root p' ↔ ∀ other, (Comparison.ofPrograms root other p).isMatch =
        (Comparison.ofPrograms root other p').isMatch)) ∧
    ∀ keep stdout stdout', Transcript.Reorders stdout stdout' →
      ((∃ e, Program.empty.addLines (.ofFunction keep) root (Transcript.noticeLines stdout) =
            .error e) ∧
        ∃ e, Program.empty.addLines (.ofFunction keep) root (Transcript.noticeLines stdout') =
          .error e) ∨
        ∃ p p', Program.empty.addLines (.ofFunction keep) root (Transcript.noticeLines stdout) =
            .ok p ∧
          Program.empty.addLines (.ofFunction keep) root (Transcript.noticeLines stdout') =
            .ok p' ∧
          p.Related List.Perm p' ∧
          (p.KeepsTies root p' ↔ ∀ expected,
            (checkTranscript expected stdout (.ofFunction keep) root = .ok () ↔
              checkTranscript expected stdout' (.ofFunction keep) root = .ok ())) := by
  refine ⟨fun p p' q q' => Comparison.isMatch_congr, fun p p' hrelated => ⟨?_, ?_⟩,
    fun keep stdout stdout' hreorders => ?_⟩
  · exact Program.keepsTies_iff hrelated.notices_perm
  · rw [Program.keepsTies_iff hrelated.notices_perm]
    simp only [Comparison.isMatch_comm root p, Comparison.isMatch_comm root p']
  · rcases Program.addLines_of_reorders hreorders keep root with
      herrors | ⟨p, p', hread, hread', hrelated⟩
    · exact .inl herrors
    · refine .inr ⟨p, p', hread, hread', hrelated, ?_⟩
      rw [Program.keepsTies_iff hrelated.notices_perm]
      simp only [checkTranscript_eq_ok_iff, hread, hread', Except.ok.injEq, exists_eq_left']
      exact forall_congr' fun expected => Bool.eq_iff_iff

section

private def lineRoot : Path :=
  ⟨"/r".toList⟩

private def lineError (column : Option Nat) (subtype message : Text) : Notice :=
  ⟨lineRoot.join ⟨"m.py".toList⟩, 1, column, .error subtype, message⟩

/-- A program with notices on the first line of one file. -/
private def lineProgram (notices : List Notice) : Program :=
  let location := lineRoot.join ⟨"m.py".toList⟩
  Program.empty.setFile location
    (some ((File.empty location).setLine 1 (some ⟨location, 1, notices⟩)))

private theorem related_lineProgram {notices notices' : List Notice} (h : notices.Perm notices') :
    (lineProgram notices).Related List.Perm (lineProgram notices') :=
  .cons ⟨rfl, rfl, .cons ⟨rfl, rfl, rfl, h⟩ .nil, rfl⟩ .nil

private theorem notices_lineProgram (notices : List Notice) :
    (lineProgram notices).notices = notices :=
  (List.append_nil _).trans (List.append_nil _)

theorem isMatch_reordered_messages :
    let first := lineError (some 2) "arg".toList "b".toList
    let second := lineError (some 5) "arg".toList "a".toList
    let expected := lineProgram [lineError none "arg".toList "b".toList, lineError none [] "a".toList]
    let stdout := "m.py:1:2: error: b  [arg]\nm.py:1:5: error: a  [arg]\n".toList
    let stdout' := "m.py:1:5: error: a  [arg]\nm.py:1:2: error: b  [arg]\n".toList
    (lineProgram [first, second]).Related List.Perm (lineProgram [second, first]) ∧
      (lineProgram [first, second]).KeepsTies lineRoot (lineProgram [second, first]) ∧
      Transcript.Reorders stdout stdout' ∧
      (Comparison.ofPrograms lineRoot (lineProgram [second, first]) expected).isMatch = true ∧
      (Comparison.ofPrograms lineRoot expected (lineProgram [second, first])).isMatch = true ∧
      checkTranscript expected stdout' (.ofFunction some) lineRoot = .ok () := by
  intro first second expected stdout stdout'
  obtain ⟨hboth, hsides, htranscripts⟩ := isMatch_reordered lineRoot
  have hrelated := related_lineProgram (.swap second first [])
  have hreorders : Transcript.Reorders stdout stdout' := ⟨by decide +kernel, by decide +kernel⟩
  have hties : (lineProgram [first, second]).KeepsTies lineRoot (lineProgram [second, first]) := by
    refine Program.keepsTies_of_perm hrelated.notices_perm fun m hm n hn _ hkey => ?_
    rw [notices_lineProgram, List.mem_pair] at hm hn
    rcases hm with rfl | rfl <;> rcases hn with rfl | rfl
    · exact .refl _
    · exact absurd hkey (by decide)
    · exact absurd hkey (by decide)
    · exact .refl _
  have hmatch : (Comparison.ofPrograms lineRoot (lineProgram [first, second]) expected).isMatch =
      true := by decide +kernel
  have hmatch' : (Comparison.ofPrograms lineRoot expected (lineProgram [first, second])).isMatch =
      true := by decide +kernel
  have hread : Program.empty.addLines (.ofFunction some) lineRoot (Transcript.noticeLines stdout) =
      .ok (lineProgram [first, second]) := eq_ok_of_toOption (by decide +kernel)
  have hread' : Program.empty.addLines (.ofFunction some) lineRoot (Transcript.noticeLines stdout') =
      .ok (lineProgram [second, first]) := eq_ok_of_toOption (by decide +kernel)
  refine ⟨hrelated, hties, hreorders, ?_, ?_, ?_⟩
  · exact (hboth _ _ _ _ hties (.refl lineRoot expected)).symm.trans hmatch
  · exact ((hsides _ _ hrelated).2.mp hties expected).symm.trans hmatch'
  · rcases htranscripts some stdout stdout' hreorders with
      ⟨⟨e, he⟩, -⟩ | ⟨p, p', hp, hp', -, hverdicts⟩
    · rw [hread] at he
      cases he
    · obtain rfl := Except.ok.inj (hread.symm.trans hp)
      obtain rfl := Except.ok.inj (hread'.symm.trans hp')
      refine (hverdicts.mp hties expected).mp ?_
      exact (checkTranscript_eq_ok_iff _ _ _ _).mpr ⟨_, hread, hmatch⟩

/-- Level errors with other subtypes in another order: the verdict is another one. -/
theorem isMatch_ne_of_reordered_subtypes :
    let first := lineError none "a".toList "m".toList
    let second := lineError none "b".toList "m".toList
    let stdout := "m.py:1: error: m  [a]\nm.py:1: error: m  [b]\n".toList
    let stdout' := "m.py:1: error: m  [b]\nm.py:1: error: m  [a]\n".toList
    (lineProgram [first, second]).Related List.Perm (lineProgram [second, first]) ∧
      (Comparison.ofPrograms lineRoot (lineProgram [first, second])
        (lineProgram [first, second])).isMatch = true ∧
      (Comparison.ofPrograms lineRoot (lineProgram [second, first])
        (lineProgram [first, second])).isMatch = false ∧
      Transcript.Reorders stdout stdout' ∧
      checkTranscript (lineProgram [first, second]) stdout (.ofFunction some) lineRoot = .ok () ∧
      checkTranscript (lineProgram [first, second]) stdout' (.ofFunction some) lineRoot ≠
        .ok () := by
  intro first second stdout stdout'
  have hreorders : Transcript.Reorders stdout stdout' := ⟨by decide +kernel, by decide +kernel⟩
  have hpasses : checkTranscript (lineProgram [first, second]) stdout (.ofFunction some) lineRoot =
      .ok () := eq_ok_of_toOption (by decide +kernel)
  have hfails : (checkTranscript (lineProgram [first, second]) stdout' (.ofFunction some)
      lineRoot).toOption = none := by decide +kernel
  refine ⟨related_lineProgram (.swap _ _ _), by decide +kernel, by decide +kernel, hreorders,
    hpasses, fun hpasses' => ?_⟩
  rw [hpasses'] at hfails
  cases hfails

end

end NoticeCheck
