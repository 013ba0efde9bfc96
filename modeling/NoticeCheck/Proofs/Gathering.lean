import Mathlib.Data.List.Induction
import NoticeCheck.Proofs.Check
import NoticeCheck.Proofs.Recording

/-!
What a program holds after printed lines were added to it. Every notice goes behind those of its
line, whatever files and lines come between, and is spelled as the program spells its line.
-/
namespace NoticeCheck

/-- A printed notice is about a line of the file at a location. -/
def PrintedNotice.isAbout (root location : Path) (number : Nat) (n : PrintedNotice) : Bool :=
  location.same (root.join n.path) && n.line == number

variable {keep : Notice → Option Notice} {root : Path}

namespace File

/-- Every line is kept under its own number and, up to spelling, at the location of the file. -/
structure IsIndexed (f : File) : Prop where
  location : ∀ k, (f.line k).location.same f.location = true
  number : ∀ k, (f.line k).number = k

theorem isIndexed_empty (location : Path) : (empty location).IsIndexed where
  location _ := location.same_refl
  number _ := rfl

variable {f : File}

theorem IsIndexed.setLine (h : f.IsIndexed) {number : Nat} {l : Option Line}
    (hl : ∀ m ∈ l, m.location.same f.location = true ∧ m.number = number) :
    (f.setLine number l).IsIndexed := by
  have hline : ∀ k, ((f.setLine number l).line k).location.same f.location = true ∧
      ((f.setLine number l).line k).number = k := by
    intro k
    rw [line_setLine]
    split
    · next hk =>
      cases l with
      | none => exact ⟨f.location.same_refl, rfl⟩
      | some m => exact hk ▸ hl m rfl
    · exact ⟨h.location k, h.number k⟩
  exact ⟨fun k => (hline k).1, fun k => (hline k).2⟩

theorem IsIndexed.recordKept (h : f.IsIndexed) (n : PrintedNotice) :
    (f.recordKept keep n).IsIndexed := by
  refine h.setLine fun m hm => ?_
  rw [Line.append?_eq_holding?] at hm
  obtain ⟨-, rfl⟩ := Line.holding?_eq_some_iff.mp hm
  exact ⟨h.location n.line, h.number n.line⟩

/-- A line without notices is gone, which leaves it without notices. -/
theorem notices_recordKept (h : f.IsIndexed) (n : PrintedNotice) (k : Nat) :
    ((f.recordKept keep n).line k).notices = (f.line k).notices ++
      if n.line = k then (keep (n.noticeAt (f.line k).location)).toList else [] := by
  unfold recordKept
  rw [line_setLine, Line.append?_eq_holding?]
  by_cases hk : n.line = k
  · subst hk
    have hmade : ({ (f.line n.line).notice n.severity n.message with
        column := n.column } : Notice) = n.noticeAt (f.line n.line).location := by
      simp only [Line.notice, PrintedNotice.noticeAt, h.number]
    have hkept : ∀ kept : Option Notice, [kept].reduceOption = kept.toList := by
      intro kept
      cases kept <;> rfl
    rw [if_pos rfl, if_pos rfl, hmade, hkept]
    generalize (f.line n.line).notices ++ _ = held
    cases held <;> rfl
  · rw [if_neg (Ne.symm hk), if_neg hk, List.append_nil]

end File

namespace Program

/-- Every file and every line is kept under its own location, up to spelling, and number. -/
structure IsIndexed (p : Program) : Prop where
  location : ∀ location, (p.file location).location.same location = true
  file : ∀ location, (p.file location).IsIndexed

/-- The notices kept for a line of a file; none when there is no such line. -/
def noticesAt (p : Program) (location : Path) (number : Nat) : List Notice :=
  ((p.file location).line number).notices

/-- The location that a new notice about a line of a file gets. -/
def spelling (p : Program) (location : Path) (number : Nat) : Path :=
  ((p.file location).line number).location

theorem isIndexed_empty : empty.IsIndexed where
  location := Path.same_refl
  file := File.isIndexed_empty

theorem file_setFile (p : Program) (place location : Path) (f : File) :
    (p.setFile place (some f)).file location =
      if location.same place = true then f else p.file location := by
  unfold file
  rw [file?_setFile]
  simp only [Path.compare_eq_iff]
  split <;> rfl

theorem IsIndexed.setFile {p : Program} (h : p.IsIndexed) {place : Path} {f : File}
    (hlocation : f.location.same place = true) (hf : f.IsIndexed) :
    (p.setFile place (some f)).IsIndexed := by
  refine ⟨fun location => ?_, fun location => ?_⟩ <;> rw [file_setFile] <;> split
  · next hsame => exact Path.same_trans hlocation (Path.same_symm hsame)
  · exact h.location location
  · exact hf
  · exact h.file location

variable {p : Program}

theorem IsIndexed.recordKept (h : p.IsIndexed) (n : PrintedNotice) :
    (p.recordKept keep root n).IsIndexed :=
  h.setFile (h.location _) ((h.file _).recordKept n)

/-- An absent file is without notices and names under every spelling. -/
theorem file_congr {location location' : Path} (h : location.same location' = true) (k : Nat) :
    p.noticesAt location k = p.noticesAt location' k ∧
      (p.file location).names = (p.file location').names := by
  unfold noticesAt file file?
  rw [SortedMap.get?_congr (Path.compare_eq_iff.mpr h)]
  cases p.files.get? location' <;> exact ⟨rfl, rfl⟩

theorem IsIndexed.same_spelling (h : p.IsIndexed) (location : Path) (k : Nat) :
    (p.spelling location k).same location = true :=
  Path.same_trans ((h.file location).location k) (h.location location)

theorem noticesAt_recordKept (h : p.IsIndexed) (n : PrintedNotice) (location : Path) (k : Nat) :
    (p.recordKept keep root n).noticesAt location k = p.noticesAt location k ++
      if n.isAbout root location k then
        (keep (n.noticeAt (p.spelling (root.join n.path) n.line))).toList else [] := by
  have hfile : ∀ k, (((p.file (root.join n.path)).recordKept keep n).line k).notices =
      p.noticesAt (root.join n.path) k ++ if n.line = k then
        (keep (n.noticeAt (p.spelling (root.join n.path) k))).toList else [] :=
    File.notices_recordKept (h.file _) n
  unfold recordKept
  rw [noticesAt, file_setFile]
  by_cases hsame : location.same (root.join n.path) = true
  · rw [if_pos hsame, hfile, ← (file_congr hsame k).1]
    by_cases hk : n.line = k
    · simp [PrintedNotice.isAbout, hsame, hk]
    · simp [PrintedNotice.isAbout, hk]
  · rw [if_neg hsame]
    simp [PrintedNotice.isAbout, hsame, noticesAt]

theorem IsIndexed.foldl_recordKept (h : p.IsIndexed) (ns : List PrintedNotice) :
    (ns.foldl (Program.recordKept keep root) p).IsIndexed :=
  List.foldlRecOn ns _ h fun _ hq n _ => hq.recordKept n

/-- What is kept of the notices printed about a line goes behind what was there, in order. -/
theorem noticesAt_foldl_recordKept (h : p.IsIndexed) (ns : List PrintedNotice) (location : Path)
    (k : Nat) :
    (ns.foldl (recordKept keep root) p).noticesAt location k = p.noticesAt location k ++
      (ns.zipIdx.filter fun e => e.1.isAbout root location k).filterMap fun e =>
        keep (e.1.noticeAt (((ns.take e.2).foldl (recordKept keep root) p).spelling
          (root.join e.1.path) e.1.line)) := by
  induction ns using List.reverseRecOn with
  | nil => simp
  | append_singleton ns n ih =>
    have hearlier : ∀ e ∈ ns.zipIdx.filter fun e => e.1.isAbout root location k,
        (ns ++ [n]).take e.2 = ns.take e.2 := by
      intro e he
      have hlt : e.2 < ns.length := List.snd_lt_of_mem_zipIdx (List.mem_filter.mp he).1
      exact List.take_append_of_le_length (Nat.le_of_lt hlt)
    have hmade := List.filterMap_congr fun e he => congrArg (fun earlier =>
      keep (e.1.noticeAt ((earlier.foldl (recordKept keep root) p).spelling
        (root.join e.1.path) e.1.line))) (hearlier e he)
    rw [List.foldl_concat, noticesAt_recordKept (h.foldl_recordKept ns), ih, List.zipIdx_append,
      List.filter_append, List.filterMap_append, hmade, List.append_assoc]
    congr 2
    by_cases habout : n.isAbout root location k = true
    · cases hkept : keep (n.noticeAt ((ns.foldl (recordKept keep root) p).spelling
        (root.join n.path) n.line)) <;> simp [habout, hkept]
    · simp [habout]

theorem names_foldl_recordKept (ns : List PrintedNotice) (p : Program) (location : Path) :
    ((ns.foldl (recordKept keep root) p).file location).names = (p.file location).names := by
  induction ns generalizing p with
  | nil => rfl
  | cons n ns ih =>
    rw [List.foldl_cons, ih, recordKept, file_setFile]
    split
    · next hsame => exact (file_congr hsame 0).2.symm
    · rfl

theorem isSome_file?_foldl_recordKept (ns : List PrintedNotice) (p : Program) (location : Path) :
    ((ns.foldl (recordKept keep root) p).file? location).isSome = true ↔
      (p.file? location).isSome = true ∨ ∃ n ∈ ns, location.same (root.join n.path) = true := by
  induction ns generalizing p with
  | nil => simp
  | cons n ns ih =>
    rw [List.foldl_cons, ih, file?_recordKept]
    by_cases hsame : location.same (root.join n.path) = true
    · simp [Path.compare_eq_iff, hsame]
    · simp [Path.compare_eq_iff, hsame]

end Program

theorem mapM_eq_error_iff {ε α β : Type} {read : α → Except ε β} {as : List α} {e : ε} :
    as.mapM read = .error e ↔ ∃ above a below, as = above ++ a :: below ∧
      (∀ b ∈ above, ∃ c, read b = .ok c) ∧ read a = .error e := by
  constructor
  · intro h
    induction as with
    | nil => cases h
    | cons a as ih =>
      rw [List.mapM_cons] at h
      cases hfirst : read a with
      | error e' =>
        rw [hfirst] at h
        obtain rfl : e' = e := Except.error.inj h
        exact ⟨[], a, as, rfl, nofun, hfirst⟩
      | ok c =>
        have hrest : as.mapM read = .error e := by
          cases hrest : as.mapM read with
          | error e' =>
            rw [hfirst, hrest] at h
            exact congrArg _ (Except.error.inj h)
          | ok cs =>
            rw [hfirst, hrest] at h
            cases h
        obtain ⟨above, b, below, rfl, habove, hb⟩ := ih hrest
        refine ⟨a :: above, b, below, rfl, fun x hx => ?_, hb⟩
        rcases List.mem_cons.mp hx with rfl | hx
        · exact ⟨c, hfirst⟩
        · exact habove x hx
  · rintro ⟨above, a, below, rfl, habove, ha⟩
    induction above with
    | nil =>
      rw [List.nil_append, List.mapM_cons, ha]
      rfl
    | cons b above ih =>
      obtain ⟨c, hc⟩ := habove b List.mem_cons_self
      have hrest := ih fun x hx => habove x (List.mem_cons_of_mem _ hx)
      rw [List.cons_append, List.mapM_cons, hc, hrest]
      rfl

namespace Transcript

theorem readLine_eq_ok_iff {line : Text} {n : PrintedNotice} :
    readLine line = .ok n ↔ PrintedNotice.parse line = .ok n := by
  unfold readLine
  cases PrintedNotice.parse line <;> simp [Except.mapError]

theorem readLine_eq_error_iff {line : Text} {e : TranscriptError} :
    readLine line = .error e ↔
      ∃ fault, PrintedNotice.parse line = .error fault ∧ e = .ofFault line fault := by
  unfold readLine
  cases PrintedNotice.parse line <;> simp [Except.mapError, eq_comm]

end Transcript

namespace Program

theorem addLines_eq_ok_iff {p q : Program} {lines : List Text} :
    p.addLines (.ofFunction keep) root lines = .ok q ↔
      ∃ ns, List.Forall₂ (fun line n => PrintedNotice.parse line = .ok n) lines ns ∧
        ns.foldl (recordKept keep root) p = q := by
  rw [addLines_ofFunction]
  constructor
  · intro h
    cases hns : lines.mapM Transcript.readLine with
    | error e =>
      rw [hns] at h
      cases h
    | ok ns =>
      rw [hns] at h
      have hlines := forall₂_of_mapM_eq_ok hns
      simp only [Transcript.readLine_eq_ok_iff] at hlines
      exact ⟨ns, hlines, Except.ok.inj h⟩
  · rintro ⟨ns, hlines, rfl⟩
    simp only [← Transcript.readLine_eq_ok_iff] at hlines
    rw [mapM_eq_ok_of_forall₂ hlines]
    rfl

theorem addLines_eq_error_iff {p : Program} {lines : List Text} {e : TranscriptError} :
    p.addLines (.ofFunction keep) root lines = .error e ↔
      ∃ above line below fault, lines = above ++ line :: below ∧
        (∀ earlier ∈ above, ∃ n, PrintedNotice.parse earlier = .ok n) ∧
        PrintedNotice.parse line = .error fault ∧ e = .ofFault line fault := by
  have hread : p.addLines (.ofFunction keep) root lines = .error e ↔
      lines.mapM Transcript.readLine = .error e := by
    rw [addLines_ofFunction]
    cases lines.mapM Transcript.readLine <;> simp [Except.map]
  rw [hread, mapM_eq_error_iff]
  simp only [Transcript.readLine_eq_ok_iff, Transcript.readLine_eq_error_iff]
  constructor
  · rintro ⟨above, line, below, hlines, habove, fault, hline, rfl⟩
    exact ⟨above, line, below, fault, hlines, habove, hline, rfl⟩
  · rintro ⟨above, line, below, fault, hlines, habove, hline, rfl⟩
    exact ⟨above, line, below, hlines, habove, fault, hline, rfl⟩

end Program

/--
Lines are read until the first that cannot be, whose fault is the error. When all can be read, the
notices at every place are those that were there and then what the normaliser leaves of those
printed about it, in order, each at the location that the program had for it by then.
-/
theorem addLines_gathers (keep : Notice → Option Notice) (root : Path) {into : Program}
    (hinto : into.IsIndexed) (lines : List Text) :
    (∀ e, into.addLines (.ofFunction keep) root lines = .error e ↔
      ∃ above line below fault, lines = above ++ line :: below ∧
        (∀ earlier ∈ above, ∃ n, PrintedNotice.parse earlier = .ok n) ∧
        PrintedNotice.parse line = .error fault ∧ e = .ofFault line fault) ∧
    ((∃ e, into.addLines (.ofFunction keep) root lines = .error e) ↔
      ∃ line ∈ lines, ∃ fault, PrintedNotice.parse line = .error fault) ∧
    (∀ m, into.addLines (.ofFunction keep) root lines ≠ .error (.missing m)) ∧
    ∀ p, into.addLines (.ofFunction keep) root lines = .ok p →
      ∃ (ns : List PrintedNotice) (tree : Nat → Program),
        List.Forall₂ (fun line n => PrintedNotice.parse line = .ok n) lines ns ∧
        (∀ i, into.addLines (.ofFunction keep) root (lines.take i) = .ok (tree i)) ∧
        (∀ location number, p.noticesAt location number = into.noticesAt location number ++
          (ns.zipIdx.filter fun e => e.1.isAbout root location number).filterMap fun e =>
            keep (e.1.noticeAt ((tree e.2).spelling (root.join e.1.path) e.1.line))) ∧
        (∀ i location number, ((tree i).spelling location number).same location = true) ∧
        (∀ location, (p.file? location).isSome = true ↔ (into.file? location).isSome = true ∨
          ∃ n ∈ ns, location.same (root.join n.path) = true) ∧
        ∀ location, (p.file location).names = (into.file location).names := by
  refine ⟨fun e => Program.addLines_eq_error_iff, ⟨?_, ?_⟩, ?_, ?_⟩
  · rintro ⟨e, h⟩
    obtain ⟨above, line, below, fault, rfl, -, hline, -⟩ := Program.addLines_eq_error_iff.mp h
    exact ⟨line, by simp, fault, hline⟩
  · rintro ⟨line, hmem, fault, hline⟩
    cases h : into.addLines (.ofFunction keep) root lines with
    | error e => exact ⟨e, rfl⟩
    | ok p =>
      obtain ⟨ns, hlines, -⟩ := Program.addLines_eq_ok_iff.mp h
      obtain ⟨i, hi, rfl⟩ := List.getElem_of_mem hmem
      have hn := hlines.get hi (hlines.length_eq ▸ hi)
      rw [List.get_eq_getElem, hline] at hn
      cases hn
  · intro m h
    obtain ⟨_, _, _, fault, _, _, _, hm⟩ := Program.addLines_eq_error_iff.mp h
    cases fault <;> cases hm
  · intro p hp
    obtain ⟨ns, hlines, rfl⟩ := Program.addLines_eq_ok_iff.mp hp
    refine ⟨ns, fun i => (ns.take i).foldl (Program.recordKept keep root) into, hlines,
      fun i => ?_, Program.noticesAt_foldl_recordKept hinto ns, fun i => ?_,
      Program.isSome_file?_foldl_recordKept ns into, Program.names_foldl_recordKept ns into⟩
    · exact Program.addLines_eq_ok_iff.mpr ⟨ns.take i, List.forall₂_take i hlines, rfl⟩
    · exact (hinto.foldl_recordKept _).same_spelling

/-- Errors and warnings from two files, added behind a note that spells its file in another way. -/
theorem addLines_gathers_interleaved :
    let root : Path := ⟨"/r".toList⟩
    let file : Path := ⟨"/r/m.py".toList⟩
    let other : Path := ⟨"/r/n.py".toList⟩
    let spelled : Path := ⟨"/r//m.py".toList⟩
    let old : Notice := ⟨spelled, 1, none, .note, "old".toList⟩
    let into := Program.empty.setFile file
      (some ((File.empty file).setLine 1 (some ⟨spelled, 1, [old]⟩)))
    let keep : Notice → Option Notice := fun n => if n.severity = .note then none else some n
    let lines := ["./m.py:1:4: error: a  [x]".toList, "n.py:2: note: b".toList,
      "m.py:1: note: c".toList, "m.py:1: warning: d".toList]
    into.IsIndexed ∧ ∃ p, into.addLines (.ofFunction keep) root lines = .ok p ∧
      p.noticesAt file 1 = [old, ⟨spelled, 1, some 4, .error "x".toList, "a".toList⟩,
        ⟨spelled, 1, none, .warning, "d".toList⟩] ∧
      p.noticesAt other 2 = [] ∧ (p.file? other).isSome = true ∧
      (p.file file).names = (into.file file).names := by
  intro root file other spelled old into keep lines
  have hindexed : into.IsIndexed := by
    have hfile : ((File.empty file).setLine 1 (some ⟨spelled, 1, [old]⟩)).IsIndexed := by
      refine (File.isIndexed_empty file).setLine fun m hm => ?_
      obtain rfl := Option.some.inj hm
      exact ⟨by decide, rfl⟩
    exact Program.isIndexed_empty.setFile file.same_refl hfile
  obtain ⟨-, -, -, hok⟩ := addLines_gathers keep root hindexed lines
  let p := (into.addLines (.ofFunction keep) root lines).toOption.getD .empty
  have hp : into.addLines (.ofFunction keep) root lines = .ok p :=
    eq_ok_of_toOption (by decide +kernel)
  obtain ⟨ns, tree, hlines, -, -, -, hknown, hnames⟩ := hok p hp
  refine ⟨hindexed, p, hp, by decide +kernel, by decide +kernel, ?_, hnames file⟩
  obtain ⟨_, _, -, hrest, rfl⟩ := List.forall₂_cons_left_iff.mp hlines
  obtain ⟨_, _, hsecond, -, rfl⟩ := List.forall₂_cons_left_iff.mp hrest
  have hread : PrintedNotice.parse "n.py:2: note: b".toList =
    .ok ⟨⟨"n.py".toList⟩, 2, none, .note, "b".toList⟩ := eq_ok_of_toOption (by decide +kernel)
  obtain rfl := Except.ok.inj (hread.symm.trans hsecond)
  exact (hknown other).mpr
    (.inr ⟨_, List.mem_cons_of_mem _ List.mem_cons_self, by decide⟩)

end NoticeCheck
