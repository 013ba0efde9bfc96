import Mathlib.Data.List.Forall2
import NoticeCheck.Proofs.Task
import NoticeCheck.Transcript

/-!
Reading a transcript when the normaliser is a function. What is recorded for a line depends only on
the notices printed for that line, and what is recorded for a file on those printed at its path.
-/
namespace NoticeCheck

/-- A line with the given notices, if there are any. -/
def Line.holding? (location : Path) (number : Nat) : List Notice → Option Line
  | [] => none
  | notices => some ⟨location, number, notices⟩

theorem Line.getD_holding? (location : Path) (number : Nat) (notices : List Notice) :
    (holding? location number notices).getD (.empty location number) =
      ⟨location, number, notices⟩ := by
  cases notices <;> rfl

theorem Line.holding?_eq_some_iff {location : Path} {number : Nat} {notices : List Notice}
    {l : Line} : holding? location number notices = some l ↔
      notices ≠ [] ∧ l = ⟨location, number, notices⟩ := by
  cases notices <;> simp [holding?, eq_comm]

theorem Line.isSome_holding? (location : Path) (number : Nat) (notices : List Notice) :
    (holding? location number notices).isSome = !notices.isEmpty := by
  cases notices <;> rfl

theorem Line.withNotices?_eq_holding? (l : Line) (notices : List (Option Notice)) :
    l.withNotices? notices = holding? l.location l.number notices.reduceOption := by
  unfold withNotices?
  cases notices.reduceOption <;> rfl

theorem Line.append?_eq_holding? (l : Line) (made : List (Option Notice)) :
    l.append? made = holding? l.location l.number (l.notices ++ made.reduceOption) := by
  rw [append?, withNotices?_eq_holding?, List.reduceOption_append, reduceOption_map_some]

/-- The notice printed about a file at `location`, before it is normalised. -/
def PrintedNotice.noticeAt (location : Path) (n : PrintedNotice) : Notice :=
  ⟨location, n.line, n.column, n.severity, n.message⟩

variable (keep : Notice → Option Notice)

namespace File

/-- A file after a printed notice, which is recorded as `keep` leaves it. -/
def recordKept (f : File) (n : PrintedNotice) : File :=
  f.setLine n.line ((f.line n.line).append?
    [keep { (f.line n.line).notice n.severity n.message with column := n.column }])

/-- Every line is kept under its own number and at the location of the file. -/
structure IsKeyed (f : File) : Prop where
  location : ∀ k, (f.line k).location = f.location
  number : ∀ k, (f.line k).number = k

theorem IsKeyed.line_eq {f : File} (h : f.IsKeyed) (k : Nat) :
    f.line k = ⟨f.location, k, (f.line k).notices⟩ := by
  rw [← h.location k]
  nth_rewrite 3 [← h.number k]
  rfl

theorem isKeyed_empty (location : Path) : (empty location).IsKeyed :=
  ⟨fun _ => rfl, fun _ => rfl⟩

@[simp] theorem location_recordKept (f : File) (n : PrintedNotice) :
    (f.recordKept keep n).location = f.location := rfl

variable {keep} {f : File}

theorem line?_recordKept (h : f.IsKeyed) (n : PrintedNotice) (k : Nat) :
    (f.recordKept keep n).line? k =
      if n.line = k then Line.holding? f.location k
        ((f.line k).notices ++ (keep (n.noticeAt f.location)).toList)
      else f.line? k := by
  have hmade : ({ (f.line n.line).notice n.severity n.message with column := n.column } : Notice) =
      n.noticeAt f.location := by
    simp [Line.notice, PrintedNotice.noticeAt, h.location, h.number]
  have hone : [keep (n.noticeAt f.location)].reduceOption =
      (keep (n.noticeAt f.location)).toList := by
    cases keep (n.noticeAt f.location) <;> rfl
  unfold recordKept
  rw [line?_setLine]
  by_cases hk : n.line = k
  · subst hk
    rw [if_pos rfl, if_pos rfl, hmade, Line.append?_eq_holding?, hone, h.location, h.number]
  · rw [if_neg (Ne.symm hk), if_neg hk]

theorem line_recordKept (h : f.IsKeyed) (n : PrintedNotice) (k : Nat) :
    (f.recordKept keep n).line k =
      if n.line = k then ⟨f.location, k,
        (f.line k).notices ++ (keep (n.noticeAt f.location)).toList⟩
      else f.line k := by
  rw [line, line?_recordKept h]
  split
  · exact Line.getD_holding? _ _ _
  · rfl

theorem IsKeyed.recordKept (h : f.IsKeyed) (n : PrintedNotice) :
    (f.recordKept keep n).IsKeyed := by
  refine ⟨fun k => ?_, fun k => ?_⟩ <;> rw [line_recordKept h] <;> split
  · rfl
  · exact h.location k
  · rfl
  · exact h.number k

/-- What is kept of the notices printed about a line goes to its end, in order. -/
theorem line_foldl_recordKept (h : f.IsKeyed) (ns : List PrintedNotice) (k : Nat) :
    (ns.foldl (File.recordKept keep) f).line k = ⟨f.location, k, (f.line k).notices ++
      (ns.filter fun n => n.line == k).filterMap fun n => keep (n.noticeAt f.location)⟩ := by
  induction ns generalizing f with
  | nil => simpa using h.line_eq k
  | cons n ns ih =>
    rw [List.foldl_cons, ih (h.recordKept n), line_recordKept h, location_recordKept,
      List.filter_cons]
    by_cases hk : n.line = k
    · cases hkept : keep (n.noticeAt f.location) <;> simp [hk, hkept]
    · simp [hk]

theorem IsKeyed.foldl_recordKept (h : f.IsKeyed) (ns : List PrintedNotice) :
    (ns.foldl (File.recordKept keep) f).IsKeyed := by
  induction ns generalizing f with
  | nil => exact h
  | cons n ns ih => exact ih (h.recordKept n)

theorem location_foldl_recordKept (ns : List PrintedNotice) (f : File) :
    (ns.foldl (File.recordKept keep) f).location = f.location := by
  induction ns generalizing f with
  | nil => rfl
  | cons n ns ih => exact ih _

theorem names_foldl_recordKept (ns : List PrintedNotice) (f : File) :
    (ns.foldl (File.recordKept keep) f).names = f.names := by
  induction ns generalizing f with
  | nil => rfl
  | cons n ns ih => exact ih _

/-- No line is kept without a notice. -/
def IsTight (f : File) : Prop :=
  ∀ k l, f.line? k = some l → l.notices ≠ []

theorem isTight_empty (location : Path) : (empty location).IsTight :=
  fun _ _ hl => nomatch hl

theorem IsTight.recordKept (ht : f.IsTight) (h : f.IsKeyed) (n : PrintedNotice) :
    (f.recordKept keep n).IsTight := by
  intro k l hl
  rw [line?_recordKept h] at hl
  split at hl
  · obtain ⟨hne, rfl⟩ := Line.holding?_eq_some_iff.mp hl
    exact hne
  · exact ht k l hl

theorem IsTight.foldl_recordKept (ht : f.IsTight) (h : f.IsKeyed) (ns : List PrintedNotice) :
    (ns.foldl (File.recordKept keep) f).IsTight := by
  induction ns generalizing f with
  | nil => exact ht
  | cons n ns ih => exact ih (ht.recordKept h n) (h.recordKept n)

/-- In a tight file the notices of a line tell whether the line is kept. -/
theorem IsTight.line?_eq (ht : f.IsTight) (h : f.IsKeyed) (k : Nat) :
    f.line? k = Line.holding? f.location k (f.line k).notices := by
  cases hl : f.line? k with
  | none =>
    have hline : f.line k = .empty f.location k := by rw [line, hl, Option.getD_none]
    rw [hline]
    rfl
  | some l =>
    have hline : f.line k = l := by rw [line, hl, Option.getD_some]
    obtain ⟨n, rest, hnotices⟩ := List.exists_cons_of_ne_nil (ht k l hl)
    rw [← hline, h.line_eq k, hline, hnotices]
    rfl

end File

/-- Read a line that prints a notice; an error names the line. -/
def Transcript.readLine (line : Text) : Except TranscriptError PrintedNotice :=
  (PrintedNotice.parse line).mapError (.ofFault line)

theorem exists_of_map_eq_ok {ε α β : Type} {f : α → β} {x : Except ε α} {b : β}
    (h : x.map f = .ok b) : ∃ a, x = .ok a ∧ f a = b := by
  cases x with
  | error e => cases h
  | ok a => exact ⟨a, rfl, Except.ok.inj h⟩

theorem exists_of_bind_eq_ok {ε α β : Type} {f : α → Except ε β} {x : Except ε α} {b : β}
    (h : x >>= f = .ok b) : ∃ a, x = .ok a ∧ f a = .ok b := by
  cases x with
  | error e => cases h
  | ok a => exact ⟨a, rfl, h⟩

theorem forall₂_of_mapM_eq_ok {ε α β : Type} {read : α → Except ε β} {as : List α} {bs : List β}
    (h : as.mapM read = .ok bs) : List.Forall₂ (fun a b => read a = .ok b) as bs := by
  induction as generalizing bs with
  | nil =>
    obtain rfl := Except.ok.inj h
    exact .nil
  | cons a as ih =>
    rw [List.mapM_cons] at h
    obtain ⟨b, hfirst, h⟩ := exists_of_bind_eq_ok h
    obtain ⟨rest, hrest, h⟩ := exists_of_bind_eq_ok h
    obtain rfl := Except.ok.inj h
    exact .cons hfirst (ih hrest)

theorem mapM_eq_ok_of_forall₂ {ε α β : Type} {read : α → Except ε β} {as : List α} {bs : List β}
    (h : List.Forall₂ (fun a b => read a = .ok b) as bs) : as.mapM read = .ok bs := by
  induction h with
  | nil => rfl
  | cons hfirst _ ih => simp [List.mapM_cons, hfirst, ih, bind, Except.bind, pure, Except.pure]

namespace Program

/-- A program after a printed notice, recorded at its path under `root` as `keep` leaves it. -/
def recordKept (root : Path) (p : Program) (n : PrintedNotice) : Program :=
  p.setFile (root.join n.path) (some ((p.file (root.join n.path)).recordKept keep n))

theorem run_addPrinted (root : Path) (p : Program) (line : Text) :
    (addPrinted (.ofFunction keep) root p line).run.run () =
      ((Transcript.readLine line).map (p.recordKept keep root), ()) := by
  rw [addPrinted, Transcript.readLine]
  cases PrintedNotice.parse line with
  | error fault => rfl
  | ok n =>
    simp only [editFile, Bool.and_false, Bool.false_eq_true, if_false, Reading.editLine_number]
    rfl

/-- Lines are read one after the other; when all can be read, all they print is recorded. -/
theorem addLines_ofFunction (root : Path) (p : Program) (lines : List Text) :
    p.addLines (.ofFunction keep) root lines =
      (lines.mapM Transcript.readLine).map fun ns => ns.foldl (recordKept keep root) p := by
  suffices hrun : ((lines.foldlM (addPrinted (.ofFunction keep) root) p).run.run ()) =
      ((lines.mapM Transcript.readLine).map fun ns => ns.foldl (recordKept keep root) p, ()) from
    congrArg Prod.fst hrun
  induction lines generalizing p with
  | nil => rfl
  | cons line lines ih =>
    have hfirst := run_addPrinted keep root p line
    rw [List.foldlM_cons, List.mapM_cons]
    refine (Reading.run_exceptT_bind _ _ _).trans ?_
    cases hread : Transcript.readLine line with
    | error e =>
      rw [hread] at hfirst
      simp only [hfirst]
      rfl
    | ok n =>
      rw [hread] at hfirst
      simp only [hfirst]
      refine (ih (p.recordKept keep root n)).trans ?_
      cases lines.mapM Transcript.readLine <;> rfl

variable {keep}

theorem file?_setFile (p : Program) (place location : Path) (f : Option File) :
    (p.setFile place f).file? location =
      if compare location place = .eq then f else p.file? location :=
  p.files.get?_put place location f

theorem setFile_setFile (p : Program) (location : Path) (f g : File) :
    (p.setFile location (some f)).setFile location (some g) = p.setFile location (some g) :=
  congrArg mk (p.files.insert_insert location f g)

theorem file?_recordKept (root : Path) (p : Program) (n : PrintedNotice) (location : Path) :
    (p.recordKept keep root n).file? location =
      if compare location (root.join n.path) = .eq then
        some (((p.file? location).getD (.empty (root.join n.path))).recordKept keep n)
      else p.file? location := by
  rw [recordKept, file?_setFile]
  split
  · next h => rw [file, file?, file?, SortedMap.get?_congr h]
  · rfl

/-- Only what is printed at its path changes a file; the first path at it gives its location. -/
theorem file?_foldl_recordKept (root : Path) (ns : List PrintedNotice) (p : Program)
    (location : Path) :
    (ns.foldl (recordKept keep root) p).file? location =
      match ns.filter fun n => compare location (root.join n.path) == .eq with
      | [] => p.file? location
      | n :: rest => some ((n :: rest).foldl (File.recordKept keep)
          ((p.file? location).getD (.empty (root.join n.path)))) := by
  induction ns generalizing p with
  | nil => rfl
  | cons n ns ih =>
    rw [List.foldl_cons, ih, file?_recordKept, List.filter_cons]
    by_cases h : compare location (root.join n.path) = .eq
    · simp only [h, if_true, beq_self_eq_true]
      cases ns.filter fun n => compare location (root.join n.path) == .eq <;> rfl
    · have hne : (compare location (root.join n.path) == .eq) = false := by simpa using h
      simp only [h, if_false, hne, Bool.false_eq_true]

end Program

end NoticeCheck
