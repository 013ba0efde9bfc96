import NoticeCheck.Proofs.Linewise
import NoticeCheck.Proofs.Task

/-!
Files whose lines are moved down by a number of lines, and files joined. Tasks done further down in
a file touch nothing of the file that it is joined to.
-/
namespace NoticeCheck

namespace Notice

def raise (n : Nat) (x : Notice) : Notice :=
  { x with line := x.line + n }

end Notice

def Line.raise (n : Nat) (l : Line) : Line :=
  { l with number := l.number + n, notices := l.notices.map (Notice.raise n) }

namespace File

/-- A file with all its lines, and what is said of them, moved down. -/
def raise (n : Nat) (f : File) : File :=
  { f with lines := (f.lines.raise n).mapValues (Line.raise n), names := f.names.mapValues (· + n) }

/-- The lines and names of two files; under a line or name of both, those of the second one. -/
def join (f g : File) : File :=
  { f with lines := f.lines.union g.lines, names := f.names.union g.names }

theorem line?_join (f g : File) (k : Nat) : (f.join g).line? k = (g.line? k).or (f.line? k) :=
  SortedMap.get?_union f.lines g.lines k

theorem line?_raise (n k : Nat) (f : File) :
    (f.raise n).line? k = if n ≤ k then (f.line? (k - n)).map (Line.raise n) else none := by
  unfold line? raise
  rw [SortedMap.get?_mapValues, SortedMap.get?_raise]
  split <;> rfl

variable {f g : File} {n number : Nat}

/-- Below the lines of the first file, the line that is changed is one of the second file. -/
theorem line_join_raise (hlocation : g.location = f.location) (hf : f.line? (number + n) = none) :
    (f.join (g.raise n)).line (number + n) = (g.line number).raise n := by
  unfold line
  rw [line?_join, line?_raise, hf, if_pos (Nat.le_add_left n number), Nat.add_sub_cancel]
  cases g.line? number with
  | none =>
    change Line.empty f.location (number + n) = _
    rw [← hlocation]
    rfl
  | some l => rfl

theorem changeLine_join_raise (hlocation : g.location = f.location)
    (hf : f.line? (number + n) = none) (change : Line → List Notice)
    (hchange : ∀ l : Line, change (l.raise n) = (change l).map (Notice.raise n)) :
    (f.join (g.raise n)).changeLine (number + n) change =
      f.join ((g.changeLine number change).raise n) := by
  refine ext_line? rfl (fun k => ?_) fun name => rfl
  unfold changeLine
  rw [line?_setLine, line?_join, line?_join, line?_raise, line?_raise, line?_setLine,
    line_join_raise hlocation hf, hchange]
  by_cases hk : k = number + n
  · subst hk
    simp [Line.raise]
  · have hother : n ≤ k → k - n ≠ number := by omega
    rw [if_neg hk]
    split
    · next hle => rw [if_neg (hother hle)]
    · rfl

theorem setName_join_raise (name : Text) :
    (f.join (g.raise n)).setName name (number + n) =
      f.join ((g.setName name number).raise n) := by
  refine ext_line? rfl (fun k => ?_) fun other => ?_
  · rfl
  · unfold setName join raise
    dsimp only
    rw [SortedMap.get?_insert, SortedMap.get?_union, SortedMap.get?_union, SortedMap.get?_mapValues,
      SortedMap.get?_mapValues, SortedMap.get?_insert]
    split <;> rfl

end File

namespace Line

theorem appended_raise (n : Nat) (l : Line) (severity : Severity) (message : Text) :
    (l.raise n).appended severity message =
      (l.appended severity message).map (Notice.raise n) := by
  simp [appended, raise, notice, Notice.raise]

theorem noted_raise (n : Nat) (l : Line) (message : Text) :
    (l.raise n).noted message = (l.noted message).map (Notice.raise n) := by
  have hlast : (l.raise n).notices.getLast? = l.notices.getLast?.map (Notice.raise n) := by
    simp [raise]
  have hdrop : (l.raise n).notices.dropLast = l.notices.dropLast.map (Notice.raise n) := by
    simp [raise]
  unfold noted
  rw [hlast]
  cases l.notices.getLast? with
  | none => exact appended_raise n l .note message
  | some m =>
    by_cases hplain : m.severity = .note ∧ m.isReveal = false
    · have hraised : (m.raise n).severity = .note ∧ (m.raise n).isReveal = false := hplain
      simp only [Option.map_some, if_pos hplain, if_pos hraised, hdrop, List.map_append]
      rfl
    · have hraised : ¬((m.raise n).severity = .note ∧ (m.raise n).isReveal = false) := hplain
      simp only [Option.map_some, if_neg hplain, if_neg hraised]
      exact appended_raise n l .note message

end Line

namespace Reading

variable {f g : File} {n number : Nat}

/-- A task further down in a file does there what it does in a file of its own. -/
theorem Task.act_join_raise (hlocation : g.location = f.location)
    (hf : f.line? (number + n) = none) (task : Task) :
    task.act (number + n) (f.join (g.raise n)) = f.join ((task.act number g).raise n) := by
  cases task with
  | name text => exact File.setName_join_raise text
  | reveal revealed =>
    exact File.changeLine_join_raise hlocation hf (·.appended _ _) fun l => l.appended_raise n _ _
  | error subtype message =>
    exact File.changeLine_join_raise hlocation hf (·.appended _ _) fun l => l.appended_raise n _ _
  | note message =>
    exact File.changeLine_join_raise hlocation hf (·.noted message) fun l => l.noted_raise n message

theorem foldl_act_join_raise {tasks : List (Nat × Task)} (hlocation : g.location = f.location)
    (hf : ∀ e ∈ tasks, f.line? (e.1 + n) = none) :
    (tasks.map fun e => (e.1 + n, e.2)).foldl (fun f (number, task) => task.act number f)
        (f.join (g.raise n)) =
      f.join ((tasks.foldl (fun f (number, task) => task.act number f) g).raise n) := by
  induction tasks generalizing g with
  | nil => rfl
  | cons e tasks ih =>
    obtain ⟨number, task⟩ := e
    have hnext : (task.act number g).location = f.location := by
      cases task <;> exact hlocation
    have hfirst : task.act (number + n) (f.join (g.raise n)) =
        f.join ((task.act number g).raise n) :=
      task.act_join_raise hlocation (hf (number, task) List.mem_cons_self)
    rw [List.map_cons, List.foldl_cons, List.foldl_cons]
    dsimp only
    rw [hfirst]
    exact ih hnext fun e he => hf e (List.mem_cons_of_mem _ he)

/-- A line that no task is about stays as it was. -/
theorem line?_foldl_act {tasks : List (Nat × Task)} {k : Nat} (h : ∀ e ∈ tasks, e.1 ≠ k) :
    (tasks.foldl (fun f (number, task) => task.act number f) f).line? k = f.line? k := by
  induction tasks generalizing f with
  | nil => rfl
  | cons e tasks ih =>
    have hfirst : (e.2.act e.1 f).line? k = f.line? k := by
      have hk : k ≠ e.1 := (h e List.mem_cons_self).symm
      cases e.2 with
      | name text => rfl
      | reveal revealed => exact (f.line?_setLine e.1 k _).trans (if_neg hk)
      | error subtype message => exact (f.line?_setLine e.1 k _).trans (if_neg hk)
      | note message => exact (f.line?_setLine e.1 k _).trans (if_neg hk)
    rw [List.foldl_cons]
    exact (ih fun e he => h e (List.mem_cons_of_mem _ he)).trans hfirst

end Reading

end NoticeCheck
