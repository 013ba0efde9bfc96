import Mathlib.Data.List.ReduceOption
import NoticeCheck.Proofs.File
import NoticeCheck.Reading

/-!
What the tasks of a fixture do to a file. None of them fails, and extending a note looks at the
last notice of its line only.
-/
namespace NoticeCheck

namespace Notice

/-- A note that reveals no type. -/
def IsPlainNote (n : Notice) : Prop :=
  n.severity = .note ∧ n.isReveal = false

/-- A notice with one more message row, which takes the place of an empty message. -/
def extended (n : Notice) (message : Text) : Notice :=
  { n with message := if n.message = [] then message else n.message ++ '\n' :: message }

theorem isPlainNote_iff {n : Notice} :
    (n.severity.isNote && !n.isReveal) = true ↔ n.IsPlainNote := by
  unfold IsPlainNote
  cases n.severity <;> simp [Severity.isNote]

end Notice

namespace Line

/-- The notices of a line and a new one behind them. -/
def appended (l : Line) (severity : Severity) (message : Text) : List Notice :=
  l.notices ++ [l.notice severity message]

/-- The notices of a line after a note: it extends the last one if that is a plain note. -/
def noted (l : Line) (message : Text) : List Notice :=
  match l.notices.getLast? with
  | some n =>
    if n.severity = .note ∧ n.isReveal = false then
      let merged := if n.message = [] then message else n.message ++ '\n' :: message
      l.notices.dropLast ++ [{ n with message := merged }]
    else l.appended .note message
  | none => l.appended .note message

/-- Only the last notice decides whether a note extends it or goes behind it. -/
theorem noted_cases (l : Line) (message : Text) :
    (∃ earlier n, l.notices = earlier ++ [n] ∧ n.IsPlainNote ∧
        l.noted message = earlier ++ [n.extended message]) ∨
      ((∀ earlier n, l.notices = earlier ++ [n] → ¬n.IsPlainNote) ∧
        l.noted message = l.appended .note message) := by
  unfold noted
  rcases List.eq_nil_or_concat l.notices with hnil | ⟨earlier, n, hlast⟩
  · rw [hnil]
    exact .inr ⟨fun earlier n h => absurd h.symm (by simp), rfl⟩
  · rw [List.concat_eq_append] at hlast
    rw [hlast, List.getLast?_concat, List.dropLast_concat]
    by_cases hplain : n.severity = .note ∧ n.isReveal = false
    · exact .inl ⟨earlier, n, rfl, hplain, if_pos hplain⟩
    · have hrefused : ∀ before m, earlier ++ [n] = before ++ [m] → ¬m.IsPlainNote := by
        intro before m h
        obtain rfl : n = m := List.singleton_inj.mp (List.append_inj' h rfl).2
        exact hplain
      exact .inr ⟨hrefused, if_neg hplain⟩

end Line

namespace Reading

/-- What a task does at the line with a number. -/
def Task.act (number : Nat) (f : File) : Task → File
  | name text => f.setName text number
  | reveal revealed => f.changeLine number fun l => l.appended .note (Notice.revealMessage revealed)
  | error subtype message => f.changeLine number fun l => l.appended (.error subtype) message
  | note message => f.changeLine number fun l => l.noted message

theorem editLine_number {m : Type → Type} [Monad m] [MonadExceptOf Missing m] (f : File)
    (number : Nat) (edit : Line → m (Option Line)) :
    f.editLine (.line number) { line := false } edit =
      f.setLine number <$> edit (f.line number) := by
  simp [File.editLine, File.lineNumber?]

theorem withNotices?_map_some (l : Line) {kept : List Notice} (h : kept ≠ []) :
    l.withNotices? (kept.map some) = some { l with notices := kept } := by
  obtain ⟨n, rest, rfl⟩ := List.exists_cons_of_ne_nil h
  rw [Line.withNotices?, Line.reduceOption_map_some]

theorem append?_some (l : Line) (n : Notice) :
    l.append? [some n] = some { l with notices := l.notices ++ [n] } := by
  rw [Line.append?, ← withNotices?_map_some l (by simp)]
  simp

theorem append_eq (number : Nat) (severity : Severity) (message : Text) (f : File) :
    append number severity message f =
      .ok (f.changeLine number fun l => l.appended severity message) := by
  simp only [append, editLine_number, append?_some]
  rfl

/-- A computation that cannot fail runs before what follows it. -/
theorem run_liftM_bind {ε σ α β : Type} (x : StateM σ α) (k : α → ExceptT ε (StateM σ) β) (s : σ) :
    (liftM x >>= k).run.run s = (k (x.run s).1).run.run (x.run s).2 := rfl

/-- A computation that fails keeps what was remembered by then. -/
theorem run_exceptT_bind {ε σ α β : Type} (x : ExceptT ε (StateM σ) α)
    (k : α → ExceptT ε (StateM σ) β) (s : σ) :
    (x >>= k).run.run s = match x.run.run s with
      | (.ok a, s') => (k a).run.run s'
      | (.error e, s') => (.error e, s') := by
  change (ExceptT.bindCont k (x.run.run s).1).run (x.run.run s).2 = _
  rcases x.run.run s with ⟨_ | _, _⟩ <;> rfl

theorem run_onFirst {σ τ β : Type} (x : StateM σ β) (s : σ) (t : τ) :
    (onFirst x).run (s, t) = ((x.run s).1, (x.run s).2, t) := rfl

private theorem scanBack_cons {σ : Type} (accepts : Notice → StateM σ Bool) (n : Notice)
    (earlier later : List Notice) (s : σ) :
    (Selector.scanBack accepts (n :: earlier) later).run s =
      if ((accepts n).run s).1 then (some (earlier.reverse, n, later), ((accepts n).run s).2)
      else (Selector.scanBack accepts earlier (n :: later)).run ((accepts n).run s).2 := by
  change (match (accepts n).run s with
    | (accepted, s') => (if accepted = true then pure (some (earlier.reverse, n, later))
        else Selector.scanBack accepts earlier (n :: later) : StateM σ _).run s') = _
  rcases (accepts n).run s with ⟨_ | _, s'⟩ <;> rfl

/-- A selector that gives up at its first refusal looks at the last notice only. -/
theorem scanBack_of_stop (accepts : Notice → StateM Bool Bool) (p : Notice → Bool)
    (hfirst : ∀ n, (accepts n).run false = (p n, !p n))
    (hstop : ∀ n, (accepts n).run true = (false, true)) (notices : List Notice) :
    ((Selector.scanBack accepts notices.reverse []).run false).1 =
      notices.getLast?.bind fun n => if p n then some (notices.dropLast, n, []) else none := by
  have hrest : ∀ earlier later, ((Selector.scanBack accepts earlier later).run true).1 = none := by
    intro earlier
    induction earlier with
    | nil => exact fun _ => rfl
    | cons n earlier ih => intro later; rw [scanBack_cons, hstop]; exact ih _
  rcases List.eq_nil_or_concat notices with rfl | ⟨earlier, n, rfl⟩
  · rfl
  · rw [List.concat_eq_append, List.reverse_concat, scanBack_cons, hfirst]
    cases hp : p n <;> simp [hp, hrest]

/-- Editing the latest accepted notice, or a new note when none is accepted. -/
theorem run_latest (s : Selector) (change : Notice → Notice) (l : Line) :
    (Edit.latest s false (Edit.map change)).run l =
      .ok (match ((s.latest? l.notices).run s.start).1 with
        | some (before, n, after) =>
          l.withNotices? (before.map some ++ some (change n) :: after.map some)
        | none => l.withNotices? (l.notices.map some ++ [some (change (l.notice .note []))])) := by
  rw [Edit.latest, Machine.run]
  dsimp only
  rw [run_liftM_bind, run_onFirst]
  rcases ((s.latest? l.notices).run s.start).1 with _ | ⟨before, n, after⟩ <;> rfl

/-- The selector of plain notes accepts the last notice or none. -/
theorem latest?_plainNote_iff {notices before after : List Notice} {n : Notice} :
    ((plainNote.latest? notices).run plainNote.start).1 = some (before, n, after) ↔
      notices = before ++ [n] ∧ n.IsPlainNote ∧ after = [] := by
  have hscan : ((plainNote.latest? notices).run plainNote.start).1 = notices.getLast?.bind fun n =>
      if n.severity.isNote && !n.isReveal then some (notices.dropLast, n, []) else none :=
    scanBack_of_stop plainNote.step _ (fun _ => rfl) (fun _ => rfl) notices
  rw [hscan]
  rcases List.eq_nil_or_concat notices with rfl | ⟨earlier, last, rfl⟩
  · simp
  · rw [List.concat_eq_append, List.getLast?_concat, List.dropLast_concat, Option.bind_some]
    constructor
    · intro h
      split at h
      · next haccepted =>
        cases h
        exact ⟨rfl, Notice.isPlainNote_iff.mp haccepted, rfl⟩
      · cases h
    · rintro ⟨hlast, hplain, rfl⟩
      obtain ⟨rfl, hn⟩ := List.append_inj' hlast rfl
      obtain rfl : last = n := List.singleton_inj.mp hn
      rw [if_pos (Notice.isPlainNote_iff.mpr hplain)]

private theorem run_noted (l : Line) (message : Text) :
    (Edit.latest plainNote false (Edit.map fun n => { n with
        severity := .note
        message := if n.message = [] then message else n.message ++ '\n' :: message })).run l =
      .ok (some { l with notices := l.noted message }) := by
  rw [run_latest]
  rcases l.noted_cases message with ⟨earlier, n, hlast, hplain, hnoted⟩ | ⟨hrefused, hnoted⟩
  · rw [latest?_plainNote_iff.mpr ⟨hlast, hplain, rfl⟩, hnoted,
      ← withNotices?_map_some l (by simp)]
    simp [Notice.extended, hplain.1]
  · have hnone : ((plainNote.latest? l.notices).run plainNote.start).1 = none := by
      rw [Option.eq_none_iff_forall_ne_some]
      rintro ⟨before, n, after⟩ hsome
      obtain ⟨hlast, hplain, -⟩ := latest?_plainNote_iff.mp hsome
      exact hrefused before n hlast hplain
    rw [hnone, hnoted, ← withNotices?_map_some l (by simp [Line.appended])]
    simp [Line.appended, Line.notice]

theorem mergeNote_eq (number : Nat) (message : Text) (f : File) :
    mergeNote number message f = .ok (f.changeLine number fun l => l.noted message) := by
  rw [mergeNote, editLine_number]
  refine (congrArg _ (run_noted (f.line number) message)).trans ?_
  rfl

theorem Task.perform_eq (number : Nat) (f : File) (task : Task) :
    task.perform number f = .ok (task.act number f) := by
  cases task with
  | name text => rfl
  | reveal revealed => exact append_eq number .note _ f
  | error subtype message => exact append_eq number _ message f
  | note message => exact mergeNote_eq number message f

end Reading

end NoticeCheck
