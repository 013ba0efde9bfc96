import NoticeCheck.Proofs.Recording
import NoticeCheck.Proofs.Task

/-!
An edit of the first matching notice only, over a whole run of lines. It is made on one notice at
most, and has been made even if it failed.
-/
namespace NoticeCheck

namespace Machine

variable {α β : Type} (m : Machine α β)

/-- The answers to a sequence of calls and what is remembered after them. -/
def runFrom (memory : m.Memory) (as : List α) : List β × m.Memory :=
  (as.mapM m.step).run memory

/-- What is remembered of a sequence of calls, and so of which calls were made. -/
def memoryAfter (as : List α) : m.Memory :=
  (m.runFrom m.start as).2

theorem runFrom_cons (memory : m.Memory) (a : α) (as : List α) :
    m.runFrom memory (a :: as) =
      (((m.step a).run memory).1 :: (m.runFrom ((m.step a).run memory).2 as).1,
        (m.runFrom ((m.step a).run memory).2 as).2) := by
  unfold runFrom
  rw [List.mapM_cons]
  rfl

theorem runFrom_append (memory : m.Memory) (as bs : List α) :
    m.runFrom memory (as ++ bs) =
      ((m.runFrom memory as).1 ++ (m.runFrom (m.runFrom memory as).2 bs).1,
        (m.runFrom (m.runFrom memory as).2 bs).2) := by
  unfold runFrom
  rw [List.mapM_append]
  rfl

/-- Calls that leave the memory as it is are answered as if each were the only one. -/
theorem runFrom_of_fixed {memory : m.Memory} {answer : α → β} {as : List α}
    (h : ∀ a ∈ as, (m.step a).run memory = (answer a, memory)) :
    m.runFrom memory as = (as.map answer, memory) := by
  induction as with
  | nil => rfl
  | cons a as ih =>
    have hrest := ih fun b hb => h b (List.mem_cons_of_mem a hb)
    rw [runFrom_cons, h a List.mem_cons_self]
    dsimp only
    rw [hrest]
    rfl

/-- A run is cut at any of its calls. -/
theorem runFrom_append_cons {s t u v : m.Memory} {as bs : List α} {a : α} {b : β} {xs ys : List β}
    (has : m.runFrom s as = (xs, t)) (ha : (m.step a).run t = (b, u))
    (hbs : m.runFrom u bs = (ys, v)) : m.runFrom s (as ++ a :: bs) = (xs ++ b :: ys, v) := by
  rw [runFrom_append, has]
  dsimp only
  rw [runFrom_cons, ha]
  dsimp only
  rw [hbs]

end Machine

/-- A notice that an edit on matching notices is after. -/
def Notice.isMatched (start : Text) (severity : Severity) (n : Notice) : Bool :=
  severity.agrees n.severity && n.message.startsWith start

/-- The first notice that passes a test, and all that is handed over before and after it. -/
structure FirstMatch (test : Notice → Bool) (lines : List Line) where
  before : List Line
  line : Line
  after : List Line
  earlier : List Notice
  notice : Notice
  later : List Notice
  lines_eq : lines = before ++ line :: after
  notices_eq : line.notices = earlier ++ notice :: later
  passes : test notice = true
  before_fails : ∀ l ∈ before, ∀ n ∈ l.notices, test n = false
  earlier_fails : ∀ n ∈ earlier, test n = false

theorem FirstMatch.exists_of_mem {test : Notice → Bool} {lines : List Line} {l : Line} {n : Notice}
    (hl : l ∈ lines) (hn : n ∈ l.notices) (h : test n = true) :
    Nonempty (FirstMatch test lines) := by
  -- the first line that holds such a notice, then the first such notice on it
  have hline : (lines.find? fun l => l.notices.any test).isSome := by
    rw [List.find?_isSome]
    exact ⟨l, hl, List.any_eq_true.mpr ⟨n, hn, h⟩⟩
  obtain ⟨line, hline⟩ := Option.isSome_iff_exists.mp hline
  obtain ⟨hany, before, after, hlines, hbefore⟩ := List.find?_eq_some_iff_append.mp hline
  obtain ⟨k, hk, hpass⟩ := List.any_eq_true.mp hany
  have hnotice : (line.notices.find? test).isSome := List.find?_isSome.mpr ⟨k, hk, hpass⟩
  obtain ⟨notice, hnotice⟩ := Option.isSome_iff_exists.mp hnotice
  obtain ⟨hpasses, earlier, later, hnotices, hearlier⟩ := List.find?_eq_some_iff_append.mp hnotice
  refine ⟨before, line, after, earlier, notice, later, hlines, hnotices, hpasses, ?_, ?_⟩
  · intro l hl n hn
    have hnone : l.notices.any test = false := by simpa using hbefore l hl
    exact Bool.eq_false_iff.mpr (List.any_eq_false.mp hnone n hn)
  · intro n hn
    simpa using hearlier n hn

namespace Edit

/-- An edit that keeps every notice and what it remembers. -/
theorem run_mapM_of_kept {σ : Type} {edit : Notice → EditM σ (Option Notice)} {memory : σ}
    {notices : List Notice}
    (h : ∀ n ∈ notices, (edit n).run.run memory = (.ok (some n), memory)) :
    (notices.mapM edit).run.run memory = (.ok (notices.map some), memory) := by
  induction notices with
  | nil => rfl
  | cons n notices ih =>
    have hrest := ih fun k hk => h k (List.mem_cons_of_mem n hk)
    rw [List.mapM_cons, Reading.run_exceptT_bind, h n List.mem_cons_self]
    dsimp only
    rw [Reading.run_exceptT_bind, hrest]
    rfl

/-- An edit of one notice between notices that it keeps. -/
theorem run_mapM_of_one {σ : Type} {edit : Notice → EditM σ (Option Notice)} {s t : σ}
    {earlier later : List Notice} {n : Notice} {answer : Except Missing (Option Notice)}
    (hearlier : ∀ k ∈ earlier, (edit k).run.run s = (.ok (some k), s))
    (hnotice : (edit n).run.run s = (answer, t))
    (hlater : ∀ k ∈ later, (edit k).run.run t = (.ok (some k), t)) :
    ((earlier ++ n :: later).mapM edit).run.run s =
      (answer.map fun edited => earlier.map some ++ edited :: later.map some, t) := by
  rw [List.mapM_append, Reading.run_exceptT_bind, run_mapM_of_kept hearlier]
  dsimp only
  rw [Reading.run_exceptT_bind, List.mapM_cons, Reading.run_exceptT_bind, hnotice]
  cases answer with
  | error missing => rfl
  | ok edited =>
    dsimp only
    rw [Reading.run_exceptT_bind, run_mapM_of_kept hlater]
    rfl

variable {start : Text} {severity : Severity} {e : Edit Notice}

/-- What is done to one notice of a line. -/
def onNotice (start : Text) (severity : Severity) (e : Edit Notice) (n : Notice) :
    EditM e.Memory (Option Notice) :=
  if n.isMatched start severity then e.perform n else pure (some n)

theorem step_onMatch {l : Line} {memory memory' : e.Memory}
    {answer : Except Missing (List (Option Notice))}
    (h : (l.notices.mapM (onNotice start severity e)).run.run memory = (answer, memory')) :
    ((onMatch start severity e).step l).run memory = (answer.map l.withNotices?, memory') := by
  change ((l.notices.mapM (onNotice start severity e) >>= fun edited =>
    pure (l.withNotices? edited)).run.run memory) = _
  rw [Reading.run_exceptT_bind, h]
  cases answer <;> rfl

/-- Notices that do not match are kept, and after the first match all are. -/
theorem run_onNotice_once {n : Notice} {fired : Bool} (memory : e.Memory)
    (h : fired = true ∨ n.isMatched start severity = false) :
    (onNotice start severity e.once n).run.run (fired, memory) =
      (.ok (some n), (fired, memory)) := by
  unfold onNotice
  split
  · next hmatched =>
    have hfired : fired = true := h.resolve_right (by simp [hmatched])
    subst hfired
    rfl
  · rfl

theorem run_onNotice_first {n : Notice} (memory : e.Memory)
    (h : n.isMatched start severity = true) :
    (onNotice start severity e.once n).run.run (false, memory) =
      (((e.step n).run memory).1, (true, ((e.step n).run memory).2)) := by
  unfold onNotice
  rw [if_pos h]
  rfl

/-- A line without a notice to edit comes back as it is, or not at all when it is empty. -/
theorem step_onMatch_once {l : Line} {fired : Bool} (memory : e.Memory)
    (h : fired = true ∨ ∀ n ∈ l.notices, n.isMatched start severity = false) :
    ((onMatch start severity e.once).step l).run (fired, memory) =
      (.ok (Line.holding? l.location l.number l.notices), (fired, memory)) := by
  have hkept : ∀ n ∈ l.notices, (onNotice start severity e.once n).run.run (fired, memory) =
      (.ok (some n), (fired, memory)) := fun n hn =>
    run_onNotice_once memory (h.imp_right fun hunmatched => hunmatched n hn)
  have hline : l.withNotices? (l.notices.map some) =
      Line.holding? l.location l.number l.notices := by
    rw [Line.withNotices?_eq_holding?, Line.reduceOption_map_some]
  rw [← hline]
  exact step_onMatch (run_mapM_of_kept hkept)

/-- The line with the first match loses or replaces that notice only, unless the edit fails. -/
theorem step_onMatch_first {l : Line} {earlier later : List Notice} {n : Notice} (memory : e.Memory)
    (hnotices : l.notices = earlier ++ n :: later) (h : n.isMatched start severity = true)
    (hearlier : ∀ k ∈ earlier, k.isMatched start severity = false) :
    ((onMatch start severity e.once).step l).run (false, memory) =
      (((e.step n).run memory).1.map fun edited =>
        Line.holding? l.location l.number (earlier ++ edited.toList ++ later),
      (true, ((e.step n).run memory).2)) := by
  have hlater : ∀ k ∈ later, (onNotice start severity e.once k).run.run
      (true, ((e.step n).run memory).2) = (.ok (some k), (true, ((e.step n).run memory).2)) :=
    fun k _ => run_onNotice_once _ (.inl rfl)
  have hone := run_mapM_of_one
    (fun k hk => run_onNotice_once memory (.inr (hearlier k hk))) (run_onNotice_first memory h)
    hlater
  have hline : ∀ edited : Option Notice,
      l.withNotices? (earlier.map some ++ edited :: later.map some) =
        Line.holding? l.location l.number (earlier ++ edited.toList ++ later) := by
    intro edited
    rw [Line.withNotices?_eq_holding?]
    congr 1
    cases edited <;> simp [List.reduceOption_append, Line.reduceOption_map_some]
  simp only [← hline]
  rw [← hnotices] at hone
  refine (step_onMatch hone).trans ?_
  cases ((e.step n).run memory).1 <;> rfl

/-- Lines without a notice to edit come back, and nothing is remembered of them. -/
theorem runFrom_onMatch_once {lines : List Line} (fired : Bool) (memory : e.Memory)
    (h : fired = true ∨ ∀ l ∈ lines, ∀ n ∈ l.notices, n.isMatched start severity = false) :
    (onMatch start severity e.once).runFrom (fired, memory) lines =
      (lines.map fun l => .ok (Line.holding? l.location l.number l.notices), (fired, memory)) := by
  apply Machine.runFrom_of_fixed
  intro l hl
  exact step_onMatch_once memory (h.imp_right fun hunmatched => hunmatched l hl)

/-- The first match divides a run into lines that come back, the line it is on, and the rest. -/
theorem runFrom_onMatch_first {lines : List Line} (memory : e.Memory)
    (first : FirstMatch (Notice.isMatched start severity) lines) :
    (onMatch start severity e.once).runFrom (false, memory) lines =
      ((first.before.map fun l => .ok (Line.holding? l.location l.number l.notices)) ++
        (((e.step first.notice).run memory).1.map fun edited =>
          Line.holding? first.line.location first.line.number
            (first.earlier ++ edited.toList ++ first.later)) ::
        first.after.map fun l => .ok (Line.holding? l.location l.number l.notices),
      (true, ((e.step first.notice).run memory).2)) := by
  have hbefore := runFrom_onMatch_once false memory (.inr first.before_fails)
  have hfirst := step_onMatch_first memory first.notices_eq first.passes first.earlier_fails
  have hafter : (onMatch start severity e.once).runFrom
      (true, ((e.step first.notice).run memory).2) first.after = _ :=
    runFrom_onMatch_once true _ (.inl rfl)
  have hrun := Machine.runFrom_append_cons _ hbefore hfirst hafter
  rw [← first.lines_eq] at hrun
  exact hrun

end Edit

/--
An edit for the first match is made once in a run of lines, on the first notice that matches: it
is replaced or dropped, or the answer for its line is the failure. All other notices come back.
-/
theorem answers_onMatch_once (start : Text) (severity : Severity) (e : Edit Notice)
    (lines : List Line) :
    ((∀ l ∈ lines, ∀ n ∈ l.notices, n.isMatched start severity = false) ∧
      (Edit.onMatch start severity e.once).answers lines =
        (lines.map fun l => .ok (Line.holding? l.location l.number l.notices)) ∧
      (Edit.onMatch start severity e.once).memoryAfter lines = (false, e.memoryAfter [])) ∨
    ∃ first : FirstMatch (Notice.isMatched start severity) lines,
      (Edit.onMatch start severity e.once).answers lines =
        (first.before.map fun l => .ok (Line.holding? l.location l.number l.notices)) ++
          ((e.run first.notice).map fun edited =>
            Line.holding? first.line.location first.line.number
              (first.earlier ++ edited.toList ++ first.later)) ::
          (first.after.map fun l => .ok (Line.holding? l.location l.number l.notices)) ∧
      (Edit.onMatch start severity e.once).memoryAfter lines =
        (true, e.memoryAfter [first.notice]) := by
  by_cases hmatch : ∃ l ∈ lines, ∃ n ∈ l.notices, n.isMatched start severity = true
  · obtain ⟨l, hl, n, hn, hpasses⟩ := hmatch
    obtain ⟨first⟩ := FirstMatch.exists_of_mem hl hn hpasses
    have hrun := Edit.runFrom_onMatch_first e.start first
    exact .inr ⟨first, congrArg Prod.fst hrun, congrArg Prod.snd hrun⟩
  · have hfree : ∀ l ∈ lines, ∀ n ∈ l.notices, n.isMatched start severity = false := by
      intro l hl n hn
      exact Bool.eq_false_iff.mpr fun hpasses => hmatch ⟨l, hl, n, hn, hpasses⟩
    have hrun := Edit.runFrom_onMatch_once false e.start (.inr hfree)
    exact .inl ⟨hfree, congrArg Prod.fst hrun, congrArg Prod.snd hrun⟩

end NoticeCheck
