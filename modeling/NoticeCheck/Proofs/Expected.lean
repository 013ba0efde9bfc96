import NoticeCheck.Proofs.Directive
import NoticeCheck.Proofs.Planning

/-!
What can be expected by a fixture: notes with trimmed rows, and errors with one row and a subtype,
each on the line it is about.
-/
namespace NoticeCheck

/-- A notice as directives make it. -/
structure Notice.IsClean (n : Notice) : Prop where
  line : n.line < numberLimit
  column : n.column = none
  trimmed : ∀ row ∈ n.message.rows, row.IsTrimmed
  severity : n.severity = .note ∨
    ∃ s, n.severity = .error s ∧ s ≠ [] ∧ '\n' ∉ s ∧ '\n' ∉ n.message

def File.IsClean (f : File) : Prop :=
  ∀ k, ∀ n ∈ (f.line k).notices, n.IsClean

theorem File.IsClean.changeLine {f : File} (h : f.IsClean) {number : Nat}
    {change : Line → List Notice} (hchange : ∀ n ∈ change (f.line number), n.IsClean) :
    (f.changeLine number change).IsClean := by
  intro k
  rw [line_changeLine]
  split
  · exact hchange
  · exact h k

namespace Line

theorem mem_appended {l : Line} {severity : Severity} {message : Text} {n : Notice}
    (h : n ∈ l.appended severity message) : n ∈ l.notices ∨ n = l.notice severity message := by
  simpa [appended] using h

/-- A note makes a new notice or gives a plain note one row more. -/
theorem mem_noted {l : Line} {message : Text} {n : Notice} (h : n ∈ l.noted message) :
    n ∈ l.notices ∨ n = l.notice .note message ∨ ∃ m ∈ l.notices, m.severity = .note ∧
      n = { m with message := if m.message = [] then message else m.message ++ '\n' :: message } := by
  rcases l.noted_cases message with ⟨earlier, m, hlast, hplain, hnoted⟩ | ⟨-, hnoted⟩
  · rw [hnoted] at h
    rw [hlast]
    rcases List.mem_append.mp h with h | h
    · exact .inl (List.mem_append_left _ h)
    · have hm : m ∈ earlier ++ [m] := List.mem_append_right _ (List.mem_singleton_self m)
      exact .inr (.inr ⟨m, hm, hplain.1, List.mem_singleton.mp h⟩)
  · rw [hnoted] at h
    exact (mem_appended h).imp_right .inl

end Line

namespace Reading

/-- What a task takes from a directive. -/
def Task.IsClean : Task → Prop
  | name _ => True
  | reveal revealed => '\n' ∉ revealed
  | error subtype message =>
    subtype ≠ [] ∧ '\n' ∉ subtype ∧ message.IsTrimmed ∧ '\n' ∉ message
  | note message => message.IsTrimmed ∧ '\n' ∉ message

theorem isClean_of_mem_tasksOf {d : Directive} {row : Text} (h : d.FromLine row)
    (hrow : '\n' ∉ row) {task : Task} (htask : task ∈ tasksOf d) : task.IsClean := by
  rcases List.mem_append.mp htask with htask | htask
  · cases hd : d.instruction with
    | name => simp [hd] at htask
    | reveal =>
      obtain rfl : task = .reveal d.payload := by simpa [hd] using htask
      exact h.oneRow
    | error subtype =>
      obtain rfl : task = .error subtype d.payload := by simpa [hd] using htask
      obtain ⟨hne, hmem⟩ := h.subtype subtype hd
      exact ⟨hne, fun hbreak => hrow (hmem _ hbreak), h.trimmed, h.oneRow⟩
    | note =>
      obtain rfl : task = .note d.payload := by simpa [hd] using htask
      exact ⟨h.trimmed, h.oneRow⟩
  · cases hname : d.name with
    | none => simp [hname] at htask
    | some name =>
      obtain rfl : task = .name name := by simpa [hname] using htask
      trivial

private theorem isTrimmed_of_mem_rows {message : Text} (htrimmed : message.IsTrimmed)
    (hrow : '\n' ∉ message) : ∀ row ∈ message.rows, row.IsTrimmed := by
  intro row hmem
  rw [Text.rows, Text.cut_of_not_mem hrow, List.mem_singleton] at hmem
  exact hmem ▸ htrimmed

private theorem isClean_notice {l : Line} {severity : Severity} {message : Text}
    (hline : l.number < Notice.numberLimit) (htrimmed : message.IsTrimmed) (hrow : '\n' ∉ message)
    (hseverity : severity = .note ∨ ∃ s, severity = .error s ∧ s ≠ [] ∧ '\n' ∉ s) :
    (l.notice severity message).IsClean where
  line := hline
  column := rfl
  trimmed := isTrimmed_of_mem_rows htrimmed hrow
  severity := hseverity.imp_right fun ⟨s, hs, hne, hs'⟩ => ⟨s, hs, hne, hs', hrow⟩

private theorem isTrimmed_revealMessage (revealed : Text) :
    (Notice.revealMessage revealed).IsTrimmed := by
  constructor
  · intro c hc
    have hhead : (Notice.revealMessage revealed).head? = some 'R' := rfl
    rw [hhead] at hc
    obtain rfl := Option.some.inj hc
    decide
  · intro c hc
    rw [Notice.revealMessage, List.getLast?_concat] at hc
    obtain rfl := Option.some.inj hc
    decide

/-- A task keeps every line and every notice where it belongs. -/
theorem Task.isHomed_act {f : File} (h : f.IsHomed) (number : Nat) (task : Task) :
    (task.act number f).IsHomed := by
  have hnotice : ∀ severity message,
      ((f.line number).notice severity message).location = f.location ∧
        ((f.line number).notice severity message).line = number := fun _ _ =>
    ⟨h.location number, h.number number⟩
  have happended : ∀ severity message, ∀ n ∈ (f.line number).appended severity message,
      n.location = f.location ∧ n.line = number := by
    intro severity message n hn
    rcases Line.mem_appended hn with hn | rfl
    · exact h.notices number n hn
    · exact hnotice severity message
  cases task with
  | name text => exact h.setName text number
  | reveal revealed =>
    rw [act]
    exact h.changeLine (happended _ _)
  | error subtype message =>
    rw [act]
    exact h.changeLine (happended _ _)
  | note message =>
    rw [act]
    refine h.changeLine fun n hn => ?_
    rcases Line.mem_noted hn with hn | rfl | ⟨m, hm, -, rfl⟩
    · exact h.notices number n hn
    · exact hnotice .note message
    · exact h.notices number m hm

private theorem isClean_of_mem_appended {l : Line} {severity : Severity} {message : Text}
    (hl : ∀ n ∈ l.notices, n.IsClean) (hnew : (l.notice severity message).IsClean) :
    ∀ n ∈ l.appended severity message, n.IsClean := by
  intro n hn
  rcases Line.mem_appended hn with hn | rfl
  · exact hl n hn
  · exact hnew

/-- A clean note stays clean with one trimmed row more. -/
private theorem isClean_of_mem_noted {l : Line} {message : Text}
    (hl : ∀ n ∈ l.notices, n.IsClean) (hline : l.number < Notice.numberLimit)
    (htrimmed : message.IsTrimmed) (hrow : '\n' ∉ message) :
    ∀ n ∈ l.noted message, n.IsClean := by
  intro n hn
  rcases Line.mem_noted hn with hn | rfl | ⟨m, hm, hnote, rfl⟩
  · exact hl n hn
  · exact isClean_notice hline htrimmed hrow (.inl rfl)
  · have hm := hl m hm
    refine ⟨hm.line, hm.column, fun row hmem => ?_, .inl hnote⟩
    dsimp only at hmem
    split at hmem
    · exact isTrimmed_of_mem_rows htrimmed hrow row hmem
    · rw [Text.rows_append_cons, List.mem_append] at hmem
      rcases hmem with hmem | hmem
      · exact hm.trimmed row hmem
      · exact isTrimmed_of_mem_rows htrimmed hrow row hmem

/-- A clean task keeps a file clean. -/
theorem Task.isClean_act {f : File} (hhomed : f.IsHomed) (h : f.IsClean) {number : Nat}
    (hnumber : number < Notice.numberLimit) {task : Task} (htask : task.IsClean) :
    (task.act number f).IsClean := by
  have hline : (f.line number).number < Notice.numberLimit := (hhomed.number number).symm ▸ hnumber
  cases task with
  | name text => exact h
  | reveal revealed =>
    have hrow : '\n' ∉ Notice.revealMessage revealed := by
      have hstart : '\n' ∉ Notice.revealStart := by decide
      have hrevealed : '\n' ∉ revealed := htask
      simp [Notice.revealMessage, hstart, hrevealed]
    rw [act]
    exact h.changeLine (isClean_of_mem_appended (h number)
      (isClean_notice hline (isTrimmed_revealMessage revealed) hrow (.inl rfl)))
  | error subtype message =>
    obtain ⟨hne, hsubtype, htrimmed, hrow⟩ := htask
    rw [act]
    exact h.changeLine (isClean_of_mem_appended (h number)
      (isClean_notice hline htrimmed hrow (.inr ⟨subtype, rfl, hne, hsubtype⟩)))
  | note message =>
    obtain ⟨htrimmed, hrow⟩ := htask
    rw [act]
    exact h.changeLine (isClean_of_mem_noted (h number) hline htrimmed hrow)

theorem Task.location_act (number : Nat) (f : File) (task : Task) :
    (task.act number f).location = f.location := by
  cases task <;> rfl

theorem Block.isClean_of_mem_numbered {probe : Text} {above : Nat} {blocks : List Block}
    (hread : ∀ b ∈ blocks, b.IsRead) (hrows : ∀ row ∈ blocks.flatMap source, '\n' ∉ row)
    {e : Nat × Task} (he : e ∈ numbered probe above blocks) : e.2.IsClean := by
  induction blocks generalizing above with
  | nil => cases he
  | cons b blocks ih =>
    rcases List.mem_append.mp he with he | he
    · obtain ⟨task, htask, rfl⟩ := List.mem_map.mp he
      obtain ⟨d, hd, htask⟩ := List.mem_flatMap.mp htask
      refine isClean_of_mem_tasksOf (Directive.fromLine_of_parse
        ((hread b List.mem_cons_self).directives d hd)) (hrows d.1 ?_) htask
      rw [List.flatMap_cons, List.mem_append]
      exact .inl (List.mem_cons_of_mem _ (List.mem_map_of_mem hd))
    · refine ih (fun c hc => hread c (List.mem_cons_of_mem _ hc)) (fun row hrow => ?_) he
      exact hrows row (List.mem_flatMap.mpr ((List.mem_flatMap.mp hrow).imp fun c hc =>
        ⟨List.mem_cons_of_mem _ hc.1, hc.2⟩))

end Reading

/-- The file that a fixture expects keeps clean notices where they belong. -/
theorem isClean_of_readFixture {probe source t : Text} {known f : File}
    (h : readFixture probe source known = .ok (t, f)) :
    f.location = known.location ∧ f.IsHomed ∧ f.IsClean := by
  rw [readFixture_eq] at h
  cases hblocks : Reading.Block.ofRows source.rows with
  | error e => rw [hblocks] at h; cases h
  | ok blocks =>
    rw [hblocks] at h
    obtain ⟨-, rfl⟩ := Prod.mk.inj (Except.ok.inj h)
    obtain ⟨hread, hsource⟩ := Reading.Block.ofRows_eq_ok_iff.mp hblocks
    have hrows : ∀ row ∈ blocks.flatMap Reading.Block.source, '\n' ∉ row := by
      rw [hsource]
      exact fun row hrow => Text.not_mem_of_mem_rows hrow
    refine List.foldlRecOn (motive := fun f : File =>
      f.location = known.location ∧ f.IsHomed ∧ f.IsClean) _ _ ?_ ?_
    · exact ⟨rfl, File.isHomed_empty _, fun _ _ hn => nomatch hn⟩
    · rintro f ⟨hlocation, hhomed, hclean⟩ e he
      refine ⟨(e.2.location_act _ f).trans hlocation, e.2.isHomed_act hhomed _, ?_⟩
      refine Reading.Task.isClean_act hhomed hclean ?_
        (Reading.Block.isClean_of_mem_numbered hread hrows he)
      exact Nat.lt_of_le_of_lt (Nat.min_le_right _ _) (by decide)

end NoticeCheck
