import NoticeCheck.Proofs.Blockwise

/-!
Where reveals land. The line above the directives is a call of the probe once one of them is a
reveal, and the notes of all of them are kept at that line.
-/
namespace NoticeCheck

namespace Reading

/-- A line that begins with a call of the probe. -/
def BeginsCall (probe line : Text) : Prop :=
  line.skipBlanks.startsWith (probe ++ ['(']) = true

/-- Whether a row is a reveal of a type. -/
def revealsType (revealed row : Text) : Bool :=
  match Directive.parse row with
  | .ok (some d) => d.instruction = .reveal ∧ d.payload = revealed
  | _ => false

/-- Whether a notice is the note of a revealed type. -/
def notesType (revealed : Text) (n : Notice) : Bool :=
  n.severity = .note ∧ n.message = Notice.revealMessage revealed

variable {probe : Text}

theorem beginsCall_of_isProbe {line : Text} (h : isProbe probe line.trim = true) :
    BeginsCall probe line := by
  obtain ⟨c, rest, htrim, -⟩ := isProbe_iff.mp h
  obtain ⟨more, hmore⟩ := Text.prefix_dropTrailingBlanks line.skipBlanks
  have hskip : line.skipBlanks = line.trim ++ more := hmore.symm
  unfold BeginsCall
  rw [Text.startsWith_iff, hskip, htrim]
  exact ⟨c :: rest ++ more, by simp⟩

theorem beginsCall_call {indent : Text} (hindent : ∀ c ∈ indent, isBlank c = true)
    (hprobe : ∀ c ∈ probe.head?, isBlank c = false) (argument : Text) :
    BeginsCall probe (call indent probe argument) := by
  have hhead : ∀ c ∈ (probe ++ '(' :: argument ++ [')']).head?, isBlank c = false := by
    intro c hc
    cases probe with
    | nil =>
      obtain rfl : '(' = c := by simpa using hc
      decide
    | cons d probe => exact hprobe c (by simpa using hc)
  have hcall : call indent probe argument = indent ++ (probe ++ '(' :: argument ++ [')']) := by
    simp [call]
  unfold BeginsCall
  rw [Text.startsWith_iff, hcall, Text.skipBlanks_append hindent, Text.skipBlanks_eq_self hhead]
  exact ⟨argument ++ [')'], by simp⟩

namespace Block

/-- A reveal makes a call of the line, or finds one. -/
theorem beginsCall_reveal {d : Directive} (hd : d.instruction = .reveal)
    (hindent : ∀ c ∈ d.indent, isBlank c = true) (hprobe : ∀ c ∈ probe.head?, isBlank c = false)
    (lines : List Text × Text) : BeginsCall probe (reveal probe lines d).2 := by
  rw [reveal, if_pos hd]
  dsimp only
  split
  · next h => exact beginsCall_of_isProbe h
  · split <;> exact beginsCall_call hindent hprobe _

/-- The line of a block with a reveal begins with a call. -/
theorem beginsCall_lines (hprobe : ∀ c ∈ probe.head?, isBlank c = false) {b : Block}
    (hb : b.IsRead) (hreveal : ∃ d ∈ b.directives, d.2.instruction = .reveal) :
    BeginsCall probe (b.lines probe).2 := by
  -- the last reveal decides, since no other directive changes the line
  obtain ⟨line, directives⟩ := b
  induction directives using List.reverseRecOn with
  | nil => simp at hreveal
  | append_singleton directives d ih =>
    have hlines : (Block.lines probe ⟨line, directives ++ [d]⟩) =
        reveal probe (Block.lines probe ⟨line, directives⟩) d.2 :=
      lines_add probe ⟨line, directives⟩ d.1 d.2
    rw [hlines]
    by_cases hd : d.2.instruction = .reveal
    · exact beginsCall_reveal hd (hb.isBlank_indent (by simp)) hprobe _
    · have hsame : reveal probe (Block.lines probe ⟨line, directives⟩) d.2 =
          Block.lines probe ⟨line, directives⟩ := if_neg hd
      have hrest : IsRead ⟨line, directives⟩ :=
        ⟨hb.line, fun e he => hb.directives e (List.mem_append_left _ he),
          fun e he => hb.revealed e (List.mem_append_left _ he)⟩
      obtain ⟨e, he, hinstruction⟩ := hreveal
      rw [hsame]
      refine ih hrest ⟨e, ?_, hinstruction⟩
      rcases List.mem_append.mp he with he | he
      · exact he
      · exact absurd (List.mem_singleton.mp he ▸ hinstruction) hd

/-- The lines that stand for the described one are no directives. -/
theorem isDirective_lines (hprobe : IsPlainProbe probe) {b : Block} (hb : b.IsRead) :
    (∀ row ∈ (b.lines probe).1, Reading.isDirective row = false) ∧
      Reading.isDirective (b.lines probe).2 = false := by
  have hrevised := isRead_revised hprobe hb
  constructor
  · intro row hrow
    exact (hrevised ⟨row, []⟩ (List.mem_append_left _ (List.mem_map_of_mem hrow))).isDirective.1
  · exact (hrevised ⟨_, b.directives⟩ (List.mem_append_right _ (by simp))).isDirective.1

/-- Revising leaves the directives of blocks as they are. -/
theorem filter_isDirective_rows (hprobe : IsPlainProbe probe) {blocks : List Block}
    (hread : ∀ b ∈ blocks, b.IsRead) :
    (blocks.flatMap (rows probe)).filter Reading.isDirective =
      (blocks.flatMap source).filter Reading.isDirective := by
  rw [List.filter_flatMap, List.filter_flatMap]
  refine List.flatMap_congr fun b hb => ?_
  obtain ⟨habove, hcurrent⟩ := isDirective_lines hprobe (hread b hb)
  have hline := (hread b hb).isDirective.1
  have hnone : (b.lines probe).1.filter Reading.isDirective = [] :=
    List.filter_eq_nil_iff.mpr fun row hrow => by simp [habove row hrow]
  simp [rows, source, hnone, hcurrent, hline]

/-- Revised blocks do not begin with a directive. -/
theorem takeWhile_isDirective_rows (hprobe : IsPlainProbe probe) {blocks : List Block}
    (hread : ∀ b ∈ blocks, b.IsRead) :
    (blocks.flatMap (rows probe)).takeWhile Reading.isDirective = [] := by
  cases blocks with
  | nil => rfl
  | cons b blocks =>
    obtain ⟨habove, hcurrent⟩ := isDirective_lines hprobe (hread b List.mem_cons_self)
    rw [List.flatMap_cons, rows]
    cases hlines : (b.lines probe).1 with
    | nil => simp [hcurrent]
    | cons row more =>
      have hrow := habove row (by simp [hlines])
      simp [hrow]

/-- A directive stands below the line of some block. -/
theorem exists_block_of_directive {blocks : List Block} (hread : ∀ b ∈ blocks, b.IsRead)
    {above below : List Text} {row : Text} (hrow : isDirective row = true)
    (h : blocks.flatMap source = above ++ row :: below) :
    ∃ first b rest left right, blocks = first ++ b :: rest ∧
      b.directives.map Prod.fst = left ++ row :: right ∧
      above = first.flatMap source ++ b.line :: left ∧ below = right ++ rest.flatMap source := by
  induction blocks generalizing above with
  | nil => simp at h
  | cons b blocks ih =>
    rw [List.flatMap_cons] at h
    have hlater : ∀ more, above = b.source ++ more → blocks.flatMap source = more ++ row :: below →
        ∃ first c rest left right, b :: blocks = first ++ c :: rest ∧
          c.directives.map Prod.fst = left ++ row :: right ∧
          above = first.flatMap source ++ c.line :: left ∧
          below = right ++ rest.flatMap source := by
      intro more habove hmore
      obtain ⟨first, c, rest, left, right, rfl, hc, rfl, hbelow⟩ :=
        ih (fun c hc => hread c (List.mem_cons_of_mem _ hc)) hmore
      exact ⟨b :: first, c, rest, left, right, rfl, hc, by simp [habove], hbelow⟩
    rcases List.append_eq_append_iff.mp h with ⟨more, habove, hmore⟩ | ⟨more, hsource, hbelow⟩
    · exact hlater more habove hmore
    · cases more with
      | nil => exact hlater [] (by simpa using hsource.symm) (by simpa using hbelow.symm)
      | cons r right =>
        obtain ⟨rfl, rfl⟩ := List.cons.inj hbelow
        cases above with
        | nil =>
          have hline : row = b.line := (List.cons.inj hsource).1.symm
          rw [hline, (hread b List.mem_cons_self).isDirective.1] at hrow
          cases hrow
        | cons line left =>
          obtain ⟨rfl, hdirectives⟩ := List.cons.inj hsource
          exact ⟨[], b, blocks, left, right, rfl, hdirectives, rfl, rfl⟩

/-- The reveals among directives are their tasks to reveal. -/
theorem countP_revealsType {directives : List (Text × Directive)}
    (h : ∀ d ∈ directives, Directive.parse d.1 = .ok (some d.2)) (revealed : Text) :
    (directives.map Prod.fst).countP (revealsType revealed) =
      (directives.flatMap fun d => tasksOf d.2).countP (· = .reveal revealed) := by
  induction directives with
  | nil => rfl
  | cons d directives ih =>
    have hrest := ih fun e he => h e (List.mem_cons_of_mem _ he)
    have hname : (d.2.name.map Task.name).toList.countP (· = .reveal revealed) = 0 := by
      cases d.2.name <;> rfl
    have hrow : (if revealsType revealed d.1 then 1 else 0) =
        (tasksOf d.2).countP (· = .reveal revealed) := by
      unfold tasksOf revealsType
      rw [List.countP_append, hname, h d List.mem_cons_self]
      cases hinstruction : d.2.instruction <;> simp [List.countP_cons, hinstruction]
    rw [List.map_cons, List.countP_cons, List.flatMap_cons, List.countP_append, hrest, hrow]
    omega

end Block

/-- A note does not extend a note of a revealed type. -/
theorem countP_notesType_noted (l : Line) (message revealed : Text) :
    l.notices.countP (notesType revealed) ≤ (l.noted message).countP (notesType revealed) := by
  rcases l.noted_cases message with ⟨earlier, n, hlast, hplain, hnoted⟩ | ⟨-, hnoted⟩
  · have hn : notesType revealed n = false := by
      have hreveal : n.message = Notice.revealMessage revealed → n.isReveal = true := by
        intro hmessage
        have hstart : n.message.startsWith Notice.revealStart = true := by
          rw [hmessage, Text.startsWith_iff]
          exact ⟨revealed ++ ['"'], by simp [Notice.revealMessage]⟩
        simp [Notice.isReveal, hplain.1, Severity.isNote, hstart]
      have hother : n.message ≠ Notice.revealMessage revealed := by
        intro hmessage
        have hboth := (hreveal hmessage).symm.trans hplain.2
        exact absurd hboth (by decide)
      simp [notesType, hother]
    rw [hnoted, hlast, List.countP_append, List.countP_append, List.countP_singleton, hn]
    simp
  · rw [hnoted, Line.appended, List.countP_append]
    omega

/-- A change that adds to a count of one line takes nothing from the other lines. -/
private theorem countP_changeLine {p : Notice → Bool} {f : File} {number added : Nat}
    (change : Line → List Notice)
    (h : (f.line number).notices.countP p + added ≤ (change (f.line number)).countP p) (k : Nat) :
    (f.line k).notices.countP p + (if number = k then added else 0) ≤
      ((f.changeLine number change).line k).notices.countP p := by
  rw [File.line_changeLine]
  by_cases hk : number = k
  · rw [if_pos hk, if_pos hk.symm]
    exact hk ▸ h
  · rw [if_neg hk, if_neg (Ne.symm hk)]
    omega

/-- A task keeps the notes of a revealed type, and adds the one that it asks for. -/
theorem countP_notesType_act (number : Nat) (f : File) (task : Task) (revealed : Text) (k : Nat) :
    (f.line k).notices.countP (notesType revealed) +
        (if (number, task) = (k, .reveal revealed) then 1 else 0) ≤
      ((task.act number f).line k).notices.countP (notesType revealed) := by
  have happended : ∀ severity message,
      ((f.line number).appended severity message).countP (notesType revealed) =
        (f.line number).notices.countP (notesType revealed) +
          if severity = .note ∧ message = Notice.revealMessage revealed then 1 else 0 := by
    intro severity message
    simp [Line.appended, Line.notice, notesType, List.countP_append, List.countP_singleton]
  cases task with
  | name text => simp [Task.act, File.setName, File.line, File.line?]
  | reveal r =>
    have hline := countP_changeLine (·.appended .note (Notice.revealMessage r))
      (happended _ _).ge k
    by_cases hr : r = revealed
    · simpa [Task.act, hr] using hline
    · have hle := Nat.le_of_add_right_le hline
      simpa [Task.act, hr] using hle
  | error subtype message =>
    have hline := countP_changeLine (·.appended (.error subtype) message) (happended _ _).ge k
    simpa [Task.act] using hline
  | note message =>
    have hnoted := countP_notesType_noted (f.line number) message revealed
    have hline := countP_changeLine (·.noted message) ((Nat.add_zero _).le.trans hnoted) k
    simpa [Task.act] using hline

/-- Tasks done one after the other leave at least the notes that they ask for at a line. -/
theorem countP_notesType_foldl_act (tasks : List (Nat × Task)) (f : File) (revealed : Text)
    (k : Nat) :
    (f.line k).notices.countP (notesType revealed) +
        tasks.countP (· = (k, .reveal revealed)) ≤
      ((tasks.foldl (fun f (number, task) => task.act number f) f).line k).notices.countP
        (notesType revealed) := by
  induction tasks generalizing f with
  | nil => simp
  | cons e tasks ih =>
    obtain ⟨number, task⟩ := e
    have hfirst := countP_notesType_act number f task revealed k
    have hrest := ih (task.act number f)
    rw [List.foldl_cons, List.countP_cons]
    simp only [decide_eq_true_eq] at hrest ⊢
    omega

private theorem countP_at (number : Nat) (tasks : List Task) (task : Task) :
    (tasks.map fun other => (number, other)).countP (· = (number, task)) =
      tasks.countP (· = task) := by
  rw [List.countP_map]
  refine List.countP_congr fun other _ => ?_
  simp

/-- The tasks of a block stand at the line in front of its directives. -/
theorem Block.le_countP_numbered (probe : Text) (first rest : List Block) (b : Block)
    (task : Task) :
    b.tasks.countP (· = task) ≤ (numbered probe 0 (first ++ b :: rest)).countP
      (· = ((first.flatMap (rows probe)).length + (b.lines probe).1.length + 1, task)) := by
  rw [numbered_append, numbered, List.countP_append, List.countP_append, Nat.zero_add, countP_at]
  omega

/-- The line that a block describes keeps a note for each reveal of the block. -/
theorem Block.countP_revealsType_le {b : Block} (hb : b.IsRead) (first rest : List Block) (f : File)
    (hrows : ((first ++ b :: rest).flatMap (rows probe)).length < Notice.numberLimit)
    (revealed : Text) :
    (b.directives.map Prod.fst).countP (revealsType revealed) ≤
      ((file probe (first ++ b :: rest) f).line
        ((first.flatMap (rows probe)).length + (b.lines probe).1.length + 1)).notices.countP
          (notesType revealed) := by
  have htasks := countP_revealsType hb.directives revealed
  have hnumbered := le_countP_numbered probe first rest b (.reveal revealed)
  have hnotes := countP_notesType_foldl_act (numbered probe 0 (first ++ b :: rest)) f revealed
    ((first.flatMap (rows probe)).length + (b.lines probe).1.length + 1)
  rw [file_eq_foldl hrows, htasks]
  exact hnumbered.trans ((Nat.le_add_left _ _).trans hnotes)

/-- A directive of a block is the one that its row is read as. -/
theorem Block.IsRead.exists_directive {b : Block} (hb : b.IsRead) {row : Text} {d : Directive}
    (hmem : row ∈ b.directives.map Prod.fst) (hrow : Directive.parse row = .ok (some d)) :
    ∃ e ∈ b.directives, e.2 = d := by
  obtain ⟨e, he, rfl⟩ := List.mem_map.mp hmem
  have hparse := hb.directives e he
  exact ⟨e, he, Option.some.inj (Except.ok.inj (hparse.symm.trans hrow))⟩

end Reading

/--
Below the line that a reveal of the source describes in the revised text, which is a call of the
probe, there are only directives up to the reveal, and each reveal among them has its note there.
The reveal is found again by the directives above and below it. Every word will do as a probe.
-/
theorem exists_probe_of_reveal {probe source t : Text} {known f : File}
    (hprobe : Reading.IsPlainProbe probe) (hfirst : ∀ c ∈ probe.head?, isBlank c = false)
    (h : readFixture probe source known = .ok (t, f))
    (hrows : t.rows.length < Notice.numberLimit) {above below : List Text} {row : Text}
    (hsource : source.rows = above ++ row :: below) {d : Directive}
    (hrow : Directive.parse row = .ok (some d)) (hd : d.instruction = .reveal) :
    ∃ before line run after, t.rows = before ++ line :: (run ++ row :: after) ∧
      (before ++ line :: run).filter Reading.isDirective = above.filter Reading.isDirective ∧
      after.filter Reading.isDirective = below.filter Reading.isDirective ∧
      Reading.BeginsCall probe line ∧ (∀ r ∈ run, Reading.isDirective r = true) ∧
      (∃ n ∈ (f.line (before.length + 1)).notices, Reading.notesType d.payload n = true) ∧
      (run ++ row :: after.takeWhile Reading.isDirective).countP
          (Reading.revealsType d.payload) ≤
        (f.line (before.length + 1)).notices.countP (Reading.notesType d.payload) := by
  obtain ⟨blocks, hblocks, rfl, rfl, -⟩ := Reading.exists_blocks hprobe h
  obtain ⟨hread, hflat⟩ := Reading.Block.ofRows_eq_ok_iff.mp hblocks
  have htext := Reading.Block.rows_text hprobe.oneRow hblocks
  rw [htext] at hrows ⊢
  have hdirective : Reading.isDirective row = true := by simp [Reading.isDirective, hrow]
  obtain ⟨first, b, rest, left, right, rfl, hdirectives, rfl, rfl⟩ :=
    Reading.Block.exists_block_of_directive hread hdirective (hflat.trans hsource)
  have hb : b.IsRead := hread b (by simp)
  have hearlier : ∀ c ∈ first, c.IsRead := fun c hc => hread c (by simp [hc])
  have hlater : ∀ c ∈ rest, c.IsRead := fun c hc => hread c (by simp [hc])
  have hrun : ∀ r ∈ left ++ row :: right, Reading.isDirective r = true :=
    hdirectives ▸ hb.isDirective.2
  obtain ⟨habove, hcurrent⟩ := Reading.Block.isDirective_lines hprobe hb
  have hcount : (left ++ row :: right).countP (Reading.revealsType d.payload) ≤
      ((Reading.Block.file probe (first ++ b :: rest) known.reset).line
        ((first.flatMap (Reading.Block.rows probe) ++ (b.lines probe).1).length + 1)).notices.countP
          (Reading.notesType d.payload) := by
    rw [List.length_append, ← hdirectives]
    exact Reading.Block.countP_revealsType_le hb first rest known.reset hrows d.payload
  have hrevealed : ∃ e ∈ b.directives, e.2.instruction = .reveal := by
    obtain ⟨e, he, rfl⟩ := hb.exists_directive (by simp [hdirectives]) hrow
    exact ⟨e, he, hd⟩
  have hself : 0 < (left ++ row :: right).countP (Reading.revealsType d.payload) :=
    List.countP_pos_iff.mpr ⟨row, by simp, by simp [Reading.revealsType, hrow, hd]⟩
  refine ⟨first.flatMap (Reading.Block.rows probe) ++ (b.lines probe).1, (b.lines probe).2, left,
    right ++ rest.flatMap (Reading.Block.rows probe), ?_, ?_, ?_,
    Reading.Block.beginsCall_lines hfirst hb hrevealed, fun r hr => hrun r (by simp [hr]), ?_, ?_⟩
  · simp [Reading.Block.rows, hdirectives]
  · have hnone : (b.lines probe).1.filter Reading.isDirective = [] :=
      List.filter_eq_nil_iff.mpr fun r hr => by simp [habove r hr]
    have hsame := Reading.Block.filter_isDirective_rows hprobe hearlier
    simp [hnone, hcurrent, hb.isDirective.1, hsame]
  · rw [List.filter_append, List.filter_append,
      Reading.Block.filter_isDirective_rows hprobe hlater]
  · exact List.countP_pos_iff.mp (Nat.lt_of_lt_of_le hself hcount)
  · have hall : ∀ r ∈ right, Reading.isDirective r = true := fun r hr => hrun r (by simp [hr])
    rw [List.takeWhile_append_of_pos hall,
      Reading.Block.takeWhile_isDirective_rows hprobe hlater, List.append_nil]
    exact hcount

/-- The second of two reveals below an assignment, whose probe is also given a name. -/
theorem exists_probe_of_second_reveal :
    let source : Text := "x = 1\n# ^ NOTE[n] ^ a\n# ^ REVEAL ^ int\n# ^ REVEAL ^ int\ny".toList
    let row : Text := "# ^ REVEAL ^ int".toList
    ∃ t f, readFixture defaultProbe source (.empty ⟨"/m.py".toList⟩) = .ok (t, f) ∧
      ∃ before line run after, t.rows = before ++ line :: (run ++ row :: after) ∧
        Reading.BeginsCall defaultProbe line ∧
        (run ++ row :: after.takeWhile Reading.isDirective).countP
            (Reading.revealsType "int".toList) ≤
          (f.line (before.length + 1)).notices.countP (Reading.notesType "int".toList) := by
  intro source row
  let read := (readFixture defaultProbe source (.empty ⟨"/m.py".toList⟩)).toOption.getD
    ([], .empty ⟨"/m.py".toList⟩)
  have hread : readFixture defaultProbe source (.empty ⟨"/m.py".toList⟩) =
      .ok (read.1, read.2) := by decide +kernel
  have hrow : Directive.parse row = .ok (some ⟨[], .reveal, none, "int".toList⟩) := by
    decide +kernel
  have hsource : source.rows =
      ["x = 1".toList, "# ^ NOTE[n] ^ a".toList, row] ++ row :: [['y']] := by decide
  obtain ⟨before, line, run, after, hrows, -, -, hcall, -, -, hcount⟩ :=
    exists_probe_of_reveal Reading.isPlainProbe_defaultProbe
      Reading.isWord_defaultProbe.isBlank_head? hread (by decide +kernel) hsource hrow rfl
  exact ⟨read.1, read.2, hread, before, line, run, after, hrows, hcall, hcount⟩

end NoticeCheck
