import Mathlib.Algebra.Order.BigOperators.Group.List
import Mathlib.Algebra.Order.Ring.Nat
import NoticeCheck.Proofs.Probing

/-!
Reading a revised text again. It stays as it is, with the same notices and names, exactly when no
line that begins with a closing parenthesis is described by a single reveal.
-/
namespace NoticeCheck.Reading

namespace Block

def isReveal (d : Text × Directive) : Bool :=
  decide (d.2.instruction = .reveal)

/--
A block that changes when it is read again: one call around a line such as `)` looks like a call
without an argument, and gets another call around it.
-/
def IsUnsettled (b : Block) : Prop :=
  b.line.trim.head? = some ')' ∧ b.directives.countP isReveal = 1

/-- A block that reading leaves as it is. -/
def IsFixed (probe : Text) (b : Block) : Prop :=
  b.lines probe = ([], b.line)

variable {probe : Text}

/-- What directives make of lines, one directive after the other. -/
def revealAll (probe : Text) (lines : List Text × Text) (directives : List (Text × Directive)) :
    List Text × Text :=
  directives.foldl (fun lines d => reveal probe lines d.2) lines

theorem lines_eq_revealAll (probe : Text) (b : Block) :
    b.lines probe = revealAll probe ([], b.line) b.directives := rfl

theorem revealAll_cons (d : Text × Directive) (directives : List (Text × Directive))
    (lines : List Text × Text) : revealAll probe lines (d :: directives) =
      revealAll probe (reveal probe lines d.2) directives := rfl

/-- Probes are left alone. -/
theorem revealAll_of_isProbe {lines : List Text × Text} (h : isProbe probe lines.2.trim = true)
    (directives : List (Text × Directive)) : revealAll probe lines directives = lines := by
  induction directives with
  | nil => rfl
  | cons d directives ih => rw [revealAll_cons, reveal_of_isProbe h, ih]

/-- One reveal or more make a probe of a line that does not begin with a closing parenthesis. -/
theorem isProbe_revealAll (hprobe : IsWord probe) {directives : List (Text × Directive)}
    (hindent : ∀ d ∈ directives, ∀ c ∈ d.2.indent, isBlank c = true)
    (hreveal : 0 < directives.countP isReveal) {lines : List Text × Text}
    (hne : lines.2.trim ≠ []) (hhead : lines.2.trim.head? ≠ some ')') :
    isProbe probe (revealAll probe lines directives).2.trim = true := by
  induction directives with
  | nil => cases hreveal
  | cons d directives ih =>
    rw [revealAll_cons]
    by_cases hd : d.2.instruction = .reveal
    · have hfirst := isProbe_reveal hprobe hne hhead hd (hindent d List.mem_cons_self)
      rw [revealAll_of_isProbe hfirst]
      exact hfirst
    · have hsame : reveal probe lines d.2 = lines := if_neg hd
      rw [List.countP_cons_of_neg (by simpa [isReveal] using hd)] at hreveal
      rw [hsame]
      exact ih (fun e he => hindent e (List.mem_cons_of_mem _ he)) hreveal

/-- The first reveal of a line that begins with a closing parenthesis puts a call around it. -/
theorem exists_revealAll_of_closing (hprobe : IsWord probe) {directives : List (Text × Directive)}
    (hindent : ∀ d ∈ directives, ∀ c ∈ d.2.indent, isBlank c = true)
    (hreveal : 0 < directives.countP isReveal) {lines : List Text × Text}
    (hhead : lines.2.trim.head? = some ')') :
    ∃ (later : List (Text × Directive)) (current : Text),
      later.countP isReveal + 1 = directives.countP isReveal ∧ (∀ d ∈ later, d ∈ directives) ∧
      current.trim = call [] probe lines.2.trim ∧
      revealAll probe lines directives = revealAll probe (lines.1, current) later := by
  induction directives with
  | nil => cases hreveal
  | cons d directives ih =>
    by_cases hd : d.2.instruction = .reveal
    · refine ⟨directives, call d.2.indent probe lines.2.trim, ?_,
        fun e he => List.mem_cons_of_mem _ he, ?_, ?_⟩
      · rw [List.countP_cons_of_pos (by simpa [isReveal] using hd)]
      · exact trim_call_eq hprobe (hindent d List.mem_cons_self) _
      · rw [revealAll_cons, reveal_of_closing hprobe hhead hd]
    · have hsame : reveal probe lines d.2 = lines := if_neg hd
      rw [List.countP_cons_of_neg (by simpa [isReveal] using hd)] at hreveal ⊢
      obtain ⟨later, current, hcount, hmem, htrim, hfold⟩ :=
        ih (fun e he => hindent e (List.mem_cons_of_mem _ he)) hreveal
      refine ⟨later, current, hcount, fun e he => List.mem_cons_of_mem _ (hmem e he), htrim, ?_⟩
      rw [revealAll_cons, hsame, hfold]

private theorem exists_reveal {b : Block} (h : 0 < b.directives.countP isReveal) :
    ∃ d ∈ b.directives, d.2.instruction = .reveal := by
  obtain ⟨d, hd, hreveal⟩ := List.countP_pos_iff.mp h
  exact ⟨d, hd, by simpa [isReveal] using hreveal⟩

private theorem head?_call (hprobe : IsWord probe) (argument : Text) :
    (call [] probe argument).head? ≠ some ')' := by
  obtain ⟨c, rest, hc⟩ := List.exists_cons_of_ne_nil hprobe.nonempty
  rintro h
  obtain rfl : c = ')' := by simpa [call, hc] using h
  exact absurd (hprobe.word ')' (by simp [hc])) (by decide)

private theorem call_ne_nil (argument : Text) : call [] probe argument ≠ [] := by
  simp [call]

/-- A revealed line ends up as a probe, but for the unsettled ones. -/
theorem isProbe_lines (hprobe : IsWord probe) {b : Block} (hb : b.IsRead)
    (hreveal : 0 < b.directives.countP isReveal) (hsettled : ¬b.IsUnsettled) :
    isProbe probe (b.lines probe).2.trim = true := by
  obtain ⟨d, hd, hinstruction⟩ := exists_reveal hreveal
  have hne := hb.revealed d hd hinstruction
  have hindent : ∀ d ∈ b.directives, _ := fun d hd => hb.isBlank_indent hd
  rw [lines_eq_revealAll]
  by_cases hhead : b.line.trim.head? = some ')'
  · obtain ⟨later, current, hcount, hmem, htrim, hfold⟩ :=
      exists_revealAll_of_closing hprobe hindent hreveal
        (show ([], b.line).2.trim.head? = some ')' from hhead)
    have hlater : 0 < later.countP isReveal := by
      have : b.directives.countP isReveal ≠ 1 := fun h => hsettled ⟨hhead, h⟩
      omega
    rw [hfold]
    refine isProbe_revealAll hprobe (fun d hd => hindent d (hmem d hd)) hlater ?_ ?_
    · exact htrim ▸ call_ne_nil _
    · exact htrim ▸ head?_call hprobe _
  · exact isProbe_revealAll hprobe hindent hreveal hne hhead

theorem trim_lines_of_unsettled (hprobe : IsWord probe) {b : Block} (hb : b.IsRead)
    (h : b.IsUnsettled) : (b.lines probe).2.trim = call [] probe b.line.trim := by
  obtain ⟨hhead, hone⟩ := h
  obtain ⟨later, current, hcount, -, htrim, hfold⟩ :=
    exists_revealAll_of_closing hprobe (fun d hd => hb.isBlank_indent hd) (hone ▸ Nat.one_pos)
      (show ([], b.line).2.trim.head? = some ')' from hhead)
  have hlater : ∀ d ∈ later, d.2.instruction ≠ .reveal := by
    intro d hd hinstruction
    have : 0 < later.countP isReveal := List.countP_pos_iff.mpr ⟨d, hd, by simpa [isReveal]⟩
    omega
  have hsame : revealAll probe ([], current) later = ([], current) :=
    lines_of_no_reveal probe (b := ⟨current, later⟩) hlater
  rw [lines_eq_revealAll, hfold, hsame, htrim]

/-- The line that a block is read from again, with the directives below it. -/
def last (probe : Text) (b : Block) : Block :=
  ⟨(b.lines probe).2, b.directives⟩

theorem isRead_last (hprobe : IsPlainProbe probe) {b : Block} (hb : b.IsRead) :
    (b.last probe).IsRead :=
  isRead_revised hprobe hb _ (by simp [revised, last])

/-- An unsettled block is the only kind that another reading changes. -/
theorem isFixed_last_iff (hprobe : IsWord probe) {b : Block} (hb : b.IsRead) :
    (b.last probe).IsFixed probe ↔ ¬b.IsUnsettled := by
  by_cases hreveal : 0 < b.directives.countP isReveal
  · constructor
    · intro hfixed hunsettled
      obtain ⟨d, hd, hinstruction⟩ := exists_reveal hreveal
      have hcurrent := trim_lines_of_unsettled hprobe hb hunsettled
      have hlast : ¬(b.last probe).IsUnsettled := by
        rintro ⟨hhead, -⟩
        rw [last, hcurrent] at hhead
        exact head?_call hprobe _ hhead
      have hagain := isProbe_lines hprobe (isRead_last hprobe.isPlainProbe hb) hreveal hlast
      rw [hfixed, last, hcurrent, isProbe_call (hb.revealed d hd hinstruction),
        hunsettled.1] at hagain
      cases hagain
    · intro hsettled
      have hline : isProbe probe (([] : List Text), (b.lines probe).2).2.trim = true :=
        isProbe_lines hprobe hb hreveal hsettled
      exact revealAll_of_isProbe hline b.directives
  · have hnone : ∀ d ∈ (b.last probe).directives, d.2.instruction ≠ .reveal :=
      fun d hd hinstruction => hreveal (List.countP_pos_iff.mpr ⟨d, hd, by simpa [isReveal]⟩)
    refine iff_of_true (lines_of_no_reveal probe hnone) fun h => hreveal ?_
    rw [h.2]
    exact Nat.one_pos

theorem rows_eq_source_iff {b : Block} : b.rows probe = b.source ↔ b.IsFixed probe := by
  constructor
  · intro h
    have hnone : (b.lines probe).1 = [] := by
      have := congrArg List.length h
      simp only [rows, source, List.length_append, List.length_cons, List.length_map] at this
      exact List.eq_nil_of_length_eq_zero (by omega)
    rw [rows, hnone] at h
    exact Prod.ext hnone (List.cons.inj h).1
  · intro h
    rw [rows, h, source, List.nil_append]

theorem revised_of_isFixed {b : Block} (h : b.IsFixed probe) : b.revised probe = [b] := by
  rw [revised, h]
  rfl

/-- The blocks of a revised text are all fixed unless one of the source was unsettled. -/
theorem forall_revised_isFixed_iff (hprobe : IsWord probe) {blocks : List Block}
    (hread : ∀ b ∈ blocks, b.IsRead) :
    (∀ c ∈ blocks.flatMap (revised probe), c.IsFixed probe) ↔
      ∀ b ∈ blocks, ¬b.IsUnsettled := by
  constructor
  · intro h b hb
    refine (isFixed_last_iff hprobe (hread b hb)).mp (h _ (List.mem_flatMap.mpr ⟨b, hb, ?_⟩))
    simp [revised, last]
  · intro h c hc
    obtain ⟨b, hb, hc⟩ := List.mem_flatMap.mp hc
    rcases List.mem_append.mp hc with hc | hc
    · obtain ⟨row, -, rfl⟩ := List.mem_map.mp hc
      rfl
    · rw [List.mem_singleton.mp hc]
      exact (isFixed_last_iff hprobe (hread b hb)).mpr (h b hb)

/-- Fixed blocks are numbered as they stand. -/
theorem numbered_of_isFixed {blocks : List Block} (h : ∀ b ∈ blocks, b.IsFixed probe)
    (above : Nat) : numbered probe above blocks = placed above blocks := by
  have hsame : blocks.flatMap (revised probe) = blocks :=
    (List.flatMap_congr fun b hb => revised_of_isFixed (h b hb)).trans (List.flatMap_singleton' _)
  rw [numbered_eq_placed, hsame]

/-- Blocks that are all fixed once revised ask for the same at the same numbers. -/
theorem file_revised_of_isFixed {blocks : List Block}
    (h : ∀ c ∈ blocks.flatMap (revised probe), c.IsFixed probe) (f : File) :
    file probe (blocks.flatMap (revised probe)) f = file probe blocks f := by
  rw [file, file, numbered_of_isFixed h, ← numbered_eq_placed]

private theorem eq_of_flatMap_eq {α β : Type} {f g : α → List β} {xs : List α}
    (hle : ∀ x ∈ xs, (g x).length ≤ (f x).length) (h : xs.flatMap f = xs.flatMap g) :
    ∀ x ∈ xs, f x = g x := by
  induction xs with
  | nil => simp
  | cons x xs ih =>
    have hrest : (xs.flatMap g).length ≤ (xs.flatMap f).length := by
      rw [List.length_flatMap, List.length_flatMap]
      exact List.sum_le_sum fun y hy => hle y (List.mem_cons_of_mem _ hy)
    have hfirst := hle x List.mem_cons_self
    have hlength := congrArg List.length h
    simp only [List.flatMap_cons, List.length_append] at hlength
    obtain ⟨hx, hxs⟩ := List.append_inj h (by omega)
    intro y hy
    rcases List.mem_cons.mp hy with rfl | hy
    · exact hx
    · exact ih (fun z hz => hle z (List.mem_cons_of_mem _ hz)) hxs y hy

/-- A text stays as it is exactly when the blocks it is read as do. -/
theorem text_eq_iff (hprobe : IsPlainProbe probe) {t : Text} {blocks : List Block}
    (h : ofRows t.rows = .ok blocks) :
    text probe blocks = t ↔ ∀ b ∈ blocks, b.IsFixed probe := by
  obtain ⟨-, hsource⟩ := ofRows_eq_ok_iff.mp h
  constructor
  · intro htext b hb
    have hrows := rows_text hprobe.oneRow h
    rw [htext, ← hsource] at hrows
    have hshort : ∀ b ∈ blocks, b.source.length ≤ (b.rows probe).length := by
      intro b _
      simp only [rows, source, List.length_append, List.length_cons]
      omega
    exact rows_eq_source_iff.mp (eq_of_flatMap_eq hshort hrows.symm b hb)
  · intro hfixed
    rw [text, List.flatMap_congr fun b hb => rows_eq_source_iff.mpr (hfixed b hb), hsource,
      Text.ofRows_rows]

end Block

/-- A source without a block that changes when it is read again. -/
def IsSettled (source : Text) : Prop :=
  ∀ blocks, Block.ofRows source.rows = .ok blocks → ∀ b ∈ blocks, ¬b.IsUnsettled

theorem isSettled_iff {probe source : Text} (hprobe : IsWord probe) {blocks : List Block}
    (h : Block.ofRows source.rows = .ok blocks) :
    IsSettled source ↔ ∀ c ∈ blocks.flatMap (Block.revised probe), c.IsFixed probe := by
  rw [Block.forall_revised_isFixed_iff hprobe (Block.ofRows_eq_ok_iff.mp h).1]
  constructor
  · intro hsettled
    exact hsettled blocks h
  · intro hblocks others hothers
    obtain rfl := Except.ok.inj (h.symm.trans hothers)
    exact hblocks

/-- A revised text can be read again; it expects the same when all its blocks are fixed. -/
private theorem exists_blocks_again {probe source t : Text} (hprobe : IsPlainProbe probe)
    {known f : File} (h : readFixture probe source known = .ok (t, f)) (again : File) :
    ∃ blocks t' f', Block.ofRows source.rows = .ok blocks ∧
      readFixture probe t again = .ok (t', f') ∧
      (t' = t ↔ ∀ c ∈ blocks.flatMap (Block.revised probe), c.IsFixed probe) ∧
      (t' = t → again.location = known.location → f' = f) := by
  obtain ⟨blocks, hblocks, -, rfl, hrevised⟩ := exists_blocks hprobe h
  have hagain : readFixture probe t again = .ok
      (Block.text probe (blocks.flatMap (Block.revised probe)),
        Block.file probe (blocks.flatMap (Block.revised probe)) again.reset) := by
    rw [readFixture_eq, hrevised]
    rfl
  have htext := Block.text_eq_iff hprobe hrevised
  refine ⟨blocks, _, _, hblocks, hagain, htext, fun hsame hlocation => ?_⟩
  rw [Block.file_revised_of_isFixed (htext.mp hsame), File.reset, File.reset, hlocation]

/-- Whatever the probe, a revised text that stays as it is expects the same again. -/
theorem exists_file_again {probe source t : Text} (hprobe : IsPlainProbe probe) {known f : File}
    (h : readFixture probe source known = .ok (t, f)) {again : File}
    (hlocation : again.location = known.location) :
    ∃ t' f', readFixture probe t again = .ok (t', f') ∧ (t' = t → f' = f) := by
  obtain ⟨-, t', f', -, hagain, -, hfile⟩ := exists_blocks_again hprobe h again
  exact ⟨t', f', hagain, fun hsame => hfile hsame hlocation⟩

/-- A revised text can be read again, and stays as it is exactly when its source was settled. -/
theorem exists_read_again {probe source t : Text} (hprobe : IsWord probe) {known f : File}
    (h : readFixture probe source known = .ok (t, f)) (again : File) :
    ∃ t' f', readFixture probe t again = .ok (t', f') ∧ (t' = t ↔ IsSettled source) ∧
      (IsSettled source → again.location = known.location → f' = f) := by
  obtain ⟨blocks, t', f', hblocks, hagain, htext, hfile⟩ :=
    exists_blocks_again hprobe.isPlainProbe h again
  have hsettled : t' = t ↔ IsSettled source := htext.trans (isSettled_iff hprobe hblocks).symm
  exact ⟨t', f', hagain, hsettled, fun h => hfile (hsettled.mpr h)⟩

end NoticeCheck.Reading
