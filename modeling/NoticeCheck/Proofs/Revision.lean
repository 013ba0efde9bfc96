import NoticeCheck.Proofs.Directive
import NoticeCheck.Proofs.Planning

/-!
The revised text as blocks: the lines above a probe stand for themselves, and the directives stay
below the probe.
-/
namespace NoticeCheck.Reading

/-- A probe can stand in a row, and no row that starts with it is a comment. -/
structure IsPlainProbe (probe : Text) : Prop where
  uncommented : '#' ∉ probe
  oneRow : '\n' ∉ probe

theorem isPlainProbe_defaultProbe : IsPlainProbe defaultProbe :=
  ⟨by decide, by decide⟩

variable {probe : Text}

theorem parse_call {indent : Text} (hindent : ∀ c ∈ indent, isBlank c = true)
    (hprobe : '#' ∉ probe) (argument : Text) :
    Directive.parse (call indent probe argument) = .ok none := by
  have hcall : call indent probe argument =
      indent ++ ((probe ++ ['(']) ++ (argument ++ [')'])) := by
    simp [call]
  have hstart : '#' ∉ probe ++ ['('] := by
    simpa using hprobe
  refine Directive.parse_of_head fun c hc hsharp => hstart (hsharp ▸ ?_)
  rw [hcall, Text.skipBlanks_append hindent] at hc
  exact Text.mem_of_head?_skipBlanks_append ⟨'(', by simp, by decide⟩ _ c hc

theorem not_mem_call {c : Char} {indent argument : Text} (hindent : c ∉ indent) (hprobe : c ∉ probe)
    (hargument : c ∉ argument) (hopen : c ≠ '(') (hclose : c ≠ ')') :
    c ∉ call indent probe argument := by
  simp [call, hindent, hprobe, hargument, hopen, hclose]

theorem mem_of_assigned? {c : Char} {line name : Text} (h : assigned? line = some name)
    (hc : c ∈ name) : c ∈ line := by
  simp only [assigned?, Option.ite_none_right_eq_some] at h
  obtain rfl := Option.some.inj h.2
  exact (List.takeWhile_sublist _).mem hc

namespace Block

theorem IsRead.isBlank_indent {b : Block} (hb : b.IsRead) {d : Text × Directive}
    (hd : d ∈ b.directives) : ∀ c ∈ d.2.indent, isBlank c = true := by
  rw [(Directive.fromLine_of_parse (hb.directives d hd)).indent]
  exact fun c hc => List.mem_takeWhile_imp hc

/-- What holds of the described line and of every call made of such lines holds of all lines. -/
theorem forall_lines (probe : Text) {P : Text → Prop} {b : Block} (hline : P b.line)
    (hcall : ∀ d ∈ b.directives, ∀ text, P text → ∀ argument, (∀ c ∈ argument, c ∈ text) →
      P (call d.2.indent probe argument)) :
    (∀ row ∈ (b.lines probe).1, P row) ∧ P (b.lines probe).2 := by
  rw [lines]
  refine List.foldlRecOn (motive := fun lines : List Text × Text =>
    (∀ row ∈ lines.1, P row) ∧ P lines.2) b.directives _ ⟨by simp, hline⟩ fun lines h d hd => ?_
  obtain ⟨habove, hcurrent⟩ := h
  rw [reveal]
  split
  · dsimp only
    split
    · exact ⟨habove, hcurrent⟩
    · split
      · next name hname =>
        refine ⟨fun row hrow => ?_, hcall d hd lines.2 hcurrent name fun c hc =>
          Text.mem_of_mem_trim (mem_of_assigned? hname hc)⟩
        rcases List.mem_append.mp hrow with hrow | hrow
        · exact habove row hrow
        · exact List.mem_singleton.mp hrow ▸ hcurrent
      · exact ⟨habove, hcall d hd lines.2 hcurrent _ fun c hc => Text.mem_of_mem_trim hc⟩
  · exact ⟨habove, hcurrent⟩

/-- The blocks that a block is read as in the revised text. -/
def revised (probe : Text) (b : Block) : List Block :=
  (b.lines probe).1.map (⟨·, []⟩) ++ [⟨(b.lines probe).2, b.directives⟩]

theorem flatMap_source_revised (probe : Text) (b : Block) :
    (b.revised probe).flatMap source = b.rows probe := by
  simp [revised, rows, source, List.flatMap_map, List.flatMap_singleton']

theorem isRead_revised (hprobe : IsPlainProbe probe) {b : Block} (hb : b.IsRead) :
    ∀ c ∈ b.revised probe, c.IsRead := by
  obtain ⟨habove, hcurrent⟩ := forall_lines probe
    (P := fun row => Directive.parse row = .ok none) hb.line fun d hd _ _ argument _ =>
      parse_call (hb.isBlank_indent hd) hprobe.uncommented argument
  intro c hc
  rcases List.mem_append.mp hc with hc | hc
  · obtain ⟨row, hrow, rfl⟩ := List.mem_map.mp hc
    exact ⟨habove row hrow, by simp, by simp⟩
  · rw [List.mem_singleton.mp hc]
    exact ⟨hcurrent, hb.directives, fun d hd hreveal =>
      trim_lines_ne_nil probe (hb.revealed d hd hreveal)⟩

theorem oneRow_rows (hprobe : '\n' ∉ probe) {b : Block} (hb : b.IsRead)
    (h : ∀ row ∈ b.source, '\n' ∉ row) : ∀ row ∈ b.rows probe, '\n' ∉ row := by
  obtain ⟨habove, hcurrent⟩ := forall_lines probe (P := fun row => '\n' ∉ row) (b := b)
    (h b.line (by simp [source])) fun d hd text htext argument hargument => by
      have hrow : '\n' ∉ d.1 := h d.1 (List.mem_cons_of_mem _ (List.mem_map_of_mem hd))
      have hindent : '\n' ∉ d.2.indent := by
        rw [(Directive.fromLine_of_parse (hb.directives d hd)).indent]
        exact fun hmem => hrow ((List.takeWhile_sublist _).mem hmem)
      exact not_mem_call hindent hprobe (fun hmem => htext (hargument _ hmem)) (by decide)
        (by decide)
  intro row hrow
  rcases List.mem_append.mp hrow with hrow | hrow
  · exact habove row hrow
  · rcases List.mem_cons.mp hrow with rfl | hrow
    · exact hcurrent
    · exact h row (List.mem_cons_of_mem _ hrow)

/-- The tasks of blocks whose rows stay as they are, each at the number of its line. -/
def placed : (above : Nat) → List Block → List (Nat × Task)
  | _, [] => []
  | above, b :: blocks =>
    b.tasks.map (fun task => (above + 1, task)) ++ placed (above + b.source.length) blocks

private theorem placed_lines (above : Nat) (lines : List Text) (more : List Block) :
    placed above (lines.map (⟨·, []⟩) ++ more) = placed (above + lines.length) more := by
  induction lines generalizing above with
  | nil => rfl
  | cons line lines ih =>
    simp [placed, tasks, source, ih, Nat.add_assoc, Nat.add_comm 1]

/-- Tasks stand at the same numbers when the revised text is counted plainly. -/
theorem numbered_eq_placed (probe : Text) (above : Nat) (blocks : List Block) :
    numbered probe above blocks = placed above (blocks.flatMap (revised probe)) := by
  induction blocks generalizing above with
  | nil => rfl
  | cons b blocks ih =>
    have hheight : above + (b.lines probe).1.length + (b.directives.length + 1) =
        above + (b.rows probe).length := by
      simp [rows, Nat.add_assoc]
    rw [List.flatMap_cons, revised, List.append_assoc, placed_lines]
    simp [numbered, placed, tasks, source, ih, hheight]

/-- Tasks stand at the numbers of the rows of their blocks. -/
theorem le_of_mem_numbered {above : Nat} {blocks : List Block} {e : Nat × Task}
    (h : e ∈ numbered probe above blocks) :
    above < e.1 ∧ e.1 ≤ above + (blocks.flatMap (rows probe)).length := by
  induction blocks generalizing above with
  | nil => cases h
  | cons b blocks ih =>
    have hrows : (b.rows probe).length =
        (b.lines probe).1.length + 1 + b.directives.length := by
      simp only [rows, List.length_append, List.length_cons, List.length_map]
      omega
    rw [List.flatMap_cons, List.length_append]
    rcases List.mem_append.mp h with h | h
    · obtain ⟨task, -, rfl⟩ := List.mem_map.mp h
      dsimp only
      omega
    · have hrest := ih h
      omega

/-- When the rows can all be numbered, tasks are done at the numbers of their lines. -/
theorem file_eq_foldl {blocks : List Block}
    (h : (blocks.flatMap (rows probe)).length < Notice.numberLimit) (f : File) :
    file probe blocks f =
      (numbered probe 0 blocks).foldl (fun f (number, task) => task.act number f) f := by
  refine List.foldl_ext _ _ _ fun f e he => ?_
  have hle := (le_of_mem_numbered he).2
  obtain ⟨number, task⟩ := e
  have hmin : min number (Notice.numberLimit - 1) = number := by
    dsimp only at hle
    omega
  simp only [hmin]

end Block

/-- The rows of a revised text are those of its blocks. -/
theorem Block.rows_text (hprobe : '\n' ∉ probe) {source : Text} {blocks : List Block}
    (h : ofRows source.rows = .ok blocks) :
    (text probe blocks).rows = blocks.flatMap (rows probe) := by
  obtain ⟨hread, hsource⟩ := ofRows_eq_ok_iff.mp h
  refine Text.rows_ofRows (fun hnil => ?_) fun row hrow => ?_
  · have hempty : blocks = [] := by
      cases blocks with
      | nil => rfl
      | cons b blocks => simp [rows] at hnil
    rw [hempty] at hsource
    exact Text.cut_ne_nil '\n' source hsource.symm
  · obtain ⟨b, hb, hrow⟩ := List.mem_flatMap.mp hrow
    refine oneRow_rows hprobe (hread b hb) (fun r hr => ?_) row hrow
    exact Text.not_mem_of_mem_rows (hsource ▸ List.mem_flatMap.mpr ⟨b, hb, hr⟩)

/-- A revised text is cut into the revised blocks of its source. -/
theorem exists_blocks (hprobe : IsPlainProbe probe) {source t : Text} {known f : File}
    (h : readFixture probe source known = .ok (t, f)) :
    ∃ blocks, Block.ofRows source.rows = .ok blocks ∧ t = Block.text probe blocks ∧
      f = Block.file probe blocks known.reset ∧
      Block.ofRows t.rows = .ok (blocks.flatMap (Block.revised probe)) := by
  rw [readFixture_eq] at h
  cases hblocks : Block.ofRows source.rows with
  | error e => rw [hblocks] at h; cases h
  | ok blocks =>
    rw [hblocks] at h
    obtain ⟨rfl, rfl⟩ := Prod.mk.inj (Except.ok.inj h)
    obtain ⟨hread, -⟩ := Block.ofRows_eq_ok_iff.mp hblocks
    refine ⟨blocks, rfl, rfl, rfl, Block.ofRows_eq_ok_iff.mpr ⟨fun c hc => ?_, ?_⟩⟩
    · obtain ⟨b, hb, hc⟩ := List.mem_flatMap.mp hc
      exact Block.isRead_revised hprobe (hread b hb) c hc
    · rw [Block.rows_text hprobe.oneRow hblocks, List.flatMap_assoc]
      exact List.flatMap_congr fun b _ => Block.flatMap_source_revised probe b

end NoticeCheck.Reading
