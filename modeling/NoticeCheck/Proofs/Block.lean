import NoticeCheck.Proofs.Text
import NoticeCheck.Reading

/-!
Fixtures as blocks: a line that is no directive and the directives below it. Cutting rows into
blocks is all that can fail in a reading; what becomes of a block depends on that block only.
-/
namespace NoticeCheck.Reading

/-- A described line and its directives, each with the row it was read from. -/
structure Block where
  line : Text
  directives : List (Text × Directive)

namespace Block

def source (b : Block) : List Text :=
  b.line :: b.directives.map Prod.fst

def add (b : Block) (row : Text) (d : Directive) : Block :=
  { b with directives := b.directives ++ [(row, d)] }

/-- What a directive makes of the lines above the current one and of the current line. -/
def reveal (probe : Text) (lines : List Text × Text) (d : Directive) : List Text × Text :=
  if d.instruction = .reveal then
    let text := lines.2.trim
    if isProbe probe text then lines
    else match assigned? text with
      | some name => (lines.1 ++ [lines.2], call d.indent probe name)
      | none => (lines.1, call d.indent probe text)
  else lines

/-- The lines that stand for the described one: those above, and the current one. -/
def lines (probe : Text) (b : Block) : List Text × Text :=
  b.directives.foldl (fun lines d => reveal probe lines d.2) ([], b.line)

/-- The rows of a block in the revised text. -/
def rows (probe : Text) (b : Block) : List Text :=
  (b.lines probe).1 ++ (b.lines probe).2 :: b.directives.map Prod.fst

def tasks (b : Block) : List Task :=
  b.directives.flatMap fun d => tasksOf d.2

/-- Take one more row into the blocks read so far. -/
def addRow (blocks : List Block) (row : Text) : Except ReadingError (List Block) :=
  match Directive.parse row with
  | .error fault => throw (.directive fault row)
  | .ok none => pure (blocks ++ [⟨row, []⟩])
  | .ok (some d) =>
    match blocks.getLast? with
    | none => throw (.orphan row)
    | some b =>
      if d.instruction = .reveal ∧ b.line.trim = [] then throw (.nothingToReveal row)
      else pure (blocks.dropLast ++ [b.add row d])

def ofRows (rows : List Text) : Except ReadingError (List Block) :=
  rows.foldlM addRow []

/-- The tasks of blocks, each at the number of the line it is about. -/
def numbered (probe : Text) : (above : Nat) → List Block → List (Nat × Task)
  | _, [] => []
  | above, b :: blocks =>
    b.tasks.map (fun task => (above + (b.lines probe).1.length + 1, task)) ++
      numbered probe (above + (b.rows probe).length) blocks

/-- A block as rows are cut: one described line, directives, and a line to reveal where needed. -/
structure IsRead (b : Block) : Prop where
  line : Directive.parse b.line = .ok none
  directives : ∀ d ∈ b.directives, Directive.parse d.1 = .ok (some d.2)
  revealed : ∀ d ∈ b.directives, d.2.instruction = .reveal → b.line.trim ≠ []

@[simp] theorem source_add (b : Block) (row : Text) (d : Directive) :
    (b.add row d).source = b.source ++ [row] := by
  simp [source, add]

@[simp] theorem tasks_add (b : Block) (row : Text) (d : Directive) :
    (b.add row d).tasks = b.tasks ++ tasksOf d := by
  simp [tasks, add]

theorem lines_add (probe : Text) (b : Block) (row : Text) (d : Directive) :
    (b.add row d).lines probe = reveal probe (b.lines probe) d := by
  simp [lines, add]

theorem numbered_append (probe : Text) (above : Nat) (blocks more : List Block) :
    numbered probe above (blocks ++ more) = numbered probe above blocks ++
      numbered probe (above + (blocks.flatMap (rows probe)).length) more := by
  induction blocks generalizing above with
  | nil => simp [numbered]
  | cons b blocks ih => simp [numbered, ih, Nat.add_assoc]

theorem addRow_of_line {row : Text} (h : Directive.parse row = .ok none) (blocks : List Block) :
    addRow blocks row = .ok (blocks ++ [⟨row, []⟩]) := by
  rw [addRow, h]
  rfl

theorem addRow_of_directive {row : Text} {d : Directive}
    (h : Directive.parse row = .ok (some d)) (blocks : List Block) (b : Block) :
    addRow (blocks ++ [b]) row =
      if d.instruction = .reveal ∧ b.line.trim = [] then .error (.nothingToReveal row)
      else .ok (blocks ++ [b.add row d]) := by
  simp only [addRow, h, List.getLast?_concat, List.dropLast_concat]
  rfl

private theorem foldlM_addRow_directives {line : Text} (read more : List (Text × Directive))
    (h : IsRead ⟨line, read ++ more⟩) (blocks : List Block) :
    (more.map Prod.fst).foldlM addRow (blocks ++ [⟨line, read⟩]) =
      .ok (blocks ++ [⟨line, read ++ more⟩]) := by
  induction more generalizing read with
  | nil => simp [pure, Except.pure]
  | cons d more ih =>
    have hd : d ∈ read ++ d :: more := by simp
    rw [List.map_cons, List.foldlM_cons, addRow_of_directive (h.directives d hd),
      if_neg fun hreveal => h.revealed d hd hreveal.1 hreveal.2]
    have hmore := ih (read ++ [d]) (by simpa using h)
    simpa [bind, Except.bind, add] using hmore

theorem foldlM_addRow_source {more : List Block} (h : ∀ b ∈ more, b.IsRead)
    (blocks : List Block) :
    (more.flatMap source).foldlM addRow blocks = .ok (blocks ++ more) := by
  induction more generalizing blocks with
  | nil => simp [pure, Except.pure]
  | cons b more ih =>
    have hb := h b List.mem_cons_self
    have hrows : b.source.foldlM addRow blocks = .ok (blocks ++ [b]) := by
      rw [source, List.foldlM_cons, addRow_of_line hb.line]
      exact foldlM_addRow_directives [] b.directives hb blocks
    rw [List.flatMap_cons, List.foldlM_append, hrows]
    refine (ih (fun c hc => h c (List.mem_cons_of_mem _ hc)) (blocks ++ [b])).trans ?_
    rw [List.append_assoc, List.singleton_append]

private theorem isRead_add {b : Block} (hb : b.IsRead) {row : Text} {d : Directive}
    (hrow : Directive.parse row = .ok (some d))
    (hreveal : ¬(d.instruction = .reveal ∧ b.line.trim = [])) : (b.add row d).IsRead := by
  refine ⟨hb.line, fun e he => ?_, fun e he hinstruction => ?_⟩ <;>
    rcases List.mem_append.mp he with he | he
  · exact hb.directives e he
  · rw [List.mem_singleton.mp he]
    exact hrow
  · exact hb.revealed e he hinstruction
  · rw [List.mem_singleton.mp he] at hinstruction
    exact fun hblank => hreveal ⟨hinstruction, hblank⟩

theorem addRow_sound {blocks blocks' : List Block} {row : Text}
    (hblocks : ∀ b ∈ blocks, b.IsRead) (h : addRow blocks row = .ok blocks') :
    (∀ b ∈ blocks', b.IsRead) ∧ blocks'.flatMap source = blocks.flatMap source ++ [row] := by
  cases hrow : Directive.parse row with
  | error fault =>
    rw [addRow, hrow] at h
    cases h
  | ok read =>
    cases read with
    | none =>
      rw [addRow_of_line hrow] at h
      obtain rfl := Except.ok.inj h
      have hnew : IsRead ⟨row, []⟩ := ⟨hrow, by simp, by simp⟩
      refine ⟨fun b hb => ?_, by simp [source]⟩
      rcases List.mem_append.mp hb with hb | hb
      · exact hblocks b hb
      · exact List.mem_singleton.mp hb ▸ hnew
    | some d =>
      rcases List.eq_nil_or_concat blocks with rfl | ⟨finished, b, rfl⟩
      · rw [addRow, hrow] at h
        cases h
      · rw [List.concat_eq_append] at h hblocks ⊢
        rw [addRow_of_directive hrow] at h
        split at h
        · cases h
        · next hreveal =>
          obtain rfl := Except.ok.inj h
          have hb := hblocks b (by simp)
          refine ⟨fun c hc => ?_, by simp⟩
          rcases List.mem_append.mp hc with hc | hc
          · exact hblocks c (by simp [hc])
          · exact List.mem_singleton.mp hc ▸ isRead_add hb hrow hreveal

theorem foldlM_addRow_sound {rows : List Text} {blocks blocks' : List Block}
    (hblocks : ∀ b ∈ blocks, b.IsRead) (h : rows.foldlM addRow blocks = .ok blocks') :
    (∀ b ∈ blocks', b.IsRead) ∧ blocks'.flatMap source = blocks.flatMap source ++ rows := by
  induction rows generalizing blocks with
  | nil =>
    obtain rfl := Except.ok.inj h
    exact ⟨hblocks, by simp⟩
  | cons row rows ih =>
    rw [List.foldlM_cons] at h
    cases hrow : addRow blocks row with
    | error e => simp [hrow, bind, Except.bind] at h
    | ok next =>
      obtain ⟨hnext, hsource⟩ := addRow_sound hblocks hrow
      obtain ⟨hread, hall⟩ := ih hnext (by simpa [hrow, bind, Except.bind] using h)
      exact ⟨hread, by simp [hall, hsource]⟩

/-- Rows are cut into blocks in exactly one way. -/
theorem ofRows_eq_ok_iff {rows : List Text} {blocks : List Block} :
    ofRows rows = .ok blocks ↔ (∀ b ∈ blocks, b.IsRead) ∧ blocks.flatMap source = rows := by
  constructor
  · intro h
    simpa using foldlM_addRow_sound (by simp) h
  · rintro ⟨hread, rfl⟩
    exact foldlM_addRow_source hread []

end Block

end NoticeCheck.Reading
