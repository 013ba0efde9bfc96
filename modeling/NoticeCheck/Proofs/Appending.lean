import NoticeCheck.Proofs.Expected
import NoticeCheck.Proofs.Raising
import NoticeCheck.Proofs.Revision

/-!
Reading a text that is put together from two. When the second one does not begin with a directive,
each of them is read as it is on its own, the second one further down.
-/
namespace NoticeCheck

theorem Text.ofRows_append {above below : List Text} (habove : above ≠ []) (hbelow : below ≠ []) :
    ofRows (above ++ below) = ofRows above ++ '\n' :: ofRows below := by
  induction above with
  | nil => exact absurd rfl habove
  | cons row above ih =>
    cases above with
    | nil =>
      obtain ⟨first, rest, rfl⟩ := List.exists_cons_of_ne_nil hbelow
      rfl
    | cons next above =>
      have hrest := ih (by simp)
      have hglue : ∀ rows : List Text, ofRows (row :: next :: rows) =
          row ++ '\n' :: ofRows (next :: rows) := fun _ => rfl
      rw [List.cons_append, List.cons_append, hglue, hglue, ← List.cons_append, hrest,
        List.append_assoc, List.cons_append]

namespace Reading.Block

variable {probe : Text}

/-- Only the last of the blocks before a row matters for taking it. -/
theorem addRow_append (finished : List Block) {blocks : List Block} (h : blocks ≠ [])
    (row : Text) : addRow (finished ++ blocks) row = (addRow blocks row).map (finished ++ ·) := by
  obtain ⟨earlier, b, rfl⟩ := (List.eq_nil_or_concat blocks).resolve_left h
  rw [List.concat_eq_append, ← List.append_assoc]
  cases hrow : Directive.parse row with
  | error fault => simp [addRow, hrow]; rfl
  | ok read =>
    cases read with
    | none =>
      rw [addRow_of_line hrow, addRow_of_line hrow]
      simp [Except.map]
    | some d =>
      rw [addRow_of_directive hrow, addRow_of_directive hrow]
      split <;> simp [Except.map]

private theorem ne_nil_of_addRow {blocks next : List Block} {row : Text}
    (h : addRow blocks row = .ok next) : next ≠ [] := by
  unfold addRow at h
  split at h
  · cases h
  · obtain rfl := Except.ok.inj h
    simp
  · split at h
    · cases h
    · split at h
      · cases h
      · obtain rfl := Except.ok.inj h
        simp

theorem foldlM_addRow_append (finished : List Block) {blocks : List Block} (h : blocks ≠ [])
    (rows : List Text) :
    rows.foldlM addRow (finished ++ blocks) = (rows.foldlM addRow blocks).map (finished ++ ·) := by
  induction rows generalizing blocks with
  | nil => rfl
  | cons row rows ih =>
    rw [List.foldlM_cons, List.foldlM_cons, addRow_append finished h]
    cases hrow : addRow blocks row with
    | error e => rfl
    | ok next => exact ih (ne_nil_of_addRow hrow)

/-- Rows that do not begin with a directive are cut into blocks of their own. -/
theorem ofRows_append (above : List Text) {line : Text} (hline : Directive.parse line = .ok none)
    (rest : List Text) :
    ofRows (above ++ line :: rest) = do
      let blocks ← ofRows above
      let more ← ofRows (line :: rest)
      return blocks ++ more := by
  have hnew : ∀ blocks, (line :: rest).foldlM addRow blocks =
      (rest.foldlM addRow [⟨line, []⟩]).map (blocks ++ ·) := by
    intro blocks
    rw [List.foldlM_cons, addRow_of_line hline]
    exact foldlM_addRow_append blocks (by simp) rest
  unfold ofRows
  rw [List.foldlM_append, hnew]
  refine bind_congr fun blocks => ?_
  rw [hnew]
  cases rest.foldlM addRow [⟨line, []⟩] <;> rfl

theorem ne_nil_of_ofRows {rows : List Text} {blocks : List Block} (hrows : rows ≠ [])
    (h : ofRows rows = .ok blocks) : blocks ≠ [] := by
  rintro rfl
  exact hrows (ofRows_eq_ok_iff.mp h).2.symm

theorem rows_ne_nil {blocks : List Block} (h : blocks ≠ []) :
    blocks.flatMap (Block.rows probe) ≠ [] := by
  obtain ⟨b, more, rfl⟩ := List.exists_cons_of_ne_nil h
  simp [Block.rows]

theorem text_append {blocks more : List Block} (hblocks : blocks ≠ []) (hmore : more ≠ []) :
    text probe (blocks ++ more) = text probe blocks ++ '\n' :: text probe more := by
  unfold text
  rw [List.flatMap_append]
  exact Text.ofRows_append (rows_ne_nil hblocks) (rows_ne_nil hmore)

/-- Blocks further down have their tasks further down. -/
theorem numbered_add (above n : Nat) (blocks : List Block) :
    numbered probe (above + n) blocks =
      (numbered probe above blocks).map fun e => (e.1 + n, e.2) := by
  induction blocks generalizing above with
  | nil => rfl
  | cons b blocks ih =>
    have hnext : above + n + (b.rows probe).length = above + (b.rows probe).length + n := by omega
    have hline : above + n + (b.lines probe).1.length + 1 =
        above + (b.lines probe).1.length + 1 + n := by omega
    rw [numbered, numbered, hnext, hline, ih, List.map_append, List.map_map]
    rfl

/-- A line that blocks are about is one of their rows. -/
theorem line?_file {blocks : List Block}
    (h : (blocks.flatMap (Block.rows probe)).length < Notice.numberLimit) (location : Path)
    (k : Nat) (hk : k = 0 ∨ (blocks.flatMap (Block.rows probe)).length < k) :
    (file probe blocks (.empty location)).line? k = none := by
  rw [file_eq_foldl h]
  refine line?_foldl_act fun e he => ?_
  have hle := le_of_mem_numbered he
  omega

/-- The lines of blocks that are moved down are below the lines that they are moved over. -/
theorem line?_raise_file {blocks : List Block}
    (h : (blocks.flatMap (Block.rows probe)).length < Notice.numberLimit) (location : Path)
    {n k : Nat} (hk : k ≤ n) : ((file probe blocks (.empty location)).raise n).line? k = none := by
  rw [File.line?_raise]
  split
  · have hzero : k - n = 0 := by omega
    rw [hzero, line?_file h location 0 (.inl rfl)]
    rfl
  · rfl

/-- No line of the first blocks is one of the blocks that follow. -/
theorem isSome_line?_raise_file {blocks more : List Block}
    (hblocks : (blocks.flatMap (Block.rows probe)).length < Notice.numberLimit)
    (hmore : (more.flatMap (Block.rows probe)).length < Notice.numberLimit) (location : Path)
    {k : Nat} (hk : ((file probe blocks (.empty location)).line? k).isSome = true) :
    (((file probe more (.empty location)).raise
      (blocks.flatMap (Block.rows probe)).length).line? k).isSome = false := by
  have habove : ¬(blocks.flatMap (Block.rows probe)).length < k := by
    intro hlt
    rw [line?_file hblocks location k (.inr hlt)] at hk
    cases hk
  rw [line?_raise_file hmore location (Nat.le_of_not_lt habove)]
  rfl

theorem location_file (blocks : List Block) (f : File) :
    (file probe blocks f).location = f.location :=
  List.foldlRecOn (motive := fun g : File => g.location = f.location) _ _ rfl
    fun g hg e _ => (e.2.location_act _ g).trans hg

/-- The blocks that follow do in a file what they do in one of their own, further down. -/
theorem file_append {blocks more : List Block}
    (h : ((blocks ++ more).flatMap (Block.rows probe)).length < Notice.numberLimit)
    (location : Path) :
    file probe (blocks ++ more) (.empty location) = (file probe blocks (.empty location)).join
      ((file probe more (.empty location)).raise (blocks.flatMap (Block.rows probe)).length) := by
  have hlength : ((blocks ++ more).flatMap (Block.rows probe)).length =
      (blocks.flatMap (Block.rows probe)).length + (more.flatMap (Block.rows probe)).length := by
    rw [List.flatMap_append, List.length_append]
  have hfirst : (blocks.flatMap (Block.rows probe)).length < Notice.numberLimit := by omega
  have hsecond : (more.flatMap (Block.rows probe)).length < Notice.numberLimit := by omega
  have habsent : ∀ e ∈ numbered probe 0 more, (file probe blocks (.empty location)).line?
      (e.1 + (blocks.flatMap (Block.rows probe)).length) = none := by
    intro e he
    have hpositive := (le_of_mem_numbered he).1
    exact line?_file hfirst location _ (by omega)
  have hlocation : (File.empty location).location =
      (file probe blocks (.empty location)).location := (location_file blocks _).symm
  have hjoined := foldl_act_join_raise hlocation habsent
  rw [file_eq_foldl h, numbered_append, List.foldl_append, ← file_eq_foldl hfirst, numbered_add,
    file_eq_foldl hsecond]
  exact hjoined

end Reading.Block

/--
A text and one that does not begin with a directive are read together as they are read each on its
own, with the second one below the first. The first fault of either is the fault of both.
-/
theorem readFixture_append {probe : Text} (hprobe : '\n' ∉ probe) (source below : Text)
    (known : File) {line : Text} {rest : List Text} (hbelow : below.rows = line :: rest)
    (hline : Directive.parse line = .ok none)
    (hsize : ∀ t f, readFixture probe (source ++ '\n' :: below) known = .ok (t, f) →
      t.rows.length < Notice.numberLimit) :
    (readFixture probe (source ++ '\n' :: below) known = do
      let (t, f) ← readFixture probe source known
      let (u, g) ← readFixture probe below known
      return (t ++ '\n' :: u, f.join (g.raise t.rows.length))) ∧
    ∀ t f u g, readFixture probe source known = .ok (t, f) →
      readFixture probe below known = .ok (u, g) → ∀ k, (f.line? k).isSome = true →
        ((g.raise t.rows.length).line? k).isSome = false := by
  have hsplit : (source ++ '\n' :: below).rows = source.rows ++ line :: rest := by
    rw [Text.rows_append_cons, hbelow]
  have hcut := Reading.Block.ofRows_append source.rows hline rest
  rw [← hsplit, ← hbelow] at hcut
  rw [readFixture_eq] at hsize
  rw [readFixture_eq, readFixture_eq, readFixture_eq]
  cases hblocks : Reading.Block.ofRows source.rows with
  | error e =>
    rw [hblocks] at hcut
    rw [hcut]
    exact ⟨rfl, nofun⟩
  | ok blocks =>
    cases hmore : Reading.Block.ofRows below.rows with
    | error e =>
      rw [hblocks, hmore] at hcut
      rw [hcut]
      exact ⟨rfl, nofun⟩
    | ok more =>
      have hall : Reading.Block.ofRows (source ++ '\n' :: below).rows = .ok (blocks ++ more) := by
        rw [hcut, hblocks, hmore]
        rfl
      have hlength := hsize _ _ (congrArg _ hall)
      rw [Reading.Block.rows_text hprobe hall] at hlength
      have hfirst := Reading.Block.rows_text hprobe hblocks
      have htext : Reading.Block.text probe (blocks ++ more) = Reading.Block.text probe blocks ++
          '\n' :: Reading.Block.text probe more :=
        Reading.Block.text_append
          (Reading.Block.ne_nil_of_ofRows (Text.cut_ne_nil '\n' source) hblocks)
          (Reading.Block.ne_nil_of_ofRows (Text.cut_ne_nil '\n' below) hmore)
      have hfile := Reading.Block.file_append hlength known.location
      have hbounds : (blocks.flatMap (Reading.Block.rows probe)).length < Notice.numberLimit ∧
          (more.flatMap (Reading.Block.rows probe)).length < Notice.numberLimit := by
        rw [List.flatMap_append, List.length_append] at hlength
        constructor <;> omega
      constructor
      · rw [hall]
        refine congrArg Except.ok (Prod.ext htext ?_)
        dsimp only
        rw [hfirst]
        exact hfile
      · intro t f u g hf hg k hk
        obtain ⟨rfl, rfl⟩ := Prod.mk.inj (Except.ok.inj hf)
        obtain ⟨rfl, rfl⟩ := Prod.mk.inj (Except.ok.inj hg)
        rw [hfirst]
        exact Reading.Block.isSome_line?_raise_file hbounds.1 hbounds.2 known.location hk

/-- A probe is inserted in the first text, and the second text takes over its name. -/
theorem readFixture_append_taken_name :
    let source : Text := "x = 1\n# ^ REVEAL[n] ^ int".toList
    let below : Text := "y\n# ^ NOTE[n] ^ a".toList
    let known : File := .empty ⟨"/m.py".toList⟩
    ∃ t f u g, readFixture defaultProbe source known = .ok (t, f) ∧
      readFixture defaultProbe below known = .ok (u, g) ∧
      readFixture defaultProbe (source ++ '\n' :: below) known =
        .ok (t ++ '\n' :: u, f.join (g.raise t.rows.length)) ∧
      f.names.get? ['n'] = some 2 ∧ (f.join (g.raise t.rows.length)).names.get? ['n'] = some 4 := by
  intro source below known
  have hrows : (readFixture defaultProbe (source ++ '\n' :: below) known).toOption.map
      (fun read => read.1.rows.length) = some 5 := by decide +kernel
  have hsize : ∀ t f, readFixture defaultProbe (source ++ '\n' :: below) known = .ok (t, f) →
      t.rows.length < Notice.numberLimit := by
    intro t f h
    rw [h] at hrows
    have hlength : t.rows.length = 5 := Option.some.inj hrows
    rw [hlength]
    decide
  have hbelow : below.rows = ['y'] :: ["# ^ NOTE[n] ^ a".toList] := by decide
  have hboth := (readFixture_append (by decide) source below known hbelow (by decide +kernel)
    hsize).1
  let first := (readFixture defaultProbe source known).toOption.getD ([], known)
  let second := (readFixture defaultProbe below known).toOption.getD ([], known)
  have hfirst : readFixture defaultProbe source known = .ok first := by decide +kernel
  have hsecond : readFixture defaultProbe below known = .ok second := by decide +kernel
  rw [hfirst, hsecond] at hboth
  exact ⟨first.1, first.2, second.1, second.2, hfirst, hsecond, hboth, by decide +kernel,
    by decide +kernel⟩

end NoticeCheck
