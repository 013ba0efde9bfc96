import NoticeCheck.Proofs.Block
import NoticeCheck.Proofs.Layout
import NoticeCheck.Proofs.Task

/-!
Planning against slots agrees with reading block by block: the plan lays out the rows of the
blocks, and each task stands at the line of its block.
-/
namespace NoticeCheck

namespace Layout

theorem front_congr {l l' : Layout} {n : Nat} (h : ∀ i < n, l'.group i = l.group i) :
    l'.front n = l.front n :=
  List.flatMap_congr fun i hi => h i (List.mem_range.mp hi)

/-- The rows that are laid out for `n` source rows from the row `m` on. -/
def stretch (l : Layout) (m n : Nat) : List (Slot × Text) :=
  (List.range n).flatMap fun j => l.group (m + j)

theorem front_add (l : Layout) (m n : Nat) : l.front (m + n) = l.front m ++ l.stretch m n := by
  simp [front, stretch, List.range_add, List.flatMap_map]

end Layout

namespace Reading

private theorem flatMap_range_getElem? {α : Type} (xs : List α) (n : Nat) :
    ((List.range n).flatMap fun j => xs[j]?.toList) = xs.take n := by
  induction n with
  | zero => rfl
  | succ n ih => simp [List.range_succ, ih, List.take_add_one]

theorem trim_call_ne_nil (indent probe argument : Text) :
    (call indent probe argument).trim ≠ [] := by
  intro h
  have := Text.trim_eq_nil_iff.mp h '(' (by simp [call])
  exact absurd this (by decide)

namespace Block

theorem trim_reveal_ne_nil (probe : Text) {lines : List Text × Text} (h : lines.2.trim ≠ [])
    (d : Directive) : (reveal probe lines d).2.trim ≠ [] := by
  rw [reveal]
  split
  · dsimp only
    split
    · exact h
    · split <;> exact trim_call_ne_nil _ _ _
  · exact h

theorem lines_of_no_reveal (probe : Text) {b : Block}
    (h : ∀ d ∈ b.directives, d.2.instruction ≠ .reveal) : b.lines probe = ([], b.line) := by
  rw [lines]
  refine List.foldlRecOn (motive := fun lines : List Text × Text => lines = ([], b.line))
    b.directives _ rfl fun lines hlines d hd => ?_
  rw [reveal, if_neg (h d hd), hlines]

/-- A line that is not blank stays so. -/
theorem trim_lines_ne_nil (probe : Text) {b : Block} (h : b.line.trim ≠ []) :
    (b.lines probe).2.trim ≠ [] := by
  rw [lines]
  refine List.foldlRecOn (motive := fun lines : List Text × Text => lines.2.trim ≠ [])
    b.directives _ h fun lines hlines d _ => ?_
  exact trim_reveal_ne_nil probe hlines d.2

end Block

/-- Making sure of a probe changes the lines of one group as the directive says. -/
theorem revealAt_eq {l : Layout} {a : Nat} {above : List (Slot × Text)} {slot : Slot}
    {current : Text} (hgroup : l.group a = above ++ [(slot, current)])
    (hcurrent : current.trim ≠ []) (probe row : Text) {d : Directive}
    (hd : d.instruction = .reveal) :
    ∃ l' above' target, revealAt probe d.indent row l slot = .ok (l', target) ∧
      let lines := Block.reveal probe (above.map Prod.snd, current) d
      l.ChangesGroup l' a (above' ++ [(target, lines.2)]) ∧ above'.map Prod.snd = lines.1 := by
  have htext : l.text? slot = some current :=
    Layout.text?_of_mem_group (show (slot, current) ∈ l.group a by simp [hgroup])
  simp only [revealAt, htext, if_neg hcurrent, Block.reveal, if_pos hd]
  by_cases hprobe : isProbe probe current.trim = true
  · refine ⟨l, above, slot, by simp [hprobe]; rfl, ?_, by simp [hprobe]⟩
    simpa [hprobe] using ⟨rfl, id, hgroup, fun _ _ => rfl⟩
  · cases hname : assigned? current.trim with
    | some name =>
      obtain ⟨l', new, hinsert, hchange⟩ :=
        Layout.exists_insertBelow hgroup (call d.indent probe name)
      refine ⟨l', above ++ [(slot, current)], new, ?_, ?_, ?_⟩
      · simp [hprobe, hinsert]; rfl
      · simpa [hprobe] using hchange
      · simp [hprobe]
    | none =>
      obtain ⟨l', hreplace, hchange⟩ :=
        Layout.exists_replace hgroup (call d.indent probe current.trim)
      refine ⟨l', above, slot, ?_, ?_, ?_⟩
      · simp [hprobe, hreplace]; rfl
      · simpa [hprobe] using hchange
      · simp [hprobe]

/-- The number of source rows in blocks. -/
def Block.height (blocks : List Block) : Nat :=
  (blocks.flatMap Block.source).length

theorem Block.height_concat (blocks : List Block) (b : Block) :
    Block.height (blocks ++ [b]) = Block.height blocks + 1 + b.directives.length := by
  simp [Block.height, Block.source, Nat.add_assoc, Nat.add_comm]

/-- The layout holds the rows of blocks first, and their tasks stand at the lines they are about. -/
structure LaysOut (probe : Text) (l : Layout) (tasks : List (Slot × Task)) (blocks : List Block) :
    Prop where
  rows : (l.front (Block.height blocks)).map Prod.snd = blocks.flatMap (Block.rows probe)
  slots : ∀ e ∈ tasks, e.1 ∈ (l.front (Block.height blocks)).map Prod.fst
  numbers : tasks.map (fun e =>
    (((l.front (Block.height blocks)).map Prod.fst).idxOf e.1 + 1, e.2)) =
      Block.numbered probe 0 blocks

/-- What every plan for a source keeps: its source rows, with every insertion below one of them. -/
structure Plan.Fits (plan : Plan) (source : List Text) : Prop where
  size : plan.layout.rows.length = source.length
  anchored : plan.layout.IsAnchored

/-- The rows after the first `n` are laid out as they were written. -/
def Untouched (source : List Text) (l : Layout) (n : Nat) : Prop :=
  ∀ i, n ≤ i → l.group i = source[i]?.toList.map fun row => (.source i, row)

theorem Untouched.map_stretch {source : List Text} {l : Layout} {m : Nat}
    (h : Untouched source l m) (n : Nat) :
    (l.stretch m n).map Prod.snd = (source.drop m).take n := by
  have hrow : ∀ j, (l.group (m + j)).map Prod.snd = (source.drop m)[j]?.toList := by
    intro j
    rw [h _ (Nat.le_add_right m j), List.getElem?_drop]
    cases source[m + j]? <;> rfl
  simp only [Layout.stretch, List.map_flatMap, hrow, flatMap_range_getElem?]

/--
A plan after the rows of `finished` and of the block `b`: it lays out their rows, `slot` is the
current line of `b`, and `before` are the tasks of the finished blocks.
-/
structure Plan.Follows (plan : Plan) (probe : Text) (source : List Text) (finished : List Block)
    (b : Block) (slot : Slot) (before : List (Slot × Task)) : Prop where
  fits : plan.Fits source
  taken : (finished ++ [b]).flatMap Block.source <+: source
  laysOut : LaysOut probe plan.layout before finished
  current : ∃ above, plan.layout.group (Block.height finished) =
    above ++ [(slot, (b.lines probe).2)] ∧ above.map Prod.snd = (b.lines probe).1
  below : Untouched source plan.layout (Block.height finished + 1)
  tasks : plan.tasks = before ++ b.tasks.map fun task => (slot, task)
  described : plan.described = some slot

namespace Plan.Follows

variable {plan : Plan} {probe : Text} {source : List Text} {finished : List Block} {b : Block}
  {slot : Slot} {before : List (Slot × Task)}

/-- The rows laid out for all blocks so far, around the current line of the last one. -/
theorem front_all (h : plan.Follows probe source finished b slot before) :
    ∃ above below, plan.layout.front (Block.height (finished ++ [b])) =
        plan.layout.front (Block.height finished) ++ (above ++ (slot, (b.lines probe).2) :: below) ∧
      above.map Prod.snd = (b.lines probe).1 ∧ below.map Prod.snd = b.directives.map Prod.fst := by
  obtain ⟨above, hgroup, habove⟩ := h.current
  obtain ⟨rest, hsource⟩ := h.taken
  refine ⟨above, plan.layout.stretch (Block.height finished + 1) b.directives.length, ?_, habove,
    ?_⟩
  · rw [Block.height_concat, Layout.front_add, Layout.front_succ, hgroup]
    simp
  · have htail : source.drop (Block.height finished + 1) = b.directives.map Prod.fst ++ rest := by
      rw [← hsource]
      simp [Block.height, Block.source, List.drop_append]
    rw [h.below.map_stretch, htail, List.take_left']
    exact List.length_map _

theorem slot_not_mem_front (h : plan.Follows probe source finished b slot before) :
    slot ∉ (plan.layout.front (Block.height finished)).map Prod.fst := by
  obtain ⟨above, below, hfront, -, -⟩ := h.front_all
  have hnodup := plan.layout.front_nodup (Block.height (finished ++ [b]))
  rw [hfront, List.map_append] at hnodup
  exact fun hmem => (List.nodup_append.mp hnodup).2.2 slot hmem slot (by simp) rfl

/-- The block counted in, the plan lays out one block more. -/
theorem laysOut_all (h : plan.Follows probe source finished b slot before) :
    LaysOut probe plan.layout plan.tasks (finished ++ [b]) := by
  obtain ⟨above, below, hfront, habove, hbelow⟩ := h.front_all
  refine ⟨?_, fun e he => ?_, ?_⟩
  · rw [hfront]
    simp [h.laysOut.rows, habove, hbelow, Block.rows]
  · rw [h.tasks] at he
    rw [hfront, List.map_append, List.mem_append]
    rcases List.mem_append.mp he with he | he
    · exact .inl (h.laysOut.slots e he)
    · obtain ⟨task, -, rfl⟩ := List.mem_map.mp he
      exact .inr (by simp)
  · have hnodup := plan.layout.front_nodup (Block.height (finished ++ [b]))
    rw [hfront, List.map_append] at hnodup ⊢
    rw [Block.numbered_append, h.tasks, List.map_append]
    congr 1
    · rw [← h.laysOut.numbers]
      refine List.map_congr_left fun e he => ?_
      rw [List.idxOf_append_of_mem (h.laysOut.slots e he)]
    · have habove' : slot ∉ above.map Prod.fst := by
        have hrest := (List.nodup_append.mp hnodup).2.1
        rw [List.map_append] at hrest
        exact fun hmem => (List.nodup_append.mp hrest).2.2 slot hmem slot (by simp) rfl
      have hindex : ((plan.layout.front (Block.height finished)).map Prod.fst ++
          (above ++ (slot, (b.lines probe).2) :: below).map Prod.fst).idxOf slot =
            (finished.flatMap (Block.rows probe)).length + (b.lines probe).1.length := by
        rw [List.idxOf_append_of_notMem h.slot_not_mem_front, List.map_append,
          List.idxOf_append_of_notMem habove', List.map_cons, List.idxOf_cons_self,
          ← h.laysOut.rows, ← habove]
        simp
      rw [List.map_map]
      refine (List.map_congr_left fun task _ => ?_).trans (List.append_nil _).symm
      simp only [Function.comp_apply, hindex, Nat.zero_add]

theorem untouched_all (h : plan.Follows probe source finished b slot before) :
    Untouched source plan.layout (Block.height (finished ++ [b])) := by
  intro i hi
  rw [Block.height_concat] at hi
  exact h.below i (by omega)

/-- The line of a new block, after blocks that are laid out. -/
theorem of_line {layout : Layout} {tasks : List (Slot × Task)} {described : Option Slot}
    {blocks : List Block} {row : Text} (hfits : Plan.Fits ⟨layout, tasks, described⟩ source)
    (htaken : blocks.flatMap Block.source ++ [row] <+: source)
    (hlaysOut : LaysOut probe layout tasks blocks)
    (huntouched : Untouched source layout (Block.height blocks)) :
    Plan.Follows ⟨layout, tasks, some (.source (Block.height blocks))⟩ probe source blocks
      ⟨row, []⟩ (.source (Block.height blocks)) tasks where
  fits := ⟨hfits.size, hfits.anchored⟩
  taken := by simpa [Block.source] using htaken
  laysOut := hlaysOut
  current := by
    obtain ⟨rest, rfl⟩ := htaken
    refine ⟨[], ?_, rfl⟩
    rw [huntouched _ (Nat.le_refl _)]
    simp [Block.height, Block.lines]
  below i hi := huntouched i (by omega)
  tasks := by simp [Block.tasks]
  described := rfl

private theorem retarget_concat {before : List (Slot × Task)} {slot : Slot}
    (h : ∀ e ∈ before, e.1 ≠ slot) (target : Slot) (tasks : List Task) :
    retarget slot target (before ++ tasks.map fun task => (slot, task)) =
      before ++ tasks.map fun task => (target, task) := by
  rw [retarget, List.map_append]
  congr 1
  · refine (List.map_congr_left fun e he => ?_).trans (List.map_id _)
    simp [h e he]
  · simp

/-- A directive of the block, after the group of its line is changed as it says. -/
theorem add (h : plan.Follows probe source finished b slot before) {row : Text} {d : Directive}
    (htaken : (finished ++ [b]).flatMap Block.source ++ [row] <+: source)
    {layout : Layout} {above : List (Slot × Text)} {target : Slot}
    (hchange : plan.layout.ChangesGroup layout (Block.height finished)
      (above ++ [(target, (Block.reveal probe (b.lines probe) d).2)]))
    (habove : above.map Prod.snd = (Block.reveal probe (b.lines probe) d).1) :
    Plan.Follows ⟨layout, retarget slot target plan.tasks ++
        (tasksOf d).map fun task => (target, task), some target⟩
      probe source finished (b.add row d) target before where
  fits := ⟨hchange.size.trans h.fits.size, hchange.anchored h.fits.anchored⟩
  taken := by simpa using htaken
  laysOut := by
    have hfront : layout.front (Block.height finished) =
        plan.layout.front (Block.height finished) :=
      Layout.front_congr fun i hi => hchange.others i (Nat.ne_of_lt hi)
    obtain ⟨hrows, hslots, hnumbers⟩ := h.laysOut
    rw [← hfront] at hrows hslots hnumbers
    exact ⟨hrows, hslots, hnumbers⟩
  current := ⟨above, by rw [hchange.group, Block.lines_add], by rw [habove, Block.lines_add]⟩
  below i hi := by rw [hchange.others i (by omega), h.below i hi]
  tasks := by
    have hslots : ∀ e ∈ before, e.1 ≠ slot := fun e he hslot =>
      h.slot_not_mem_front (hslot ▸ h.laysOut.slots e he)
    rw [h.tasks, retarget_concat hslots]
    simp
  described := rfl

theorem addLine_of_blank (h : plan.Follows probe source finished b slot before) (hb : b.IsRead)
    {row : Text} {d : Directive} (hrow : Directive.parse row = .ok (some d))
    (hd : d.instruction = .reveal) (hblank : b.line.trim = []) (index : Nat) :
    plan.addLine probe row index = .error (.nothingToReveal row) := by
  obtain ⟨above, hgroup, -⟩ := h.current
  have hmem : (slot, (b.lines probe).2) ∈ plan.layout.group (Block.height finished) := by
    simp [hgroup]
  have htext : plan.layout.text? slot = some (b.lines probe).2 := Layout.text?_of_mem_group hmem
  -- no directive above has changed the line, since none could reveal it
  rw [Block.lines_of_no_reveal probe fun e he hinstruction =>
    hb.revealed e he hinstruction hblank] at htext
  simp only [Plan.addLine, hrow, h.described, if_pos hd, revealAt, htext, hblank]
  rfl

theorem addLine_of_reveal (h : plan.Follows probe source finished b slot before) {row : Text}
    {d : Directive} (hrow : Directive.parse row = .ok (some d)) (hd : d.instruction = .reveal)
    (hline : b.line.trim ≠ []) (htaken : (finished ++ [b]).flatMap Block.source ++ [row] <+: source)
    (index : Nat) :
    ∃ plan' target, plan.addLine probe row index = .ok plan' ∧
      plan'.Follows probe source finished (b.add row d) target before := by
  obtain ⟨above, hgroup, habove⟩ := h.current
  obtain ⟨layout, above', target, hreveal, hchange, habove'⟩ :=
    revealAt_eq hgroup (Block.trim_lines_ne_nil probe hline) probe row hd
  rw [habove] at hchange habove'
  refine ⟨_, target, ?_, h.add htaken hchange habove'⟩
  simp only [Plan.addLine, hrow, h.described, if_pos hd, hreveal]
  rfl

theorem addLine_of_ne_reveal (h : plan.Follows probe source finished b slot before) {row : Text}
    {d : Directive} (hrow : Directive.parse row = .ok (some d)) (hd : d.instruction ≠ .reveal)
    (htaken : (finished ++ [b]).flatMap Block.source ++ [row] <+: source) (index : Nat) :
    ∃ plan', plan.addLine probe row index = .ok plan' ∧
      plan'.Follows probe source finished (b.add row d) slot before := by
  obtain ⟨above, hgroup, habove⟩ := h.current
  have hlines : Block.reveal probe (b.lines probe) d = b.lines probe := if_neg hd
  have hchange : plan.layout.ChangesGroup plan.layout (Block.height finished)
      (above ++ [(slot, (Block.reveal probe (b.lines probe) d).2)]) := by
    rw [hlines]
    exact ⟨rfl, id, hgroup, fun _ _ => rfl⟩
  refine ⟨_, ?_, h.add htaken hchange (by rw [habove, hlines])⟩
  simp only [Plan.addLine, hrow, h.described, if_neg hd]
  rfl

end Plan.Follows

/-- A plan and blocks made from the same rows. -/
def Plan.Matches (plan : Plan) (probe : Text) (source : List Text) (blocks : List Block) : Prop :=
  (blocks = [] ∧ plan = ⟨⟨source.map fun row => { written := row }, []⟩, [], none⟩) ∨
  ∃ finished b slot before, blocks = finished ++ [b] ∧
    plan.Follows probe source finished b slot before

namespace Plan.Matches

variable {plan : Plan} {probe : Text} {source : List Text} {blocks : List Block}

/-- What is known of a plan once its blocks are all counted in. -/
theorem fits_laysOut (h : plan.Matches probe source blocks) :
    plan.Fits source ∧ LaysOut probe plan.layout plan.tasks blocks ∧
      Untouched source plan.layout (Block.height blocks) := by
  rcases h with ⟨rfl, rfl⟩ | ⟨finished, b, slot, before, rfl, h⟩
  · refine ⟨⟨by simp, by simp [Layout.IsAnchored]⟩, ⟨rfl, by simp, rfl⟩, fun i _ => ?_⟩
    cases hi : source[i]? <;> simp [Layout.group, Layout.anchored, SourceRow.text, hi]
  · exact ⟨h.fits, h.laysOut_all, h.untouched_all⟩

/-- Planning for one more row does what taking the row into the blocks does. -/
theorem addLine (h : plan.Matches probe source blocks) (hread : ∀ b ∈ blocks, b.IsRead)
    {row : Text} (htaken : blocks.flatMap Block.source ++ [row] <+: source) :
    match Block.addRow blocks row with
    | .error e => plan.addLine probe row (Block.height blocks) = .error e
    | .ok blocks' => ∃ plan', plan.addLine probe row (Block.height blocks) = .ok plan' ∧
        plan'.Matches probe source blocks' := by
  cases hrow : Directive.parse row with
  | error fault =>
    simp only [Block.addRow, Plan.addLine, hrow]
    rfl
  | ok read =>
    cases read with
    | none =>
      obtain ⟨hfits, hlaysOut, huntouched⟩ := h.fits_laysOut
      rw [Block.addRow_of_line hrow]
      refine ⟨{ plan with described := some (.source (Block.height blocks)) }, ?_, .inr
        ⟨blocks, ⟨row, []⟩, _, plan.tasks, rfl, .of_line hfits htaken hlaysOut huntouched⟩⟩
      simp only [Plan.addLine, hrow]
      rfl
    | some d =>
      rcases h with ⟨rfl, rfl⟩ | ⟨finished, b, slot, before, rfl, h⟩
      · simp only [Block.addRow, Plan.addLine, hrow, List.getLast?_nil]
        rfl
      · rw [Block.addRow_of_directive hrow]
        by_cases hd : d.instruction = .reveal
        · by_cases hblank : b.line.trim = []
          · rw [if_pos ⟨hd, hblank⟩]
            exact h.addLine_of_blank (hread b (by simp)) hrow hd hblank _
          · rw [if_neg fun hboth => hblank hboth.2]
            obtain ⟨plan', target, hplan, hnext⟩ := h.addLine_of_reveal hrow hd hblank htaken _
            exact ⟨plan', hplan, .inr ⟨finished, b.add row d, target, before, rfl, hnext⟩⟩
        · rw [if_neg fun hboth => hd hboth.1]
          obtain ⟨plan', hplan, hnext⟩ := h.addLine_of_ne_reveal hrow hd htaken _
          exact ⟨plan', hplan, .inr ⟨finished, b.add row d, slot, before, rfl, hnext⟩⟩

/-- Planning for any number of further rows does what cutting them into blocks does. -/
theorem foldlM_addLine (h : plan.Matches probe source blocks) (hread : ∀ b ∈ blocks, b.IsRead)
    {rest : List Text} (hsource : blocks.flatMap Block.source ++ rest <+: source) :
    match rest.foldlM Block.addRow blocks with
    | .error e => (rest.zipIdx (Block.height blocks)).foldlM
        (fun plan (line, index) => plan.addLine probe line index) plan = .error e
    | .ok blocks' => ∃ plan', (rest.zipIdx (Block.height blocks)).foldlM
        (fun plan (line, index) => plan.addLine probe line index) plan = .ok plan' ∧
          plan'.Matches probe source blocks' := by
  induction rest generalizing plan blocks with
  | nil => exact ⟨plan, rfl, h⟩
  | cons row rest ih =>
    have htaken : blocks.flatMap Block.source ++ [row] <+: source :=
      (List.prefix_append _ rest).trans (by simpa using hsource)
    have hstep := h.addLine hread htaken
    rw [List.foldlM_cons, List.zipIdx_cons, List.foldlM_cons]
    cases hrow : Block.addRow blocks row with
    | error e =>
      rw [hrow] at hstep
      simp only [hstep]
      rfl
    | ok next =>
      rw [hrow] at hstep
      obtain ⟨plan', hplan, hnext⟩ := hstep
      obtain ⟨hnextRead, hnextSource⟩ := Block.addRow_sound hread hrow
      have hheight : Block.height next = Block.height blocks + 1 := by
        simp [Block.height, hnextSource]
      have hrest := ih hnext hnextRead (by simpa [hnextSource] using hsource)
      simp only [hplan]
      rw [hheight] at hrest
      exact hrest

end Plan.Matches

/-- The plan after some rows of a source. -/
def Plan.afterRows (probe source : Text) (taken : List Text) : Except ReadingError Plan :=
  taken.zipIdx.foldlM (fun plan (line, index) => plan.addLine probe line index)
    ⟨.ofText source, [], none⟩

theorem Plan.afterRows_matches (probe : Text) {source : Text} {taken : List Text}
    (htaken : taken <+: source.rows) :
    match taken.foldlM Block.addRow [] with
    | .error e => Plan.afterRows probe source taken = .error e
    | .ok blocks => ∃ plan, Plan.afterRows probe source taken = .ok plan ∧
        plan.Matches probe source.rows blocks := by
  have hstart : Plan.Matches ⟨.ofText source, [], none⟩ probe source.rows [] := .inl ⟨rfl, rfl⟩
  exact hstart.foldlM_addLine (by simp) htaken

private theorem foldlM_ok {ε α β : Type} {step : β → α → Except ε β} {xs : List α}
    (act : β → α → β) (h : ∀ x ∈ xs, ∀ b, step b x = .ok (act b x)) (b : β) :
    xs.foldlM step b = .ok (xs.foldl act b) := by
  induction xs generalizing b with
  | nil => rfl
  | cons x xs ih =>
    rw [List.foldlM_cons, h x List.mem_cons_self]
    exact ih (fun y hy => h y (List.mem_cons_of_mem _ hy)) _

/-- The revised text of blocks. -/
def Block.text (probe : Text) (blocks : List Block) : Text :=
  .ofRows (blocks.flatMap (rows probe))

/-- What the tasks of blocks make of a file. -/
def Block.file (probe : Text) (blocks : List Block) (f : File) : File :=
  (numbered probe 0 blocks).foldl
    (fun f (number, task) => task.act (min number (Notice.numberLimit - 1)) f) f

theorem Plan.Matches.perform {plan : Plan} {probe : Text} {source : List Text}
    {blocks : List Block} (h : plan.Matches probe source blocks)
    (hsource : blocks.flatMap Block.source = source) (f : File) :
    plan.perform f = .ok (Block.text probe blocks, Block.file probe blocks f) := by
  obtain ⟨hfits, hlaysOut, -⟩ := h.fits_laysOut
  have hrows : plan.layout.finalRows = plan.layout.front (Block.height blocks) := by
    rw [Layout.finalRows_eq_front, hfits.size, ← hsource, Block.height]
  have hresult : plan.layout.result? = some ⟨Block.text probe blocks,
      (plan.layout.front (Block.height blocks)).map Prod.fst⟩ := by
    rw [Layout.result?_eq hfits.anchored, hrows, hlaysOut.rows, Block.text]
  have hnumber : ∀ e ∈ plan.tasks, Layout.Result.number? ⟨Block.text probe blocks,
      (plan.layout.front (Block.height blocks)).map Prod.fst⟩ e.1 =
        some (min (((plan.layout.front (Block.height blocks)).map Prod.fst).idxOf e.1 + 1)
          (Notice.numberLimit - 1)) := fun e he => if_pos (hlaysOut.slots e he)
  simp only [Plan.perform, hresult]
  rw [Block.file, ← hlaysOut.numbers, List.foldl_map, foldlM_ok
    (fun f e => e.2.act (min (((plan.layout.front (Block.height blocks)).map
      Prod.fst).idxOf e.1 + 1) (Notice.numberLimit - 1)) f) fun e he f => ?_]
  · rfl
  · simp only [hnumber e he, Task.perform_eq]
    rfl

end Reading

/-- A fixture is read block by block. -/
theorem readFixture_eq (probe source : Text) (known : File) :
    readFixture probe source known = (Reading.Block.ofRows source.rows).map fun blocks =>
      (Reading.Block.text probe blocks, Reading.Block.file probe blocks known.reset) := by
  have h := Reading.Plan.afterRows_matches probe (List.prefix_refl source.rows)
  rw [readFixture, Reading.Plan.ofText, Reading.Block.ofRows]
  cases hblocks : source.rows.foldlM Reading.Block.addRow [] with
  | error e =>
    rw [hblocks] at h
    exact congrArg (· >>= _) h
  | ok blocks =>
    rw [hblocks] at h
    obtain ⟨plan, hplan, hmatches⟩ := h
    refine (congrArg (· >>= _) hplan).trans ?_
    exact hmatches.perform (Reading.Block.ofRows_eq_ok_iff.mp hblocks).2 _

end NoticeCheck
