import NoticeCheck.Proofs.Planning

/-!
When a fixture cannot be read. The first row at fault decides, and every slot that is planned with
is one of the layout, so that nothing else can go wrong.
-/
namespace NoticeCheck

namespace Layout

/-- A slot that is in range. -/
def HasSlot (l : Layout) : Slot → Prop
  | .source i => i < l.rows.length
  | .inserted i => i < l.insertions.length

theorem isSome_text?_iff {l : Layout} {slot : Slot} :
    (l.text? slot).isSome = true ↔ l.HasSlot slot := by
  cases slot <;> simp [text?, HasSlot]

theorem hasSlot_of_mem_group {l : Layout} {i : Nat} {e : Slot × Text} (h : e ∈ l.group i) :
    l.HasSlot e.1 :=
  isSome_text?_iff.mp (by rw [text?_of_mem_group h, Option.isSome_some])

theorem hasSlot_of_mem_front {l : Layout} {n : Nat} {slot : Slot}
    (h : slot ∈ (l.front n).map Prod.fst) : l.HasSlot slot := by
  obtain ⟨e, he, rfl⟩ := List.mem_map.mp h
  obtain ⟨i, -, hi⟩ := List.mem_flatMap.mp he
  exact hasSlot_of_mem_group hi

end Layout

namespace Reading

/-- A row that is read as no directive. -/
def isLine (row : Text) : Bool :=
  match Directive.parse row with
  | .ok none => true
  | _ => false

/-- The line that a directive below the rows `above` is about. -/
def described? (above : List Text) : Option Text :=
  above.reverse.find? isLine

/-- A row cannot stand below the rows `above`. -/
inductive Offends (above : List Text) (row : Text) : ReadingError → Prop
  | directive {fault : Directive.Fault} (h : Directive.parse row = .error fault) :
    Offends above row (.directive fault row)
  | orphan {d : Directive} (h : Directive.parse row = .ok (some d))
    (hnone : described? above = none) : Offends above row (.orphan row)
  | nothingToReveal {d : Directive} {line : Text} (h : Directive.parse row = .ok (some d))
    (hd : d.instruction = .reveal) (hline : described? above = some line)
    (hblank : line.trim = []) : Offends above row (.nothingToReveal row)

/-- No row is at fault. -/
def Faultless (rows : List Text) : Prop :=
  ∀ above row below, rows = above ++ row :: below → ∀ e, ¬Offends above row e

namespace Block

theorem described?_source {blocks : List Block} (h : ∀ b ∈ blocks, b.IsRead) :
    described? (blocks.flatMap source) = blocks.getLast?.map line := by
  rcases List.eq_nil_or_concat blocks with rfl | ⟨finished, b, rfl⟩
  · rfl
  · rw [List.concat_eq_append] at h ⊢
    have hb := h b (by simp)
    have hline : isLine b.line = true := by simp [isLine, hb.line]
    have hdirectives : ((b.directives.map Prod.fst).reverse.find? isLine) = none := by
      refine List.find?_eq_none.mpr fun row hrow => ?_
      obtain ⟨d, hd, rfl⟩ := List.mem_map.mp (List.mem_reverse.mp hrow)
      simp [isLine, hb.directives d hd]
    simp [described?, source, hdirectives, hline]

/-- One row is refused when it offends the rows taken so far. -/
theorem addRow_eq_error_iff {blocks : List Block} (h : ∀ b ∈ blocks, b.IsRead) {row : Text}
    {e : ReadingError} : addRow blocks row = .error e ↔ Offends (blocks.flatMap source) row e := by
  have hdescribed := described?_source h
  constructor
  · intro herror
    cases hrow : Directive.parse row with
    | error fault =>
      rw [addRow, hrow] at herror
      obtain rfl := Except.error.inj herror
      exact .directive hrow
    | ok read =>
      cases read with
      | none =>
        rw [addRow_of_line hrow] at herror
        cases herror
      | some d =>
        rcases List.eq_nil_or_concat blocks with rfl | ⟨finished, b, rfl⟩
        · rw [addRow, hrow] at herror
          obtain rfl := Except.error.inj herror
          exact .orphan hrow hdescribed
        · rw [List.concat_eq_append] at herror hdescribed ⊢
          rw [addRow_of_directive hrow] at herror
          split at herror
          · next hreveal =>
            obtain rfl := Except.error.inj herror
            exact .nothingToReveal hrow hreveal.1 (by simpa using hdescribed) hreveal.2
          · cases herror
  · intro hoffends
    cases hoffends with
    | directive hrow =>
      rw [addRow, hrow]
      rfl
    | orphan hrow hnone =>
      rw [hdescribed, Option.map_eq_none_iff] at hnone
      simp only [addRow, hrow, hnone]
      rfl
    | nothingToReveal hrow hd hline hblank =>
      rw [hdescribed] at hline
      obtain ⟨b, hb, rfl⟩ := Option.map_eq_some_iff.mp hline
      simp only [addRow, hrow, hb, if_pos (And.intro hd hblank)]
      rfl

end Block

theorem foldlM_eq_error_iff {ε α β : Type} {step : β → α → Except ε β} {xs : List α} {b : β}
    {e : ε} : xs.foldlM step b = .error e ↔ ∃ before x after b', xs = before ++ x :: after ∧
      before.foldlM step b = .ok b' ∧ step b' x = .error e := by
  constructor
  · intro h
    induction xs generalizing b with
    | nil => cases h
    | cons x xs ih =>
      rw [List.foldlM_cons] at h
      cases hx : step b x with
      | error e' =>
        rw [hx] at h
        obtain rfl : e' = e := Except.error.inj h
        exact ⟨[], x, xs, b, rfl, rfl, hx⟩
      | ok next =>
        rw [hx] at h
        obtain ⟨before, y, after, b', rfl, hbefore, hy⟩ := ih h
        refine ⟨x :: before, y, after, b', rfl, ?_, hy⟩
        rw [List.foldlM_cons, hx]
        exact hbefore
  · rintro ⟨before, x, after, b', rfl, hbefore, hx⟩
    rw [List.foldlM_append, hbefore]
    change List.foldlM step b' (x :: after) = _
    rw [List.foldlM_cons, hx]
    rfl

namespace Block

/-- A row that is refused offends those above it, all of which were taken. -/
theorem exists_offends {rows : List Text} {e : ReadingError} (h : ofRows rows = .error e) :
    ∃ above row below, rows = above ++ row :: below ∧ Offends above row e ∧
      ∃ blocks, ofRows above = .ok blocks := by
  obtain ⟨above, row, below, blocks, hrows, habove, hrow⟩ := foldlM_eq_error_iff.mp h
  obtain ⟨hread, hsource⟩ := ofRows_eq_ok_iff.mp habove
  rw [addRow_eq_error_iff hread, hsource] at hrow
  exact ⟨above, row, below, hrows, hrow, blocks, habove⟩

/-- Rows can be cut into blocks when none of them is at fault. -/
theorem exists_ofRows_eq_ok_iff {rows : List Text} :
    (∃ blocks, ofRows rows = .ok blocks) ↔ Faultless rows := by
  constructor
  · rintro ⟨blocks, hblocks⟩ above row below rfl e hoffends
    cases habove : ofRows above with
    | error e' =>
      obtain ⟨before, x, after, b, rfl, hbefore, hx⟩ := foldlM_eq_error_iff.mp habove
      have herror : ofRows (before ++ x :: after ++ row :: below) = .error e' :=
        foldlM_eq_error_iff.mpr ⟨before, x, after ++ row :: below, b, by simp, hbefore, hx⟩
      rw [herror] at hblocks
      cases hblocks
    | ok taken =>
      obtain ⟨hread, hsource⟩ := ofRows_eq_ok_iff.mp habove
      have hrow : addRow taken row = .error e :=
        (addRow_eq_error_iff hread).mpr (hsource ▸ hoffends)
      have herror : ofRows (above ++ row :: below) = .error e :=
        foldlM_eq_error_iff.mpr ⟨above, row, below, taken, rfl, habove, hrow⟩
      rw [herror] at hblocks
      cases hblocks
  · intro h
    cases hrows : ofRows rows with
    | ok blocks => exact ⟨blocks, rfl⟩
    | error e =>
      obtain ⟨above, row, below, rfl, hoffends, -⟩ := exists_offends hrows
      exact absurd hoffends (h above row below rfl e)

/-- The error is that of the first row at fault. -/
theorem ofRows_eq_error_iff {rows : List Text} {e : ReadingError} :
    ofRows rows = .error e ↔ ∃ above row below, rows = above ++ row :: below ∧
      Offends above row e ∧ Faultless above := by
  constructor
  · intro h
    obtain ⟨above, row, below, hrows, hoffends, habove⟩ := exists_offends h
    exact ⟨above, row, below, hrows, hoffends, exists_ofRows_eq_ok_iff.mp habove⟩
  · rintro ⟨above, row, below, rfl, hoffends, hfaultless⟩
    obtain ⟨taken, habove⟩ := exists_ofRows_eq_ok_iff.mpr hfaultless
    obtain ⟨hread, hsource⟩ := ofRows_eq_ok_iff.mp habove
    refine foldlM_eq_error_iff.mpr ⟨above, row, below, taken, rfl, habove, ?_⟩
    exact (addRow_eq_error_iff hread).mpr (hsource ▸ hoffends)

end Block

namespace Plan

/-- What a plan is about is there: the described line and the line of every task. -/
structure InRange (plan : Plan) : Prop where
  described : ∀ slot ∈ plan.described, plan.layout.HasSlot slot
  tasks : ∀ e ∈ plan.tasks, plan.layout.HasSlot e.1
  anchored : plan.layout.IsAnchored

theorem Matches.inRange {plan : Plan} {probe : Text} {source : List Text} {blocks : List Block}
    (h : plan.Matches probe source blocks) : plan.InRange := by
  obtain ⟨hfits, hlaysOut, -⟩ := h.fits_laysOut
  refine ⟨fun slot hslot => ?_, fun e he => ?_, hfits.anchored⟩
  · rcases h with ⟨-, rfl⟩ | ⟨finished, b, current, before, -, h⟩
    · cases hslot
    · obtain ⟨above, hgroup, -⟩ := h.current
      obtain rfl : current = slot := Option.some.inj (h.described.symm.trans hslot)
      have hmem : (current, (b.lines probe).2) ∈ plan.layout.group (Block.height finished) := by
        simp [hgroup]
      exact Layout.hasSlot_of_mem_group hmem
  · exact Layout.hasSlot_of_mem_front (hlaysOut.slots e he)

theorem inRange_of_afterRows {probe source : Text} {taken : List Text} {plan : Plan}
    (htaken : taken <+: source.rows) (h : afterRows probe source taken = .ok plan) :
    plan.InRange := by
  have hmatches := afterRows_matches probe htaken
  cases hblocks : taken.foldlM Block.addRow [] with
  | error e =>
    rw [hblocks, h] at hmatches
    cases hmatches
  | ok blocks =>
    rw [hblocks, h] at hmatches
    obtain ⟨plan', hplan, hmatches⟩ := hmatches
    exact Except.ok.inj hplan ▸ hmatches.inRange

end Plan

end Reading

/--
A reading fails exactly when a row is at fault, with the error of the first such row. It never fails
on missing notices, nor on a slot out of range: whatever rows were planned for, the plan is in range.
-/
theorem readFixture_eq_error_iff (probe source : Text) (known : File) :
    (∀ e, readFixture probe source known = .error e ↔
      ∃ above row below, source.rows = above ++ row :: below ∧ Reading.Offends above row e ∧
        Reading.Faultless above) ∧
    ((∃ e, readFixture probe source known = .error e) ↔
      ∃ above row below e, source.rows = above ++ row :: below ∧ Reading.Offends above row e) ∧
    (∀ m, readFixture probe source known ≠ .error (.missing m)) ∧
    (∀ slot, readFixture probe source known ≠ .error (.unknownSlot slot)) ∧
    ∀ taken plan, taken <+: source.rows →
      Reading.Plan.afterRows probe source taken = .ok plan → plan.InRange := by
  have herror : ∀ e, readFixture probe source known = .error e ↔
      ∃ above row below, source.rows = above ++ row :: below ∧ Reading.Offends above row e ∧
        Reading.Faultless above := by
    intro e
    rw [readFixture_eq, ← Reading.Block.ofRows_eq_error_iff]
    cases Reading.Block.ofRows source.rows <;> simp [Except.map]
  refine ⟨herror, ?_, fun m h => ?_, fun slot h => ?_, fun taken plan htaken h =>
    Reading.Plan.inRange_of_afterRows htaken h⟩
  · constructor
    · rintro ⟨e, h⟩
      obtain ⟨above, row, below, hrows, hoffends, -⟩ := (herror e).mp h
      exact ⟨above, row, below, e, hrows, hoffends⟩
    · rintro ⟨above, row, below, e, hrows, hoffends⟩
      cases hblocks : Reading.Block.ofRows source.rows with
      | ok blocks =>
        have hfaultless := Reading.Block.exists_ofRows_eq_ok_iff.mp ⟨blocks, hblocks⟩
        exact absurd hoffends (hfaultless above row below hrows e)
      | error e' => exact ⟨e', by rw [readFixture_eq, hblocks]; rfl⟩
  · obtain ⟨above, row, below, -, hoffends, -⟩ := (herror _).mp h
    cases hoffends
  · obtain ⟨above, row, below, -, hoffends, -⟩ := (herror _).mp h
    cases hoffends

end NoticeCheck
