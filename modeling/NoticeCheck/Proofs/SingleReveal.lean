import Mathlib.Data.List.Infix
import NoticeCheck.Proofs.Blockwise

/-!
What one reveal does to the line it describes, against the three cases there are: a line that holds
a probe is kept, an assignment gets a probe of its name below it, any other line becomes a probe.
-/
namespace NoticeCheck.Reading

/-- Somewhere in the text the probe is called with an argument. -/
def HoldsProbe (probe text : Text) : Prop :=
  ∃ rest, rest <:+ text ∧ OpensProbe probe rest

instance (probe text : Text) : Decidable (HoldsProbe probe text) :=
  decidable_of_iff (∃ rest ∈ text.tails, OpensProbe probe rest) (by
    simp only [List.mem_tails, HoldsProbe])

/-- An assignment or a declaration, and no comparison: the first equals sign is a single one. -/
structure IsSimple (text : Text) : Prop extends IsAssignment text where
  single : ¬ ['=', '='] <+: text.dropWhile (· != '=')

theorem isSimple_iff {text : Text} :
    IsSimple text ↔ IsAssignment text ∧ ¬ ['=', '='] <+: text.dropWhile (· != '=') :=
  ⟨fun h => ⟨h.toIsAssignment, h.single⟩, fun h => ⟨h.1, h.2⟩⟩

instance (text : Text) : Decidable (IsSimple text) :=
  decidable_of_iff _ isSimple_iff.symm

/-- The lines that stand for a line that one reveal describes. -/
def singleLines (probe indent line : Text) : List Text :=
  let text := line.trim
  if HoldsProbe probe text then [line]
  else if IsSimple text then [line, call indent probe (text.takeWhile isWordChar)]
  else [call indent probe text]

variable {probe indent line : Text} {directives : List Text}

theorem OpensProbe.holdsProbe {text : Text} (h : OpensProbe probe text) : HoldsProbe probe text :=
  ⟨text, List.suffix_rfl, h⟩

theorem isBlank_of_revealIndent? {row : Text} (h : revealIndent? row = some indent) :
    ∀ c ∈ indent, isBlank c = true := by
  unfold revealIndent? at h
  split at h
  · next d hrow =>
    obtain ⟨-, ⟨⟩⟩ := Option.ite_none_right_eq_some.mp h
    rw [(Directive.fromLine_of_parse hrow).indent]
    exact fun c hc => List.mem_takeWhile_imp hc
  · cases h

/-- A call of the probe around a line is another line. -/
theorem call_trim_ne (hprobe : IsWord probe) (hindent : ∀ c ∈ indent, isBlank c = true) :
    call indent probe line.trim ≠ line := by
  intro hsame
  have htrim := trim_call_eq hprobe hindent line.trim
  rw [hsame] at htrim
  have hlength := congrArg List.length htrim
  simp only [call, List.nil_append, List.length_append, List.length_cons, List.length_nil] at hlength
  omega

theorem reviseBlock_of_reveal (hreveal : directives.filterMap revealIndent? = [indent]) :
    reviseBlock probe (line :: directives) = (reviseLine probe ([], line) indent).1 ++
      (reviseLine probe ([], line) indent).2 :: directives := by
  rw [reviseBlock, hreveal]
  rfl

/--
One reveal does what it should unless the line holds a probe further on, or is a comparison that
begins like an assignment.
-/
theorem reviseBlock_eq_singleLines_iff (hprobe : IsWord probe)
    (hreveal : directives.filterMap revealIndent? = [indent]) :
    reviseBlock probe (line :: directives) = singleLines probe indent line ++ directives ↔
      (HoldsProbe probe line.trim → OpensProbe probe line.trim) ∧
      (¬ HoldsProbe probe line.trim → IsAssignment line.trim → IsSimple line.trim) := by
  have hindent : ∀ c ∈ indent, isBlank c = true := by
    have hmem : indent ∈ directives.filterMap revealIndent? := hreveal ▸ List.mem_singleton_self _
    obtain ⟨row, -, hrow⟩ := List.mem_filterMap.mp hmem
    exact isBlank_of_revealIndent? hrow
  rw [reviseBlock_of_reveal hreveal, List.append_cons, List.append_cancel_right_eq, reviseLine,
    singleLines]
  dsimp only
  by_cases hopens : OpensProbe probe line.trim
  · simp [hopens, hopens.holdsProbe]
  · by_cases hassigned : IsAssignment line.trim
    · -- a line is inserted, and is called for by a simple assignment only
      rw [if_neg hopens, if_pos hassigned]
      by_cases hholds : HoldsProbe probe line.trim
      · simp [hopens, hholds]
      · by_cases hsimple : IsSimple line.trim
        · simp [hholds, hsimple, call]
        · simp [hholds, hassigned, hsimple]
    · -- a call around the line is not the line itself
      have hsimple : ¬ IsSimple line.trim := fun h => hassigned h.toIsAssignment
      rw [if_neg hopens, if_neg hassigned]
      by_cases hholds : HoldsProbe probe line.trim
      · rw [if_pos hholds]
        refine iff_of_false (fun hsame => ?_) fun hall => hopens (hall.1 hholds)
        exact call_trim_ne hprobe hindent (List.singleton_inj.mp hsame)
      · simp [hholds, hassigned, hsimple, call]

/-- The rows of a revised text are the revised blocks of its source. -/
theorem rows_eq_reviseBlock_cutBlocks {source t : Text} {known f : File}
    (hprobe : IsPlainProbe probe) (h : readFixture probe source known = .ok (t, f)) :
    t.rows = (cutBlocks source.rows).flatMap (reviseBlock probe) := by
  obtain ⟨blocks, hblocks, rfl, -, -⟩ := exists_blocks hprobe h
  obtain ⟨hread, -⟩ := Block.ofRows_eq_ok_iff.mp hblocks
  rw [Block.rows_text hprobe.oneRow hblocks, Block.cutBlocks_eq hblocks, List.flatMap_map]
  exact List.flatMap_congr fun b hb => Block.rows_eq_reviseBlock probe (hread b hb)

end NoticeCheck.Reading

namespace NoticeCheck

/--
Of a line that one reveal describes, the revised text has what it should at its place, exactly when
a probe in the line is what the line begins with and, if there is none, the line is no comparison
that begins like an assignment.
-/
theorem rows_singleLines_iff {probe source t indent line : Text} {known f : File}
    {above below : List (List Text)} {directives : List Text} (hprobe : Reading.IsWord probe)
    (h : readFixture probe source known = .ok (t, f))
    (hcut : Reading.cutBlocks source.rows = above ++ (line :: directives) :: below)
    (hreveal : directives.filterMap Reading.revealIndent? = [indent]) :
    t.rows = above.flatMap (Reading.reviseBlock probe) ++
        (Reading.singleLines probe indent line ++ directives) ++
          below.flatMap (Reading.reviseBlock probe) ↔
      (Reading.HoldsProbe probe line.trim → Reading.OpensProbe probe line.trim) ∧
      (¬ Reading.HoldsProbe probe line.trim → Reading.IsAssignment line.trim →
        Reading.IsSimple line.trim) := by
  rw [Reading.rows_eq_reviseBlock_cutBlocks hprobe.isPlainProbe h, hcut, List.flatMap_append,
    List.flatMap_cons, ← List.append_assoc, List.append_cancel_right_eq, List.append_cancel_left_eq]
  exact Reading.reviseBlock_eq_singleLines_iff hprobe hreveal

/-- A declaration between other lines, with a note and a reveal of it. -/
theorem rows_singleLines_declared :
    let source : Text := "a\n  x: int = 1\n# ^ NOTE ^ n\n  # ^ REVEAL ^ int\nb".toList
    ∃ t f, readFixture defaultProbe source (.empty ⟨"/m.py".toList⟩) = .ok (t, f) ∧
      t.rows = ["a".toList, "  x: int = 1".toList, "  reveal_type(x)".toList,
        "# ^ NOTE ^ n".toList, "  # ^ REVEAL ^ int".toList, "b".toList] := by
  intro source
  let read := (readFixture defaultProbe source (.empty ⟨"/m.py".toList⟩)).toOption.getD
    ([], .empty ⟨"/m.py".toList⟩)
  have hread : readFixture defaultProbe source (.empty ⟨"/m.py".toList⟩) =
      .ok (read.1, read.2) := by decide +kernel
  have hcut : Reading.cutBlocks source.rows = [["a".toList]] ++
      ("  x: int = 1".toList :: ["# ^ NOTE ^ n".toList, "  # ^ REVEAL ^ int".toList]) ::
        [["b".toList]] := by decide +kernel
  have hreveal : ["# ^ NOTE ^ n".toList, "  # ^ REVEAL ^ int".toList].filterMap
      Reading.revealIndent? = ["  ".toList] := by decide +kernel
  have hnone : ¬ Reading.HoldsProbe defaultProbe (Text.trim "  x: int = 1".toList) := by decide +kernel
  have hsimple : Reading.IsSimple (Text.trim "  x: int = 1".toList) := by decide +kernel
  have hrows := (rows_singleLines_iff Reading.isWord_defaultProbe hread hcut hreveal).mpr
    ⟨fun hholds => absurd hholds hnone, fun _ _ => hsimple⟩
  exact ⟨read.1, read.2, hread, hrows.trans (by decide +kernel)⟩

/--
A probe of the name below a comparison, which should be in a probe itself, and one below an
assignment that holds a probe, which should be kept.
-/
theorem rows_ne_singleLines :
    let revise (line : Text) : Option (List Text) :=
      (readFixture defaultProbe (line ++ "\n# ^ REVEAL ^ bool".toList)
        (.empty ⟨"/m.py".toList⟩)).toOption.map fun read => read.1.rows
    let comparison : Text := "x == 1".toList
    let assignment : Text := "y = reveal_type(z)".toList
    (revise comparison =
        some [comparison, "reveal_type(x)".toList, "# ^ REVEAL ^ bool".toList] ∧
      Reading.singleLines defaultProbe [] comparison = ["reveal_type(x == 1)".toList]) ∧
    (revise assignment =
        some [assignment, "reveal_type(y)".toList, "# ^ REVEAL ^ bool".toList] ∧
      Reading.singleLines defaultProbe [] assignment = [assignment]) := by
  decide +kernel

end NoticeCheck
