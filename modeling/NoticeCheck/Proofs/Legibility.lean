import NoticeCheck.Proofs.Path
import NoticeCheck.Proofs.Rendering

/-!
What a report without colours tells. When no location and no subtype has a line feed, the rows are
found again in the text: a cross among them is a failed check, and comparisons with one text look
alike.
-/
namespace NoticeCheck

namespace Pair

/-- Shown at a position: the left side, the mark and, at a cross, the right side. -/
theorem map_shown_of?_iff {got want got' want' : Option Notice} :
    (of? got want).map shown = (of? got' want').map shown ↔
      got.map Notice.display = got'.map Notice.display ∧
      (of? got want).map isSame = (of? got' want').map isSame ∧
      ((of? got want).map isSame = some false →
        want.map Notice.display = want'.map Notice.display) := by
  rcases of?_cases got want with ⟨h, rfl, rfl⟩ | ⟨n, rfl, h⟩ | h <;>
    rcases of?_cases got' want' with ⟨h', rfl, rfl⟩ | ⟨n', rfl, h'⟩ | h' <;>
    simp [h, h', shown, isSame]

end Pair

/-- Sides with the same left displays, the same marks and, at each cross, the same right display. -/
structure Sides.LooksLike (s t : Sides) : Prop where
  got : s.left.map Notice.display = t.left.map Notice.display
  marks : s.pairs.map Pair.isSame = t.pairs.map Pair.isSame
  want : ∀ i : Nat, (s.pairs.map Pair.isSame)[i]? = some false →
    (s.right.map Notice.display)[i]? = (t.right.map Notice.display)[i]?

theorem Sides.shown_eq_iff {s t : Sides} : s.shown = t.shown ↔ s.LooksLike t := by
  have hposition : s.shown = t.shown ↔ ∀ i : Nat,
      (s.left.map Notice.display)[i]? = (t.left.map Notice.display)[i]? ∧
      (s.pairs.map Pair.isSame)[i]? = (t.pairs.map Pair.isSame)[i]? ∧
      ((s.pairs.map Pair.isSame)[i]? = some false →
        (s.right.map Notice.display)[i]? = (t.right.map Notice.display)[i]?) := by
    simp only [List.ext_getElem?_iff, shown, List.getElem?_map, pairs, Pair.getElem?_zip,
      Pair.map_shown_of?_iff]
  rw [hposition, forall_and, forall_and, ← List.ext_getElem?_iff, ← List.ext_getElem?_iff]
  constructor
  · rintro ⟨hgot, hmarks, hwant⟩
    exact ⟨hgot, hmarks, hwant⟩
  · intro h
    exact ⟨h.got, h.marks, h.want⟩

namespace Comparison

variable {c d : Comparison}

/-- Comparisons of the same paths and line numbers that look alike everywhere. -/
structure LooksLike (c d : Comparison) : Prop where
  paths : c.files.keys = d.files.keys
  numbers : ∀ path,
    (c.files.get? path).map SortedMap.keys = (d.files.get? path).map SortedMap.keys
  sides : ∀ path number, (c.sidesAt path number).LooksLike (d.sidesAt path number)

theorem shown_sidesAt (c : Comparison) (path : Text) (number : Nat) :
    (c.sidesAt path number).shown = (((c.shown.get? path).getD .empty).get? number).getD [] := by
  simp only [sidesAt, Comparison.shown, SortedMap.get?_mapValues]
  cases c.files.get? path with
  | none => rfl
  | some lines =>
    simp only [Option.map_some, Option.getD_some, SortedMap.get?_mapValues]
    cases lines.get? number <;> rfl

theorem shown_eq_iff : c.shown = d.shown ↔ c.LooksLike d := by
  constructor
  · intro h
    have hkeys : ∀ c : Comparison, c.shown.keys = c.files.keys := fun c =>
      SortedMap.keys_mapValues _ _
    have hnumbers : ∀ (c : Comparison) (path : Text),
        (c.shown.get? path).map SortedMap.keys = (c.files.get? path).map SortedMap.keys := by
      intro c path
      rw [Comparison.shown, SortedMap.get?_mapValues, Option.map_map]
      congr 1
      exact funext fun lines => SortedMap.keys_mapValues _ _
    refine ⟨by rw [← hkeys, h, hkeys], fun path => by rw [← hnumbers, h, hnumbers],
      fun path number => Sides.shown_eq_iff.mp ?_⟩
    rw [shown_sidesAt, h, ← shown_sidesAt]
  · intro h
    refine SortedMap.eq_of_get? fun path => ?_
    have hnumbers := h.numbers path
    have hsides := h.sides path
    simp only [Comparison.shown, sidesAt, SortedMap.get?_mapValues] at hsides ⊢
    cases hc : c.files.get? path with
    | none => cases hd : d.files.get? path with
      | none => rfl
      | some lines' => simp [hc, hd] at hnumbers
    | some lines => cases hd : d.files.get? path with
      | none => simp [hc, hd] at hnumbers
      | some lines' =>
        simp only [hc, hd, Option.map_some, Option.some.injEq, Option.getD_some]
          at hnumbers hsides ⊢
        refine SortedMap.eq_of_get? fun number => ?_
        have hsome : (lines.get? number).isSome = (lines'.get? number).isSome := by
          rw [Bool.eq_iff_iff, SortedMap.isSome_get?_iff, SortedMap.isSome_get?_iff, hnumbers]
        have hline := Sides.shown_eq_iff.mpr (hsides number)
        rw [SortedMap.get?_mapValues, SortedMap.get?_mapValues]
        cases hm : lines.get? number <;> cases hn : lines'.get? number <;> simp_all

end Comparison

/-- No line feed in a location or in the subtype of an error. -/
def Program.IsLegible (p : Program) : Prop :=
  ∀ n ∈ p.notices, '\n' ∉ n.location.spelling ∧
    ∀ subtype, n.severity = .error subtype → '\n' ∉ subtype

section

variable {root : Path} {left right : Program} {path : Text} {number : Nat}

theorem Notice.not_mem_display {n : Notice}
    (hsubtype : ∀ subtype, n.severity = .error subtype → '\n' ∉ subtype)
    (hmessage : '\n' ∉ n.message) : '\n' ∉ n.display := by
  have hseverity : '\n' ∉ n.severity.display := by
    cases hs : n.severity with
    | note => decide
    | warning => decide
    | error subtype =>
      exact List.not_mem_append (List.not_mem_append (by decide) (hsubtype subtype hs)) (by decide)
  have hrest : ∀ column : Text, '\n' ∉ column → '\n' ∉ column ++ "severity=".toList ++
      n.severity.display ++ ":: ".toList ++ n.message := fun column hcolumn =>
    List.not_mem_append (List.not_mem_append (List.not_mem_append
      (List.not_mem_append hcolumn (by decide)) hseverity) (by decide)) hmessage
  rw [display]
  cases n.column with
  | none => exact hrest [] List.not_mem_nil
  | some column => exact hrest _ (List.not_mem_append (List.not_mem_append (by decide)
      (Text.not_mem_ofNat rfl column)) (by decide))

theorem Program.IsLegible.not_mem_path {p : Program} (h : p.IsLegible)
    (hshown : p.shownAt root path number ≠ []) : '\n' ∉ path := by
  obtain ⟨n, hn⟩ := List.exists_mem_of_ne_nil _ hshown
  have hplace := Program.place_of_mem_shownAt n hn
  rw [← (Prod.mk.inj hplace).1]
  exact fun hmem => (h n (List.mem_filter.mp hn).1).1
    (Path.mem_spelling_of_mem_shown (by decide) (by decide) hmem)

theorem Program.IsLegible.not_mem_display {p : Program} (h : p.IsLegible) :
    ∀ row ∈ Notice.splitAll (p.shownAt root path number), '\n' ∉ row.display := by
  intro row hrow
  obtain ⟨n, hn, hrow⟩ := List.mem_flatMap.mp ((Notice.splitAll_perm _).mem_iff.mp hrow)
  have hsubtype := (h n (List.mem_filter.mp hn).1).2
  have hmessage := Notice.oneRow_of_mem_splitRows hrow
  obtain ⟨message, -, rfl⟩ := List.mem_map.mp hrow
  exact Notice.not_mem_display hsubtype hmessage

namespace Report

theorem not_mem_headRow {same : Bool} {tail : Text} (h : '\n' ∉ tail) :
    '\n' ∉ headRow same number tail := by
  have hmark : '\n' ∉ "  | ".toList ++ mark false same := by cases same <;> decide
  exact List.not_mem_append (List.not_mem_append hmark (List.not_mem_cons_of_ne_of_not_mem
    (by decide) (Text.not_mem_ofNat rfl number))) (List.not_mem_cons_of_ne_of_not_mem (by decide) h)

theorem not_mem_of_mem_lineRows {s : Sides} (h : ∀ n ∈ s.left ++ s.right, '\n' ∉ n.display) :
    ∀ row ∈ lineRows false number s.pairs, '\n' ∉ row := by
  have hblank : ∀ n ∈ s.left, '\n' ∉ ' ' :: n.display := fun n hn =>
    List.not_mem_cons_of_ne_of_not_mem (by decide) (h n (List.mem_append_left _ hn))
  have hshown : ∀ n : Option Notice, (∀ m ∈ n, m ∈ s.left ++ s.right) → '\n' ∉ shown n := by
    intro n hn
    cases n with
    | none => decide
    | some n => exact h n (hn n rfl)
  have hpair : ∀ p ∈ s.pairs, ∀ row ∈ pairRows false p, '\n' ∉ row := by
    intro p hp row hrow
    rcases Pair.mem_of_mem_zip hp with ⟨n, hn, rfl⟩ | ⟨got, want, rfl, hgot, hwant⟩
    · obtain rfl := List.mem_singleton.mp hrow
      exact List.not_mem_append (by decide) (hblank n hn)
    · rcases List.mem_pair.mp hrow with rfl | rfl
      · exact List.not_mem_append (by decide)
          (hshown got fun n hn => List.mem_append_left _ (hgot n hn))
      · exact List.not_mem_append (by decide)
          (hshown want fun n hn => List.mem_append_right _ (hwant n hn))
  intro row hrow
  rcases lineRows_cases number s.pairs with ⟨n, hpairs, hrows⟩ | ⟨-, hrows⟩
  · have hn : n ∈ s.left := by
      have hmem : Pair.same n ∈ s.pairs := by rw [hpairs]; exact List.mem_cons_self
      rcases Pair.mem_of_mem_zip hmem with ⟨m, hm, heq⟩ | ⟨_, _, heq, -⟩
      · cases heq
        exact hm
      · cases heq
    rw [hrows, List.mem_singleton] at hrow
    rw [hrow]
    exact not_mem_headRow (hblank n hn)
  · rw [hrows, List.mem_cons] at hrow
    rcases hrow with rfl | hrow
    · exact not_mem_headRow List.not_mem_nil
    · obtain ⟨p, hp, hrow⟩ := List.mem_flatMap.mp hrow
      exact hpair p hp row hrow

theorem not_mem_of_mem_rowsOf (root : Path) (hleft : left.IsLegible) (hright : right.IsLegible) :
    ∀ row ∈ rowsOf (.ofPrograms root left right), '\n' ∉ row := by
  intro row hrow
  obtain ⟨⟨path, lines⟩, hfile, hrow⟩ := List.mem_flatMap.mp hrow
  have hlines := SortedMap.mem_entries_iff.mp hfile
  have hentry : ∀ {number sides}, lines.get? number = some sides →
      (left.shownAt root path number ≠ [] ∨ right.shownAt root path number ≠ []) ∧
        sides = ⟨Notice.splitAll (left.shownAt root path number),
          Notice.splitAll (right.shownAt root path number)⟩ := by
    intro number sides hsides
    have hmem : ((path, number), sides) ∈ (Comparison.ofPrograms root left right).entries :=
      Comparison.mem_entries_iff.mpr (by rw [Comparison.sides?, hlines]; exact hsides)
    exact Comparison.mem_entries_ofPrograms.mp hmem
  rcases List.mem_cons.mp hrow with rfl | hrow
  · obtain ⟨number, hnumber⟩ := Comparison.isTight_ofPrograms root left right path lines hlines
    obtain ⟨sides, hsides⟩ := Option.isSome_iff_exists.mp hnumber
    have hpath : '\n' ∉ path := (hentry hsides).1.elim hleft.not_mem_path hright.not_mem_path
    exact List.not_mem_append (by decide) hpath
  · obtain ⟨⟨number, sides⟩, hline, hrow⟩ := List.mem_flatMap.mp hrow
    refine not_mem_of_mem_lineRows (fun n hn => ?_) row hrow
    rw [(hentry (SortedMap.mem_entries_iff.mp hline)).2] at hn
    rcases List.mem_append.mp hn with hn | hn
    · exact hleft.not_mem_display n hn
    · exact hright.not_mem_display n hn

theorem rowsOf_ne_singleton_nil (c : Comparison) : rowsOf c ≠ [[]] := by
  intro h
  unfold rowsOf at h
  cases hfiles : c.files.entries with
  | nil => simp [hfiles] at h
  | cons file files =>
    rw [hfiles, List.flatMap_cons, fileRows] at h
    cases h

/-- A cross in the text is a cross in a row. -/
theorem exists_isCrossed_iff {c : Comparison} (hrows : ∀ row ∈ rowsOf c, '\n' ∉ row) :
    (∃ row ∈ (ofComparison false c).text.rows, isCrossed row = true) ↔ c.isMatch = false := by
  have hcrossed := any_isCrossed_rowsOf c
  rw [text_ofComparison, ← List.any_eq_true]
  by_cases hne : rowsOf c = []
  · have hmatch : c.isMatch = true := by simpa [hne] using hcrossed
    rw [hne, hmatch]
    exact iff_of_false (by decide) nofun
  · rw [Text.rows_ofRows hne hrows, hcrossed, Bool.not_eq_true']

end Report

/--
The report of two programs without line feeds in locations and subtypes tells the whole truth. It
is different, fails the check and has a row with a cross exactly when the programs do not match; and
two such reports have one text exactly when the comparisons look alike.
-/
theorem Comparison.report_tells (root : Path) (hleft : left.IsLegible) (hright : right.IsLegible) :
    let c := ofPrograms root left right
    let r := Report.ofComparison false c
    (r.isDifferent = true ↔ c.isMatch = false) ∧
    (c.isMatch = false ↔ ∃ e, c.require = .error e) ∧
    (c.isMatch = false ↔ ∃ row ∈ r.text.rows, row.startsWith "  | ✘".toList = true) ∧
    ∀ (root' : Path) (left' right' : Program), left'.IsLegible → right'.IsLegible →
      let d := ofPrograms root' left' right'
      (r.text = (Report.ofComparison false d).text ↔ c.LooksLike d) := by
  intro c r
  have hrows := Report.not_mem_of_mem_rowsOf root hleft hright
  refine ⟨?_, ?_, (Report.exists_isCrossed_iff hrows).symm, fun root' left' right' hl hr => ?_⟩
  · rw [Report.isDifferent_ofComparison, Bool.not_eq_true']
  · rw [← Bool.not_eq_true, ← require_eq_ok_iff]
    cases c.require with
    | error e => exact iff_of_true nofun ⟨e, rfl⟩
    | ok _ => exact iff_of_false (fun h => h rfl) nofun
  · intro d
    have hrows' := Report.not_mem_of_mem_rowsOf root' hl hr
    rw [← shown_eq_iff, ← Report.rowsOf_eq_iff, Report.text_ofComparison, Report.text_ofComparison]
    constructor
    · exact Text.eq_of_ofRows_eq (Report.rowsOf_ne_singleton_nil c)
        (Report.rowsOf_ne_singleton_nil d) hrows hrows'
    · exact congrArg Text.ofRows

end

section

private def reportedAt (column : Option Nat) : Program :=
  (Program.empty.record ⟨⟨"/r/m.py".toList⟩, 3, column, .error "misc".toList, "bad".toList⟩).record
    ⟨⟨"/r/m.py".toList⟩, 3, none, .note, "b\nc".toList⟩

private def expectedAt (column : Option Nat) : Program :=
  Program.empty.record ⟨⟨"/r/m.py".toList⟩, 3, column, .error [], "bad".toList⟩

private theorem isLegible_reportedAt (column : Option Nat) : (reportedAt column).IsLegible := by
  have hnotices : (reportedAt column).notices =
      [⟨⟨"/r/m.py".toList⟩, 3, column, .error "misc".toList, "bad".toList⟩,
        ⟨⟨"/r/m.py".toList⟩, 3, none, .note, "b\nc".toList⟩] := rfl
  intro n hn
  rw [hnotices] at hn
  rcases List.mem_pair.mp hn with rfl | rfl
  · exact ⟨show '\n' ∉ "/r/m.py".toList by decide, by rintro _ ⟨⟩; decide⟩
  · exact ⟨by decide, nofun⟩

private theorem isLegible_expectedAt (column : Option Nat) : (expectedAt column).IsLegible := by
  have hnotices : (expectedAt column).notices =
      [⟨⟨"/r/m.py".toList⟩, 3, column, .error [], "bad".toList⟩] := rfl
  intro n hn
  rw [hnotices, List.mem_singleton] at hn
  rw [hn]
  exact ⟨show '\n' ∉ "/r/m.py".toList by decide, by rintro _ ⟨⟩; decide⟩

/-- What was expected is not shown where it agrees; two notes without a partner are a failure. -/
theorem Comparison.report_tells_missing_notes :
    let root : Path := ⟨"/r".toList⟩
    let c := ofPrograms root (reportedAt (some 7)) (expectedAt none)
    let d := ofPrograms root (reportedAt (some 7)) (expectedAt (some 7))
    let r := Report.ofComparison false c
    c ≠ d ∧ r.text = (Report.ofComparison false d).text ∧ c.LooksLike d ∧
      r.isDifferent = true ∧ c.isMatch = false ∧ (∃ e, c.require = .error e) ∧
      ∃ row ∈ r.text.rows, row.startsWith "  | ✘".toList = true := by
  intro root c d r
  obtain ⟨hdifferent, hfails, hcross, hlooks⟩ := report_tells root
    (isLegible_reportedAt (some 7)) (isLegible_expectedAt none)
  have hmatch : c.isMatch = false := by decide
  have htext : r.text = (Report.ofComparison false d).text := by decide +kernel
  have hdifference : c ≠ d := by decide +kernel
  have hsame := hlooks root (reportedAt (some 7)) (expectedAt (some 7))
    (isLegible_reportedAt (some 7)) (isLegible_expectedAt (some 7))
  exact ⟨hdifference, htext, hsame.mp htext, hdifferent.mpr hmatch, hmatch, hfails.mp hmatch,
    hcross.mp hmatch⟩

end

end NoticeCheck
