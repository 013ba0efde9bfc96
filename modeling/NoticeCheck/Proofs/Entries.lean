import NoticeCheck.Proofs.Linewise
import NoticeCheck.Proofs.Path
import NoticeCheck.Proofs.Ties

/-!
What a comparison of two programs holds: one entry for each place where a notice is shown, with the
notices of both programs that are shown there. None is lost and none is made up. With the programs
exchanged, the sides are exchanged.
-/
namespace NoticeCheck

namespace Notice

/--
`rows` are `notices` in pairing order, level ones in the order they come in, with every message cut
into its rows.
-/
def IsCutFrom (rows notices : List Notice) : Prop :=
  ∃ sorted : List Notice, AllSplitInto sorted rows ∧ sorted.Perm notices ∧
    sorted.Pairwise NoLater ∧
    ∀ key, (sorted.filter fun n => n.pairingKey = key) = notices.filter fun n => n.pairingKey = key

theorem isCutFrom_splitAll (notices : List Notice) : IsCutFrom (splitAll notices) notices := by
  have hsorted : (sortBy pairingOrder notices).Pairwise NoLater :=
    (pairwise_sortBy notices).imp fun h => noLater_iff.mpr h
  exact ⟨_, allSplitInto_iff.mpr rfl, sortBy_perm _ _, hsorted,
    fun key => filter_sortBy_pairingKey key notices⟩

theorem splitAll_eq_nil_iff {notices : List Notice} : splitAll notices = [] ↔ notices = [] := by
  have hrows : ∀ n : Notice, n.splitRows ≠ [] := fun n => by
    simp [splitRows, Text.rows, Text.cut_ne_nil]
  have hperm := (sortBy_perm pairingOrder notices)
  constructor
  · intro h
    rw [splitAll, List.flatMap_eq_nil_iff] at h
    refine List.eq_nil_iff_forall_not_mem.mpr fun n hn => hrows n (h n ?_)
    exact hperm.mem_iff.mpr hn
  · rintro rfl
    rfl

/-- The rows of the notices of one place are of that place. -/
theorem place_of_mem_splitAll {root : Path} {place : Text × Nat} {notices : List Notice}
    (h : ∀ n ∈ notices, n.place root = place) :
    ∀ row ∈ splitAll notices, row.place root = place := by
  intro row hrow
  obtain ⟨n, hn, hrow⟩ := List.mem_flatMap.mp ((splitAll_perm notices).mem_iff.mp hrow)
  obtain ⟨message, -, rfl⟩ := List.mem_map.mp hrow
  exact h n hn

theorem agrees_comm (m n : Notice) : m.agrees n = n.agrees m :=
  Bool.eq_iff_iff.mpr ⟨fun h => agrees_iff_standsFor.mpr (standsFor_of_agrees h).symm,
    fun h => agrees_iff_standsFor.mpr (standsFor_of_agrees h).symm⟩

end Notice

namespace Program

theorem place_of_mem_shownAt {p : Program} {root : Path} {path : Text} {number : Nat} :
    ∀ n ∈ p.shownAt root path number, n.place root = (path, number) := by
  intro n hn
  rw [shownAt_eq_filter_place p root (path, number)] at hn
  exact of_decide_eq_true (List.mem_filter.mp hn).2

theorem shownAt_eq_nil_iff {p : Program} {root : Path} {path : Text} {number : Nat} :
    p.shownAt root path number = [] ↔ ∀ n ∈ p.notices, n.place root ≠ (path, number) := by
  rw [shownAt_eq_filter_place p root (path, number), List.filter_eq_nil_iff]
  simp only [decide_eq_true_eq, ne_eq]

end Program

/-- Which positions agree does not depend on which list is the expected one. -/
theorem Pair.map_isSame_zip_comm (left right : List Notice) :
    (Pair.zip right left).map isSame = (Pair.zip left right).map isSame := by
  refine List.ext_getElem? fun i => ?_
  rw [List.getElem?_map, List.getElem?_map, getElem?_zip, getElem?_zip]
  cases left[i]? with
  | none => cases right[i]? <;> rfl
  | some got => cases right[i]? with
    | none => rfl
    | some want =>
      rw [of?, of?, Notice.agrees_comm got want]
      split <;> rfl

namespace Comparison

variable {root : Path} {side : Side} {c d : Comparison} {path : Text} {number : Nat}

/-- The sides of the entry for a shown path and a line number, if there is one. -/
def sides? (c : Comparison) (path : Text) (number : Nat) : Option Sides :=
  (c.files.get? path).bind fun lines => lines.get? number

/-- All entries with their places, file after file and line after line. -/
def entries (c : Comparison) : List ((Text × Nat) × Sides) :=
  c.files.entries.flatMap fun (path, lines) =>
    lines.entries.map fun (number, sides) => ((path, number), sides)

theorem mem_entries_iff {sides : Sides} :
    ((path, number), sides) ∈ c.entries ↔ c.sides? path number = some sides := by
  simp only [entries, List.mem_flatMap, List.mem_map, Prod.exists, Prod.mk.injEq, sides?,
    Option.bind_eq_some_iff, SortedMap.mem_entries_iff]
  constructor
  · rintro ⟨_, lines, hlines, _, _, hsides, ⟨rfl, rfl⟩, rfl⟩
    exact ⟨lines, hlines, hsides⟩
  · rintro ⟨lines, hlines, hsides⟩
    exact ⟨path, lines, hlines, number, sides, hsides, ⟨rfl, rfl⟩, rfl⟩

theorem places_eq_flatMap (c : Comparison) : c.entries.map Prod.fst =
    c.files.entries.flatMap fun file => file.2.keys.map fun number => (file.1, number) := by
  simp only [entries, SortedMap.keys, List.map_flatMap, List.map_map, Function.comp_def]

/-- No place has two entries. -/
theorem nodup_places (c : Comparison) : (c.entries.map Prod.fst).Nodup := by
  rw [places_eq_flatMap, List.nodup_flatMap]
  constructor
  · intro file _
    exact file.2.keys_nodup.map fun _ _ h => congrArg Prod.snd h
  · refine c.files.ascending.imp fun {a b} hlt => List.disjoint_left.mpr fun place ha hb => ?_
    obtain ⟨_, -, rfl⟩ := List.mem_map.mp ha
    obtain ⟨_, -, heq⟩ := List.mem_map.mp hb
    have hpath : b.1 = a.1 := (Prod.mk.inj heq).1
    simp [hpath] at hlt

theorem sidesAt_eq_getD (c : Comparison) (path : Text) (number : Nat) :
    c.sidesAt path number = (c.sides? path number).getD {} := by
  rw [sidesAt, sides?]
  cases c.files.get? path <;> rfl

/-- No file is kept without an entry. -/
def IsTight (c : Comparison) : Prop :=
  ∀ path lines, c.files.get? path = some lines → ∃ number, (lines.get? number).isSome = true

theorem IsTight.isSome_file_iff (h : c.IsTight) :
    (c.files.get? path).isSome = true ↔ ∃ number, (c.sides? path number).isSome = true := by
  simp only [sides?]
  cases hlines : c.files.get? path with
  | none => simp
  | some lines => simpa using h path lines hlines

/-- Comparisons are told apart by their entries. -/
theorem ext_sides? (hc : c.IsTight) (hd : d.IsTight)
    (h : ∀ path number, c.sides? path number = d.sides? path number) : c = d := by
  have hfiles : c.files = d.files := by
    refine SortedMap.eq_of_get? fun path => ?_
    have hsome : (c.files.get? path).isSome = (d.files.get? path).isSome := by
      rw [Bool.eq_iff_iff, hc.isSome_file_iff, hd.isSome_file_iff]
      simp only [h]
    have hlines := h path
    simp only [sides?] at hlines
    cases hcp : c.files.get? path <;> cases hdp : d.files.get? path <;>
      simp only [hcp, hdp, Option.isSome_some, Option.isSome_none, reduceCtorEq] at hsome hlines
    · rfl
    · exact congrArg some (SortedMap.eq_of_get? hlines)
  cases c
  exact congrArg mk hfiles

theorem isTight_empty : empty.IsTight :=
  fun _ _ h => nomatch h

theorem IsTight.push (h : c.IsTight) (root : Path) (side : Side) (n : Notice) :
    (c.push root side n).IsTight := by
  intro path lines hlines
  simp only [Comparison.push, SortedMap.get?_update] at hlines
  split at hlines
  · obtain rfl := Option.some.inj hlines
    exact ⟨n.line, by simp [SortedMap.get?_update]⟩
  · exact h path lines hlines

theorem IsTight.foldl_push (h : c.IsTight) (root : Path) (side : Side) (notices : List Notice) :
    (notices.foldl (Comparison.push root side) c).IsTight := by
  induction notices generalizing c with
  | nil => exact h
  | cons n notices ih => exact ih (h.push root side n)

theorem isSome_sides?_push (n : Notice) : ((c.push root side n).sides? path number).isSome = true ↔
    n.place root = (path, number) ∨ (c.sides? path number).isSome = true := by
  simp only [sides?, push, SortedMap.get?_update, Std.LawfulEqOrd.compare_eq_iff_eq, Notice.place,
    Prod.mk.injEq]
  by_cases hp : path = root.shown n.location
  · by_cases hn : number = n.line
    · simp [hp, hn, SortedMap.get?_update]
    · cases hlines : c.files.get? path <;>
        simp [← hp, hn, Ne.symm hn, hlines, SortedMap.get?_update]
  · simp [hp, Ne.symm hp]

theorem isSome_sides?_foldl_push (notices : List Notice) :
    ((notices.foldl (push root side) c).sides? path number).isSome = true ↔
      (∃ n ∈ notices, n.place root = (path, number)) ∨ (c.sides? path number).isSome = true := by
  induction notices generalizing c with
  | nil => simp
  | cons n notices ih =>
    rw [List.foldl_cons, ih, isSome_sides?_push, List.exists_mem_cons_iff, ← or_assoc,
      or_comm (a := ∃ n ∈ notices, n.place root = (path, number))]

/-- A comparison with `f` done to the sides of each entry. -/
def mapSides (f : Sides → Sides) (c : Comparison) : Comparison :=
  ⟨c.files.mapValues fun lines => lines.mapValues f⟩

theorem sides?_mapSides (f : Sides → Sides) :
    (c.mapSides f).sides? path number = (c.sides? path number).map f := by
  simp only [sides?, mapSides, SortedMap.get?_mapValues]
  cases c.files.get? path <;> simp

theorem entries_mapSides (f : Sides → Sides) :
    (c.mapSides f).entries = c.entries.map fun e => (e.1, f e.2) := by
  simp only [entries, mapSides, SortedMap.mapValues, List.flatMap_map, List.map_flatMap,
    List.map_map, Function.comp_def]

theorem IsTight.mapSides (h : c.IsTight) (f : Sides → Sides) : (c.mapSides f).IsTight := by
  intro path lines hlines
  simp only [Comparison.mapSides, SortedMap.get?_mapValues, Option.map_eq_some_iff] at hlines
  obtain ⟨before, hbefore, rfl⟩ := hlines
  obtain ⟨number, hnumber⟩ := h path before hbefore
  exact ⟨number, by simpa using hnumber⟩

theorem isTight_ofPrograms (root : Path) (left right : Program) :
    (ofPrograms root left right).IsTight :=
  ((isTight_empty.foldl_push root .left left.notices).foldl_push root .right
    right.notices).mapSides Sides.split

theorem isSome_sides?_ofPrograms (root : Path) (left right : Program) (path : Text)
    (number : Nat) :
    ((ofPrograms root left right).sides? path number).isSome = true ↔
      left.shownAt root path number ≠ [] ∨ right.shownAt root path number ≠ [] := by
  change ((mapSides Sides.split _).sides? path number).isSome = true ↔ _
  rw [sides?_mapSides, Option.isSome_map, isSome_sides?_foldl_push, isSome_sides?_foldl_push, ne_eq,
    ne_eq, Program.shownAt_eq_nil_iff, Program.shownAt_eq_nil_iff, or_comm]
  simp [sides?, empty]

/-- A place has an entry when something is shown there, and the entry has all of it. -/
theorem sides?_ofPrograms (root : Path) (left right : Program) (path : Text) (number : Nat) :
    (ofPrograms root left right).sides? path number =
      if left.shownAt root path number = [] ∧ right.shownAt root path number = [] then none
      else some ⟨Notice.splitAll (left.shownAt root path number),
        Notice.splitAll (right.shownAt root path number)⟩ := by
  have hsome := isSome_sides?_ofPrograms root left right path number
  have hsides := sidesAt_ofPrograms root left right path number
  rw [sidesAt_eq_getD] at hsides
  cases hentry : (ofPrograms root left right).sides? path number with
  | none =>
    rw [hentry, Option.isSome_none] at hsome
    rw [if_pos (by simpa using hsome)]
  | some sides =>
    rw [hentry, Option.getD_some] at hsides
    rw [hentry, Option.isSome_some, eq_self, true_iff, ← not_and_or] at hsome
    rw [if_neg hsome, hsides]

theorem mem_entries_ofPrograms {left right : Program} {e : (Text × Nat) × Sides} :
    e ∈ (ofPrograms root left right).entries ↔
      (left.shownAt root e.1.1 e.1.2 ≠ [] ∨ right.shownAt root e.1.1 e.1.2 ≠ []) ∧
        e.2 = ⟨Notice.splitAll (left.shownAt root e.1.1 e.1.2),
          Notice.splitAll (right.shownAt root e.1.1 e.1.2)⟩ := by
  obtain ⟨⟨path, number⟩, sides⟩ := e
  rw [mem_entries_iff, sides?_ofPrograms]
  split
  · next h => exact ⟨nofun, fun hentry => absurd h (not_and_or.mpr hentry.1)⟩
  · next h =>
    rw [Option.some.injEq]
    exact ⟨fun hsides => ⟨not_and_or.mp h, hsides.symm⟩, fun hentry => hentry.2.symm⟩

theorem place_mem_places {left right : Program} {n : Notice}
    (h : n ∈ left.notices ∨ n ∈ right.notices) :
    n.place root ∈ (ofPrograms root left right).entries.map Prod.fst := by
  have hsome : ((ofPrograms root left right).sides? (n.place root).1 (n.place root).2).isSome =
      true := by
    rw [isSome_sides?_ofPrograms, ne_eq, ne_eq, Program.shownAt_eq_nil_iff,
      Program.shownAt_eq_nil_iff]
    exact h.imp (fun hn hnone => hnone n hn rfl) fun hn hnone => hnone n hn rfl
  obtain ⟨sides, hsides⟩ := Option.isSome_iff_exists.mp hsome
  exact List.mem_map.mpr ⟨_, mem_entries_iff.mpr hsides, rfl⟩

theorem isEmpty_ofPrograms_iff {left right : Program} :
    (ofPrograms root left right).isEmpty = true ↔ left.notices = [] ∧ right.notices = [] := by
  have hplaces : (ofPrograms root left right).isEmpty = true ↔
      (ofPrograms root left right).entries.map Prod.fst = [] := by
    rw [isEmpty, List.isEmpty_iff, List.map_eq_nil_iff]
    constructor
    · intro h
      rw [entries, h]
      rfl
    · intro h
      refine List.eq_nil_iff_forall_not_mem.mpr fun ⟨path, lines⟩ hfile => ?_
      have hlines := SortedMap.mem_entries_iff.mp hfile
      obtain ⟨number, hnumber⟩ := isTight_ofPrograms root left right path lines hlines
      obtain ⟨sides, hsides⟩ := Option.isSome_iff_exists.mp hnumber
      have hentry : ((path, number), sides) ∈ (ofPrograms root left right).entries :=
        mem_entries_iff.mpr (by rw [sides?, hlines, Option.bind_some, hsides])
      rw [h] at hentry
      exact List.not_mem_nil hentry
  rw [hplaces]
  constructor
  · intro h
    have hnone : ∀ n, ¬(n ∈ left.notices ∨ n ∈ right.notices) := fun n hn => by
      have hplace : n.place root ∈ (ofPrograms root left right).entries.map Prod.fst :=
        place_mem_places hn
      rw [h] at hplace
      exact List.not_mem_nil hplace
    exact ⟨List.eq_nil_iff_forall_not_mem.mpr fun n hn => hnone n (.inl hn),
      List.eq_nil_iff_forall_not_mem.mpr fun n hn => hnone n (.inr hn)⟩
  · rintro ⟨hleft, hright⟩
    refine List.eq_nil_iff_forall_not_mem.mpr fun place hplace => ?_
    obtain ⟨e, he, -⟩ := List.mem_map.mp hplace
    have hshown := (mem_entries_ofPrograms.mp he).1
    simp [Program.shownAt, hleft, hright] at hshown

/-- Entries that hold what is shown of a program at their places hold all its rows. -/
theorem hasRows_flatMap_entries {p : Program} {part : Sides → List Notice}
    (hpart : ∀ e ∈ c.entries, part e.2 = Notice.splitAll (p.shownAt root e.1.1 e.1.2))
    (hplaces : ∀ n ∈ p.notices, n.place root ∈ c.entries.map Prod.fst) :
    p.HasRows (c.entries.flatMap fun e => part e.2) := by
  have hrows : (c.entries.flatMap fun e => part e.2) =
      p.rowsAt root (c.entries.map Prod.fst) := by
    rw [Program.rowsAt, List.flatMap_map]
    exact List.flatMap_congr hpart
  rw [hrows]
  exact Program.hasRows_rowsAt c.nodup_places hplaces

theorem place_of_mem_entries {left right : Program} {e : (Text × Nat) × Sides}
    (he : e ∈ (ofPrograms root left right).entries) :
    ∀ n ∈ e.2.left ++ e.2.right, n.place root = e.1 := by
  intro n hn
  rw [(mem_entries_ofPrograms.mp he).2] at hn
  rcases List.mem_append.mp hn with hn | hn
  · exact Notice.place_of_mem_splitAll Program.place_of_mem_shownAt n hn
  · exact Notice.place_of_mem_splitAll Program.place_of_mem_shownAt n hn

/-- A comparison that holds the notices of two programs under `root`, all of them and no others. -/
structure Accounts (root : Path) (left right : Program) (c : Comparison) : Prop where
  paths_ascending : c.files.keys.Pairwise fun a b => compare a b = .lt
  numbers_ascending : ∀ lines ∈ c.files.values, lines.keys.Pairwise (· < ·)
  nodup_places : (c.entries.map Prod.fst).Nodup
  occupied : ∀ e ∈ c.entries, e.2.left ≠ [] ∨ e.2.right ≠ []
  place : ∀ e ∈ c.entries, ∀ n ∈ e.2.left ++ e.2.right, n.place root = e.1
  shows : ∀ e ∈ c.entries, ∀ n ∈ e.2.left ++ e.2.right, root.Shows n.location e.1.1
  left_rows : left.HasRows (c.entries.flatMap fun e => e.2.left)
  right_rows : right.HasRows (c.entries.flatMap fun e => e.2.right)
  left_isCutFrom : ∀ e ∈ c.entries,
    Notice.IsCutFrom e.2.left (left.shownAt root e.1.1 e.1.2)
  right_isCutFrom : ∀ e ∈ c.entries,
    Notice.IsCutFrom e.2.right (right.shownAt root e.1.1 e.1.2)
  isEmpty_iff : c.isEmpty = true ↔ left.notices = [] ∧ right.notices = []

/-- A comparison of two programs neither loses nor invents notices. -/
theorem accounts_ofPrograms (root : Path) (left right : Program) :
    (ofPrograms root left right).Accounts root left right where
  paths_ascending := SortedMap.keys_ascending _
  numbers_ascending lines _ := lines.keys_ascending.imp Nat.compare_eq_lt.mp
  nodup_places := Comparison.nodup_places _
  occupied e he := by
    obtain ⟨hshown, hsides⟩ := mem_entries_ofPrograms.mp he
    simpa only [hsides, ne_eq, Notice.splitAll_eq_nil_iff] using hshown
  place _ he := place_of_mem_entries he
  shows e he n hn := by
    rw [← place_of_mem_entries he n hn]
    exact root.shows_shown n.location
  left_rows := hasRows_flatMap_entries
    (fun e he => congrArg Sides.left (mem_entries_ofPrograms.mp he).2)
    fun n hn => place_mem_places (.inl hn)
  right_rows := hasRows_flatMap_entries
    (fun e he => congrArg Sides.right (mem_entries_ofPrograms.mp he).2)
    fun n hn => place_mem_places (.inr hn)
  left_isCutFrom e he := by
    rw [(mem_entries_ofPrograms.mp he).2]
    exact Notice.isCutFrom_splitAll _
  right_isCutFrom e he := by
    rw [(mem_entries_ofPrograms.mp he).2]
    exact Notice.isCutFrom_splitAll _
  isEmpty_iff := isEmpty_ofPrograms_iff

private def accountsLeft : Program :=
  ((Program.empty.record ⟨⟨"/r/pkg/m.py".toList⟩, 2, some 4, .note, "b\n\nc".toList⟩).record
    ⟨⟨"/r/pkg/m.py".toList⟩, 2, none, .error "misc".toList, "z".toList⟩).record
      ⟨⟨"/s/m.py".toList⟩, 1, none, .warning, "w".toList⟩

private def accountsRight : Program :=
  Program.empty.record ⟨⟨"/r/pkg/m.py".toList⟩, 2, none, .note, "b".toList⟩

/-- Errors come first, a note is cut into its rows, and a path outside the root is shown in full. -/
theorem accounts_ofPrograms_sample :
    (ofPrograms ⟨"/r".toList⟩ accountsLeft accountsRight).entries =
      [(("/s/m.py".toList, 1), ⟨[⟨⟨"/s/m.py".toList⟩, 1, none, .warning, "w".toList⟩], []⟩),
        (("pkg/m.py".toList, 2),
          ⟨[⟨⟨"/r/pkg/m.py".toList⟩, 2, none, .error "misc".toList, "z".toList⟩,
            ⟨⟨"/r/pkg/m.py".toList⟩, 2, some 4, .note, "b".toList⟩,
            ⟨⟨"/r/pkg/m.py".toList⟩, 2, some 4, .note, []⟩,
            ⟨⟨"/r/pkg/m.py".toList⟩, 2, some 4, .note, "c".toList⟩],
          [⟨⟨"/r/pkg/m.py".toList⟩, 2, none, .note, "b".toList⟩]⟩)] ∧
      (ofPrograms ⟨"/r".toList⟩ accountsLeft accountsRight).Accounts ⟨"/r".toList⟩ accountsLeft
        accountsRight :=
  ⟨by decide +kernel, accounts_ofPrograms _ _ _⟩

/-- A comparison with its sides exchanged. -/
def swap (c : Comparison) : Comparison :=
  c.mapSides fun sides => ⟨sides.right, sides.left⟩

theorem ofPrograms_eq_swap (root : Path) (p q : Program) :
    ofPrograms root q p = (ofPrograms root p q).swap := by
  refine ext_sides? (isTight_ofPrograms root q p) ((isTight_ofPrograms root p q).mapSides _)
    fun path number => ?_
  rw [swap, sides?_mapSides, sides?_ofPrograms, sides?_ofPrograms]
  by_cases h : p.shownAt root path number = [] ∧ q.shownAt root path number = []
  · rw [if_pos h, if_pos h.symm, Option.map_none]
  · rw [if_neg h, if_neg fun h' => h h'.symm, Option.map_some]

theorem isMatch_self (root : Path) (p : Program) : (ofPrograms root p p).isMatch = true := by
  rw [isMatch_ofPrograms_iff]
  exact fun path number => List.forall₂_same.mpr fun n _ => n.agrees_self

/--
Every program matches itself. The other way round, a comparison has the same entries with the sides
exchanged, the same positions of every two lists agree, and so the verdict is the same.
-/
theorem ofPrograms_exchanged (root : Path) (p q : Program) :
    (ofPrograms root p p).isMatch = true ∧
    (ofPrograms root q p).files.keys = (ofPrograms root p q).files.keys ∧
    (ofPrograms root q p).entries = (ofPrograms root p q).entries.map
      (fun e => (e.1, ⟨e.2.right, e.2.left⟩)) ∧
    (∀ left right : List Notice,
      (Pair.zip right left).map Pair.isSame = (Pair.zip left right).map Pair.isSame) ∧
    (ofPrograms root q p).isMatch = (ofPrograms root p q).isMatch := by
  refine ⟨isMatch_self root p, ?_, ?_, Pair.map_isSame_zip_comm, isMatch_comm root q p⟩
  · rw [ofPrograms_eq_swap root p q, swap, mapSides, SortedMap.keys_mapValues]
  · rw [ofPrograms_eq_swap root p q, swap, entries_mapSides]

end Comparison

end NoticeCheck
