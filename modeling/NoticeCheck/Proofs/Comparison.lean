import Mathlib.Data.List.Forall2
import NoticeCheck.Comparison
import NoticeCheck.Proofs.SortedMap

/-!
Comparisons by what they hold for a shown path and a line number. A comparison is a match exactly
when the two sides agree, position by position, at every path and number.
-/
namespace NoticeCheck

/-- The notices of a program that are shown at `path` under `root` and are about line `number`. -/
def Program.shownAt (p : Program) (root : Path) (path : Text) (number : Nat) : List Notice :=
  p.notices.filter fun n => root.shown n.location == path && n.line == number

namespace Pair

theorem all_isSame_zip_iff {left right : List Notice} :
    (Pair.zip left right).all isSame = true ↔
      List.Forall₂ (fun got want => want.agrees got = true) left right := by
  induction left generalizing right with
  | nil => cases right <;> simp [Pair.zip, isSame]
  | cons got left ih =>
    cases right with
    | nil => simp [Pair.zip, isSame]
    | cons want right =>
      rw [Pair.zip, List.all_cons, Bool.and_eq_true, ih, List.forall₂_cons]
      by_cases h : want.agrees got = true <;> simp [h, isSame]

/-- The pair at a position of two lists, by what is there on either side. -/
def of? : Option Notice → Option Notice → Option Pair
  | none, none => none
  | some got, some want =>
    some (if want.agrees got then .same got else .different (some got) (some want))
  | got, want => some (.different got want)

theorem getElem?_zip (left right : List Notice) (i : Nat) :
    (zip left right)[i]? = of? left[i]? right[i]? := by
  induction left generalizing right i with
  | nil =>
    rw [zip, List.getElem?_map, List.getElem?_nil]
    cases right[i]? <;> rfl
  | cons got left ih =>
    cases right with
    | nil => cases i with
      | zero => rfl
      | succ i => exact ih [] i
    | cons want right => cases i with
      | zero => rfl
      | succ i => exact ih right i

theorem of?_cases (got want : Option Notice) :
    (of? got want = none ∧ got = none ∧ want = none) ∨
      (∃ n, got = some n ∧ of? got want = some (.same n)) ∨
        of? got want = some (.different got want) := by
  cases got with
  | none => cases want with
    | none => exact .inl ⟨rfl, rfl, rfl⟩
    | some want => exact .inr (.inr rfl)
  | some got => cases want with
    | none => exact .inr (.inr rfl)
    | some want =>
      by_cases h : want.agrees got = true
      · exact .inr (.inl ⟨got, rfl, congrArg some (if_pos h)⟩)
      · exact .inr (.inr (congrArg some (if_neg h)))

theorem mem_of_mem_zip {left right : List Notice} {p : Pair} (h : p ∈ zip left right) :
    (∃ n ∈ left, p = .same n) ∨ ∃ got want, p = .different got want ∧
      (∀ n ∈ got, n ∈ left) ∧ ∀ n ∈ want, n ∈ right := by
  obtain ⟨i, hi⟩ := List.mem_iff_getElem?.mp h
  rw [getElem?_zip] at hi
  rcases of?_cases left[i]? right[i]? with ⟨hnone, -⟩ | ⟨n, hn, hsame⟩ | hdifferent
  · rw [hnone] at hi
    cases hi
  · rw [hsame] at hi
    exact .inl ⟨n, List.mem_of_getElem? hn, (Option.some.inj hi).symm⟩
  · rw [hdifferent] at hi
    exact .inr ⟨_, _, (Option.some.inj hi).symm, fun n hn => List.mem_of_getElem? hn,
      fun n hn => List.mem_of_getElem? hn⟩

end Pair

namespace Sides

theorem foldl_push_left (notices : List Notice) (s : Sides) :
    notices.foldl (fun s n => s.push .left n) s = { s with left := s.left ++ notices } := by
  induction notices generalizing s with
  | nil => simp
  | cons n notices ih => rw [List.foldl_cons, ih]; simp [push]

theorem foldl_push_right (notices : List Notice) (s : Sides) :
    notices.foldl (fun s n => s.push .right n) s = { s with right := s.right ++ notices } := by
  induction notices generalizing s with
  | nil => simp
  | cons n notices ih => rw [List.foldl_cons, ih]; simp [push]

end Sides

namespace Comparison

/-- Both sides at a path and a number, empty where there is no entry. -/
def sidesAt (c : Comparison) (path : Text) (number : Nat) : Sides :=
  (((c.files.get? path).getD .empty).get? number).getD {}

@[simp] theorem sidesAt_empty (path : Text) (number : Nat) :
    empty.sidesAt path number = {} := rfl

theorem sidesAt_push (root : Path) (side : Side) (c : Comparison) (n : Notice) (path : Text)
    (number : Nat) :
    (c.push root side n).sidesAt path number =
      if root.shown n.location = path ∧ n.line = number then (c.sidesAt path number).push side n
      else c.sidesAt path number := by
  simp only [sidesAt, push, SortedMap.get?_update, Std.LawfulEqOrd.compare_eq_iff_eq]
  by_cases hp : path = root.shown n.location
  · by_cases hn : number = n.line
    · simp [hp, hn, SortedMap.get?_update]
    · simp [hp, hn, Ne.symm hn, SortedMap.get?_update]
  · simp [hp, Ne.symm hp]

theorem sidesAt_foldl_push (root : Path) (side : Side) (notices : List Notice) (c : Comparison)
    (path : Text) (number : Nat) :
    (notices.foldl (push root side) c).sidesAt path number =
      (notices.filter fun n => root.shown n.location == path && n.line == number).foldl
        (fun s n => s.push side n) (c.sidesAt path number) := by
  induction notices generalizing c with
  | nil => rfl
  | cons n notices ih =>
    rw [List.foldl_cons, ih, sidesAt_push]
    by_cases h : root.shown n.location = path ∧ n.line = number <;> simp [h]

/-- What a comparison of two programs has on each side. -/
theorem sidesAt_ofPrograms (root : Path) (left right : Program) (path : Text) (number : Nat) :
    (ofPrograms root left right).sidesAt path number =
      ⟨Notice.splitAll (left.shownAt root path number),
        Notice.splitAll (right.shownAt root path number)⟩ := by
  have hsplit : ∀ c : Comparison,
      (⟨c.files.mapValues fun lines => lines.mapValues Sides.split⟩ : Comparison).sidesAt
        path number = (c.sidesAt path number).split := by
    intro c
    simp only [sidesAt, SortedMap.get?_mapValues]
    cases c.files.get? path with
    | none => rfl
    | some lines =>
      simp only [Option.map_some, Option.getD_some, SortedMap.get?_mapValues]
      cases lines.get? number <;> rfl
  rw [ofPrograms, hsplit, sidesAt_foldl_push, sidesAt_foldl_push, sidesAt_empty,
    Sides.foldl_push_left, Sides.foldl_push_right]
  rfl

theorem isMatch_iff_sidesAt (c : Comparison) :
    c.isMatch = true ↔ ∀ path number, (c.sidesAt path number).pairs.all Pair.isSame = true := by
  simp only [isMatch, List.all_eq_true, SortedMap.forall_values_iff]
  constructor
  · intro h path number
    cases hp : c.files.get? path with
    | none => simp [sidesAt, hp, Sides.pairs, Pair.zip]
    | some lines =>
      cases hn : lines.get? number with
      | none => simp [sidesAt, hp, hn, Sides.pairs, Pair.zip]
      | some sides => simpa [sidesAt, hp, hn] using h path lines hp number sides hn
  · intro h path lines hp number sides hn
    simpa [sidesAt, hp, hn] using h path number

/-- A match: at every shown path and line number the two sides agree position by position. -/
theorem isMatch_ofPrograms_iff (root : Path) (left right : Program) :
    (ofPrograms root left right).isMatch = true ↔ ∀ path number,
      List.Forall₂ (fun got want => want.agrees got = true)
        (Notice.splitAll (left.shownAt root path number))
        (Notice.splitAll (right.shownAt root path number)) := by
  simp only [isMatch_iff_sidesAt, sidesAt_ofPrograms, Sides.pairs, Pair.all_isSame_zip_iff]

end Comparison

end NoticeCheck
