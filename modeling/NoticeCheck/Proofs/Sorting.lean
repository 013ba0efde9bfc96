import NoticeCheck.Proofs.Severity
import NoticeCheck.Proofs.Ties

/-!
Sorting notices by place and display. The display tells all of a notice but its place, unless a
subtype has a closing bracket, so that sorting leaves no order open but that of equal notices.
-/
namespace NoticeCheck

/-- Severities are told apart by their displays whatever follows them. -/
theorem Severity.display_append_inj {s t : Severity} {rest rest' : Text}
    (hs : ∀ subtype, s = error subtype → ']' ∉ subtype)
    (ht : ∀ subtype, t = error subtype → ']' ∉ subtype)
    (h : s.display ++ rest = t.display ++ rest') : s = t ∧ rest = rest' := by
  rcases eq_or_subtypes_of_display h with heq | ⟨u, v, rfl, rfl, hinner⟩
  · exact heq
  · have hparts := Text.append_stop_inj (hs u rfl) (ht v rfl) hinner
    exact ⟨congrArg error hparts.1, hparts.2⟩

namespace Notice

/-- An error of the notice has no closing bracket in its subtype. -/
def HasClosedSubtype (n : Notice) : Prop :=
  ∀ subtype, n.severity = .error subtype → ']' ∉ subtype

/-- The part of a display behind the column. -/
def uncolumned (n : Notice) : Text :=
  "severity=".toList ++ (n.severity.display ++ (":: ".toList ++ n.message))

theorem display_of_column_none {n : Notice} (h : n.column = none) : n.display = n.uncolumned := by
  unfold display uncolumned
  rw [h]
  simp only [List.append_assoc, List.nil_append]

theorem display_of_column_some {n : Notice} {column : Nat} (h : n.column = some column) :
    n.display = "col=".toList ++ (Text.ofNat column ++ ' ' :: n.uncolumned) := by
  unfold display uncolumned
  rw [h]
  simp only [List.append_assoc, List.cons_append, List.nil_append]

variable {m n : Notice}

theorem uncolumned_inj (hm : m.HasClosedSubtype) (hn : n.HasClosedSubtype)
    (h : m.uncolumned = n.uncolumned) : m.severity = n.severity ∧ m.message = n.message := by
  unfold uncolumned at h
  rw [List.append_right_inj] at h
  have hparts := Severity.display_append_inj hm hn h
  exact ⟨hparts.1, (List.append_right_inj _).mp hparts.2⟩

/-- A message may imitate a display, but it stands behind the first colons of its own. -/
theorem display_inj (hm : m.HasClosedSubtype) (hn : n.HasClosedSubtype)
    (h : m.display = n.display) :
    m.column = n.column ∧ m.severity = n.severity ∧ m.message = n.message := by
  cases hc : m.column with
  | none =>
    cases hd : n.column with
    | none =>
      rw [display_of_column_none hc, display_of_column_none hd] at h
      exact ⟨rfl, uncolumned_inj hm hn h⟩
    | some d =>
      rw [display_of_column_none hc, display_of_column_some hd] at h
      exact absurd (List.cons.inj h).1 (by decide)
  | some c =>
    cases hd : n.column with
    | none =>
      rw [display_of_column_some hc, display_of_column_none hd] at h
      exact absurd (List.cons.inj h).1 (by decide)
    | some d =>
      rw [display_of_column_some hc, display_of_column_some hd, List.append_right_inj] at h
      have hparts := Text.append_stop_inj (Text.not_mem_ofNat rfl c) (Text.not_mem_ofNat rfl d) h
      exact ⟨congrArg some (Text.ofNat_injective hparts.1), uncolumned_inj hm hn hparts.2⟩

instance : Std.TransCmp sortOrder :=
  inferInstanceAs (Std.TransCmp
    (compareLex (compareOn location) (compareLex (compareOn line) (compareOn display))))

theorem sortOrder_eq_iff : sortOrder m n = .eq ↔
    m.location.parts = n.location.parts ∧ m.line = n.line ∧ m.display = n.display := by
  rw [sortOrder, compareLex_eq_eq, compareLex_eq_eq, compareOn, compareOn, compareOn,
    Path.compare_eq_iff, Path.same_iff, Std.LawfulEqOrd.compare_eq_iff_eq,
    Std.LawfulEqOrd.compare_eq_iff_eq]

/-- The order of notices is total, and levels no more than the spelling of locations. -/
theorem ordersUpTo_sortOrder : OrdersUpTo sortOrder HasClosedSubtype Alike := by
  apply OrdersUpTo.of_transCmp sortOrder
  · exact fun _ _ _ _ => rfl
  · intro m n hm hn
    rw [sortOrder_eq_iff]
    constructor
    · rintro ⟨hlocation, hline, hdisplay⟩
      obtain ⟨hcolumn, hseverity, hmessage⟩ := display_inj hm hn hdisplay
      exact ⟨hlocation, hline, hcolumn, hseverity, hmessage⟩
    · intro h
      refine ⟨h.location, h.line, ?_⟩
      rw [display, display, h.column, h.severity, h.message]

/-- Sorted lists are alike exactly when they were made from the same notices. -/
theorem sort_canonical :
    OrdersUpTo sortOrder HasClosedSubtype Alike ∧
      ∀ l m : List Notice, (∀ n ∈ l, n.HasClosedSubtype) → (∀ n ∈ m, n.HasClosedSubtype) →
        (sort l).Perm l ∧ (sort l).Pairwise (fun a b => (sortOrder a b).isLE) ∧
          (List.Forall₂ Alike (sort l) (sort m) ↔ ∃ k, l.Perm k ∧ List.Forall₂ Alike k m) := by
  refine ⟨ordersUpTo_sortOrder, fun l m hl hm => ?_⟩
  have hsorted : (sort l).Pairwise fun a b => (sortOrder a b).isLE := pairwise_sortBy l
  exact ⟨sortBy_perm sortOrder l, hsorted, ordersUpTo_sortOrder.forall₂_sortBy_iff hl hm⟩

private def imitating (location : Text) : Notice :=
  ⟨⟨location⟩, 1, none, .error "a".toList, "b]:: col=2 severity=note:: x".toList⟩

private def imitated (location : Text) : Notice :=
  ⟨⟨location⟩, 1, some 2, .note, "x".toList⟩

theorem sort_canonical_respelled :
    let l := [imitating "r/a.py".toList, imitated "r/a.py".toList]
    let m := [imitated "r/./a.py".toList, imitating "r//a.py".toList]
    (∀ n ∈ l, n.HasClosedSubtype) ∧ (∀ n ∈ m, n.HasClosedSubtype) ∧
      List.Forall₂ Alike (sort l) (sort m) ∧
      sort l = [imitated "r/a.py".toList, imitating "r/a.py".toList] ∧ sort m = m := by
  intro l m
  have hclosed : ∀ location, (imitating location).HasClosedSubtype := by
    rintro location _ ⟨⟩
    decide
  have hclosed' : ∀ location, (imitated location).HasClosedSubtype := fun _ => nofun
  have hl : ∀ n ∈ l, n.HasClosedSubtype := by simp [l, hclosed, hclosed']
  have hm : ∀ n ∈ m, n.HasClosedSubtype := by simp [m, hclosed, hclosed']
  have hsame : ∃ k, l.Perm k ∧ List.Forall₂ Alike k m := by
    refine ⟨_, .swap _ _ [], .cons ?_ (.cons ?_ .nil)⟩
    · exact ⟨by decide, rfl, rfl, rfl, rfl⟩
    · exact ⟨by decide, rfl, rfl, rfl, rfl⟩
  exact ⟨hl, hm, (sort_canonical.2 l m hl hm).2.2.mpr hsame, by decide, by decide⟩

end Notice

end NoticeCheck
