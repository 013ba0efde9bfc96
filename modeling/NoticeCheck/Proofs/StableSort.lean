import Mathlib.Data.List.Forall2
import NoticeCheck.StableSort

/-!
Sorted lists, and sorting two kinds of elements one after the other. Level elements keep their
order, and their order is all that sorting leaves open.
-/
namespace NoticeCheck

universe u

variable {α : Type u} {order : α → α → Ordering}

theorem pairwise_insertBy [Std.TransCmp order] (a : α) {l : List α}
    (h : l.Pairwise fun a b => (order a b).isLE) :
    (insertBy order a l).Pairwise fun a b => (order a b).isLE := by
  induction l with
  | nil => simp [insertBy]
  | cons b l ih =>
    obtain ⟨hb, hl⟩ := List.pairwise_cons.mp h
    rw [insertBy]
    split
    · next hab =>
      refine List.pairwise_cons.mpr ⟨fun c hc => ?_, h⟩
      rcases List.mem_cons.mp hc with rfl | hc
      · exact hab
      · exact Std.TransCmp.isLE_trans hab (hb c hc)
    · next hab =>
      refine List.pairwise_cons.mpr ⟨fun c hc => ?_, ih hl⟩
      rcases List.mem_cons.mp ((insertBy_perm order a l).mem_iff.mp hc) with rfl | hc
      · have hgt : order c b = .gt := by
          cases horder : order c b <;> simp [horder] at hab ⊢
        exact Ordering.isLE_of_eq_lt (Std.OrientedCmp.lt_of_gt hgt)
      · exact hb c hc

theorem pairwise_sortBy [Std.TransCmp order] (l : List α) :
    (sortBy order l).Pairwise fun a b => (order a b).isLE := by
  induction l with
  | nil => exact .nil
  | cons a l ih => exact pairwise_insertBy a ih

private theorem insertBy_append_left (a : α) {first second : List α}
    (h : ∀ b ∈ second, (order a b).isLE) :
    insertBy order a (first ++ second) = insertBy order a first ++ second := by
  induction first with
  | nil =>
    cases second with
    | nil => rfl
    | cons b second => simp [insertBy, h b List.mem_cons_self]
  | cons b first ih =>
    rw [List.cons_append, insertBy, insertBy]
    split
    · rfl
    · rw [ih, List.cons_append]

private theorem insertBy_append_right (a : α) {first second : List α}
    (h : ∀ b ∈ first, order a b = .gt) :
    insertBy order a (first ++ second) = first ++ insertBy order a second := by
  induction first with
  | nil => rfl
  | cons b first ih =>
    have hb : ¬(order a b).isLE := by simp [h b List.mem_cons_self]
    rw [List.cons_append, insertBy, if_neg hb, ih fun c hc => h c (List.mem_cons_of_mem _ hc),
      List.cons_append]

/-- Elements of one kind, all below those of the other kind, can be sorted apart. -/
theorem sortBy_eq_append [Std.OrientedCmp order] (p : α → Bool)
    (h : ∀ a b, p a = true → p b = false → order a b = .lt) (l : List α) :
    sortBy order l =
      sortBy order (l.filter p) ++ sortBy order (l.filter fun a => !p a) := by
  induction l with
  | nil => rfl
  | cons a l ih =>
    have hfirst : ∀ b ∈ sortBy order (l.filter p), p b = true := fun b hb =>
      (List.mem_filter.mp ((sortBy_perm order _).mem_iff.mp hb)).2
    have hsecond : ∀ b ∈ sortBy order (l.filter fun a => !p a), p b = false := fun b hb => by
      simpa using (List.mem_filter.mp ((sortBy_perm order _).mem_iff.mp hb)).2
    cases ha : p a with
    | true =>
      have hbelow : ∀ b ∈ sortBy order (l.filter fun a => !p a), (order a b).isLE :=
        fun b hb => Ordering.isLE_of_eq_lt (h a b ha (hsecond b hb))
      rw [List.filter_cons_of_pos ha, List.filter_cons_of_neg (by simp [ha]), sortBy, ih,
        insertBy_append_left a hbelow, sortBy]
    | false =>
      have habove : ∀ b ∈ sortBy order (l.filter p), order a b = .gt :=
        fun b hb => Std.OrientedCmp.gt_of_lt (h b a (hfirst b hb) ha)
      rw [List.filter_cons_of_neg (by simp [ha]), List.filter_cons_of_pos (by simp [ha]), sortBy,
        ih, insertBy_append_right a habove, sortBy]

section

variable {p : α → Bool}

private theorem filter_insertBy (hp : ∀ a b, p a = true → p b = true → (order a b).isLE) (a : α)
    (l : List α) : (insertBy order a l).filter p = (a :: l).filter p := by
  induction l with
  | nil => rfl
  | cons b l ih =>
    rw [insertBy]
    split
    · rfl
    · next hab =>
      rw [List.filter_cons, ih]
      by_cases ha : p a = true
      · have hb : ¬p b = true := fun hb => hab (hp a b ha hb)
        simp [ha, hb]
      · simp [ha, List.filter_cons]

/-- Sorting is stable: it keeps the order of elements that are level with each other. -/
theorem filter_sortBy (hp : ∀ a b, p a = true → p b = true → (order a b).isLE) (l : List α) :
    (sortBy order l).filter p = l.filter p := by
  induction l with
  | nil => rfl
  | cons a l ih => rw [sortBy, filter_insertBy hp, List.filter_cons, ih, List.filter_cons]

end

section

variable {R : α → α → Prop}

private theorem forall₂_insertBy (hR : ∀ a b c d, R a b → R c d → order a c = order b d)
    {a b : α} (hab : R a b) {l m : List α} (h : List.Forall₂ R l m) :
    List.Forall₂ R (insertBy order a l) (insertBy order b m) := by
  induction h with
  | nil => exact .cons hab .nil
  | @cons c d l m hcd h ih =>
    rw [insertBy, insertBy, hR a b c d hab hcd]
    split
    · exact .cons hab (.cons hcd h)
    · exact .cons hcd ih

/-- A relation that the order does not see survives sorting. -/
theorem forall₂_sortBy (hR : ∀ a b c d, R a b → R c d → order a c = order b d) {l m : List α}
    (h : List.Forall₂ R l m) : List.Forall₂ R (sortBy order l) (sortBy order m) := by
  induction h with
  | nil => exact .nil
  | cons hab _ ih => exact forall₂_insertBy hR hab ih

/-- Sorting commutes with a map that the order does not see. -/
theorem sortBy_map {g : α → α} (hg : ∀ a b, order (g a) (g b) = order a b) (l : List α) :
    sortBy order (l.map g) = (sortBy order l).map g := by
  have hsorted : List.Forall₂ (fun a b => a = g b) (sortBy order (l.map g)) (sortBy order l) := by
    refine forall₂_sortBy ?_ (List.forall₂_map_left_iff.mpr (List.forall₂_same.mpr fun _ _ => rfl))
    rintro _ b _ d rfl rfl
    exact hg b d
  exact List.forall₂_eq_eq_eq ▸ List.forall₂_map_right_iff.mpr hsorted

private theorem isLE_of_filter_ne_nil [Std.TransCmp order] {a b : α} {l : List α}
    (hl : (b :: l).Pairwise fun a b => (order a b).isLE)
    (h : ((b :: l).filter fun c => order c a == .eq) ≠ []) : (order b a).isLE := by
  obtain ⟨c, hc⟩ := List.exists_mem_of_ne_nil _ h
  obtain ⟨hmem, hca⟩ := List.mem_filter.mp hc
  have hle : (order c a).isLE := by simp [beq_iff_eq.mp hca]
  rcases List.mem_cons.mp hmem with rfl | hmem
  · exact hle
  · exact Std.TransCmp.isLE_trans ((List.pairwise_cons.mp hl).1 c hmem) hle

/-- Sorted lists are related when their level elements are, level by level. -/
theorem forall₂_of_filter [Std.TransCmp order] {l m : List α}
    (hl : l.Pairwise fun a b => (order a b).isLE) (hm : m.Pairwise fun a b => (order a b).isLE)
    (h : ∀ k, List.Forall₂ R (l.filter fun a => order a k == .eq)
      (m.filter fun a => order a k == .eq)) : List.Forall₂ R l m := by
  have hlevel : ∀ a, (order a a == .eq) = true := fun a => beq_iff_eq.mpr Std.ReflCmp.compare_self
  have hself : ∀ a l, ((a :: l).filter fun c => order c a == .eq) =
      a :: l.filter fun c => order c a == .eq := fun a l => List.filter_cons_of_pos (hlevel a)
  induction l generalizing m with
  | nil =>
    cases m with
    | nil => exact .nil
    | cons b m =>
      have hb := h b
      rw [hself] at hb
      cases hb
  | cons a l ih =>
    cases m with
    | nil =>
      have ha := h a
      rw [hself] at ha
      cases ha
    | cons b m =>
      -- each head is level with some element of the other list, so the heads are level
      have hba : (order b a).isLE := isLE_of_filter_ne_nil hm fun hnil => by
        have ha := h a
        rw [hnil, hself] at ha
        cases ha
      have hab : (order a b).isLE := isLE_of_filter_ne_nil hl fun hnil => by
        have hb := h b
        rw [hnil, hself] at hb
        cases hb
      have hsame : ∀ k, order a k = order b k := fun k =>
        Std.TransCmp.congr_left (Std.OrientedCmp.isLE_antisymm hab hba)
      refine .cons ?_ (ih (List.pairwise_cons.mp hl).2 (List.pairwise_cons.mp hm).2 fun k => ?_)
      · have ha := h a
        rw [hself, List.filter_cons_of_pos (hsame a ▸ hlevel a)] at ha
        exact (List.forall₂_cons.mp ha).1
      · have hk := h k
        rw [List.filter_cons, List.filter_cons, ← hsame k] at hk
        split at hk
        · exact (List.forall₂_cons.mp hk).2
        · exact hk

end

/-- Two lists of the same elements are sorted into lists that are level position by position. -/
theorem forall₂_sortBy_of_perm [Std.TransCmp order] {l m : List α} (h : l.Perm m) :
    List.Forall₂ (fun a b => order a b = .eq) (sortBy order l) (sortBy order m) := by
  have hperm : (sortBy order l).Perm (sortBy order m) :=
    ((sortBy_perm order l).trans h).trans (sortBy_perm order m).symm
  apply forall₂_of_filter (pairwise_sortBy l) (pairwise_sortBy m)
  intro k
  have hfilter := hperm.filter fun a => order a k == .eq
  rw [List.forall₂_iff_zip]
  constructor
  · exact hfilter.length_eq
  · intro a b hab
    have hmem := List.of_mem_zip hab
    have ha : order a k = .eq := beq_iff_eq.mp (List.mem_filter.mp hmem.1).2
    have hb : order b k = .eq := beq_iff_eq.mp (List.mem_filter.mp hmem.2).2
    exact Std.TransCmp.eq_trans ha (Std.OrientedCmp.eq_symm hb)

end NoticeCheck
