import Mathlib.Data.List.Perm.Basic
import NoticeCheck.Proofs.Linewise
import NoticeCheck.Proofs.StableSort

/-!
Comparisons that order all elements of a kind, up to the elements they call level. Sorting by one
of them gives the same list for every arrangement of the same elements.
-/
namespace NoticeCheck

universe u

variable {α : Type u} {order : α → α → Ordering} {p : α → Prop} {level : α → α → Prop}

/-- A total order of the elements with `p`, in which only `level` elements are equal. -/
structure OrdersUpTo (order : α → α → Ordering) (p : α → Prop) (level : α → α → Prop) : Prop where
  swap : ∀ a b, p a → p b → order b a = (order a b).swap
  total : ∀ a b, p a → p b → (order a b).isLE ∨ (order b a).isLE
  trans : ∀ a b c, p a → p b → p c → (order a b).isLE → (order b c).isLE → (order a c).isLE
  eq_iff : ∀ a b, p a → p b → (order a b = .eq ↔ level a b)

namespace OrdersUpTo

/-- A comparison may be lawful on the elements of one kind only. -/
theorem of_transCmp (lawful : α → α → Ordering) [Std.TransCmp lawful]
    (hagree : ∀ a b, p a → p b → order a b = lawful a b)
    (heq : ∀ a b, p a → p b → (lawful a b = .eq ↔ level a b)) : OrdersUpTo order p level := by
  have hswap : ∀ a b, p a → p b → order b a = (order a b).swap := by
    intro a b ha hb
    rw [hagree a b ha hb, hagree b a hb ha]
    exact Std.OrientedCmp.eq_swap
  constructor
  · exact hswap
  · intro a b ha hb
    rw [hswap a b ha hb]
    cases order a b <;> simp
  · intro a b c ha hb hc hab hbc
    rw [hagree a b ha hb] at hab
    rw [hagree b c hb hc] at hbc
    rw [hagree a c ha hc]
    exact Std.TransCmp.isLE_trans hab hbc
  · intro a b ha hb
    rw [hagree a b ha hb]
    exact heq a b ha hb

theorem forall₂_iff (h : OrdersUpTo order p level) {l m : List α} (hl : ∀ a ∈ l, p a)
    (hm : ∀ b ∈ m, p b) :
    List.Forall₂ (fun a b => order a b = .eq) l m ↔ List.Forall₂ level l m := by
  have hlevel : ∀ a b, (a, b) ∈ l.zip m → (order a b = .eq ↔ level a b) := by
    intro a b hab
    have hmem := List.of_mem_zip hab
    exact h.eq_iff a b (hl a hmem.1) (hm b hmem.2)
  rw [List.forall₂_iff_zip, List.forall₂_iff_zip]
  apply and_congr_right
  intro _
  constructor
  · intro heq a b hab
    exact (hlevel a b hab).mp (heq hab)
  · intro heq a b hab
    exact (hlevel a b hab).mpr (heq hab)

end OrdersUpTo

section

variable [Std.TransCmp order] {l m : List α}

/-- Sorting gives level lists exactly when both hold the same elements, up to level ones. -/
theorem forall₂_eq_sortBy_iff : List.Forall₂ (fun a b => order a b = .eq) (sortBy order l)
    (sortBy order m) ↔ ∃ k, l.Perm k ∧ List.Forall₂ (fun a b => order a b = .eq) k m := by
  constructor
  · intro h
    have hcomp := congrFun (congrFun (List.forall₂_comp_perm_eq_perm_comp_forall₂
      (r := fun a b => order a b = .eq)) (sortBy order l)) m
    obtain ⟨k, hk, hkm⟩ := hcomp.mp ⟨_, h, sortBy_perm order m⟩
    exact ⟨k, (sortBy_perm order l).symm.trans hk, hkm⟩
  · rintro ⟨k, hk, hkm⟩
    have hcongr : ∀ a b c d, order a b = .eq → order c d = .eq → order a c = order b d := by
      intro a b c d hab hcd
      rw [Std.TransCmp.congr_left hab, Std.TransCmp.congr_right hcd]
    exact forall₂_comp (fun _ _ _ => Std.TransCmp.eq_trans) (forall₂_sortBy_of_perm hk)
      (forall₂_sortBy hcongr hkm)

/-- Sorting is canonical on the elements of the kind that the order is total on. -/
theorem OrdersUpTo.forall₂_sortBy_iff (h : OrdersUpTo order p level) (hl : ∀ a ∈ l, p a)
    (hm : ∀ b ∈ m, p b) : List.Forall₂ level (sortBy order l) (sortBy order m) ↔
      ∃ k, l.Perm k ∧ List.Forall₂ level k m := by
  have hsorted : ∀ {l : List α}, (∀ a ∈ l, p a) → ∀ a ∈ sortBy order l, p a := by
    intro l hl a ha
    exact hl a ((sortBy_perm order l).mem_iff.mp ha)
  rw [← h.forall₂_iff (hsorted hl) (hsorted hm), forall₂_eq_sortBy_iff]
  apply exists_congr
  intro k
  apply and_congr_right
  intro hk
  exact h.forall₂_iff (fun a ha => hl a (hk.mem_iff.mpr ha)) hm

end

end NoticeCheck
