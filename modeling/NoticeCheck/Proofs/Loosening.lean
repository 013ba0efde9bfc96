import NoticeCheck.Proofs.Linewise
import NoticeCheck.Proofs.Pairing

/-!
Loosening notices: any error in place of one subtype, any column in place of one column. What agreed
before the loosening agrees after it.
-/
namespace NoticeCheck

namespace Notice

/-- `m` says the same as `n`, but may leave open the column or the subtype of an error. -/
structure Loosens (n m : Notice) : Prop where
  location : m.location = n.location
  line : m.line = n.line
  message : m.message = n.message
  column : m.column = n.column ∨ m.column = none
  severity : m.severity = n.severity ∨ (∃ s, n.severity = .error s) ∧ m.severity = .error []

namespace Loosens

variable {n m got want : Notice}

theorem standsFor (h : n.Loosens m) : n.StandsFor m where
  location := congrArg Path.parts h.location.symm
  line := h.line.symm
  message := h.message.symm
  severity := by
    rcases h.severity with hs | ⟨⟨s, hn⟩, hs⟩
    · exact .inl hs.symm
    · exact .inr ⟨s, [], hn, hs, .inr rfl⟩
  column c hc d hd := by
    rcases h.column with hm | hm
    · exact Option.some.inj (hc.symm.trans (hm.symm.trans hd))
    · rw [hm] at hd
      cases hd

theorem standsFor_right (h : want.Loosens m) (hgot : got.StandsFor want) : got.StandsFor m where
  location := hgot.location.trans (congrArg Path.parts h.location.symm)
  line := hgot.line.trans h.line.symm
  message := hgot.message.trans h.message.symm
  severity := by
    rcases h.severity with hs | ⟨⟨t, hwant⟩, hs⟩
    · exact hs ▸ hgot.severity
    · rcases hgot.severity with heq | ⟨s, -, hs', -, -⟩
      · exact .inr ⟨t, [], heq.trans hwant, hs, .inr rfl⟩
      · exact .inr ⟨s, [], hs', hs, .inr rfl⟩
  column c hc d hd := by
    rcases h.column with hm | hm
    · exact hgot.column c hc d (hm ▸ hd)
    · rw [hm] at hd
      cases hd

/-- Loosening is not seen by the order of pairing. -/
theorem pairingKey (h : n.Loosens m) : n.pairingKey = m.pairingKey :=
  pairingKey_of_agrees (agrees_iff_standsFor.mpr h.standsFor)

theorem splitRows (h : n.Loosens m) : List.Forall₂ Loosens n.splitRows m.splitRows :=
  rel_splitRows h.message.symm fun _ => ⟨h.location, h.line, rfl, h.column, h.severity⟩

theorem splitAll {left right : List Notice} (h : List.Forall₂ Loosens left right) :
    List.Forall₂ Loosens (Notice.splitAll left) (Notice.splitAll right) := by
  refine List.rel_flatMap (forall₂_sortBy (fun a b c d hab hcd => ?_) h) fun _ _ h => h.splitRows
  rw [pairingOrder_eq, pairingOrder_eq, hab.pairingKey, hcd.pairingKey]

end Loosens

end Notice

namespace Program

variable {p q : Program}

/-- The notices shown at a place are loosened one by one. -/
theorem shownAt_loosens (h : List.Forall₂ Notice.Loosens p.notices q.notices) (root : Path)
    (path : Text) (number : Nat) :
    List.Forall₂ Notice.Loosens (p.shownAt root path number) (q.shownAt root path number) := by
  refine List.rel_filter (fun n m hnm => ?_) h
  simp only [hnm.location, hnm.line]

/-- A program with some of its notices loosened. -/
def Loosens (p q : Program) : Prop :=
  p.Related (List.Forall₂ Notice.Loosens) q

theorem Loosens.notices (h : p.Loosens q) :
    List.Forall₂ Notice.Loosens p.notices q.notices := by
  rw [notices_eq_flatten, notices_eq_flatten]
  exact List.rel_flatten h.perLine

end Program

/-- Programs that match still match when some notices of either program are loosened. -/
theorem isMatch_of_loosens {p q : Program} (h : p.Loosens q) (root : Path) (other : Program) :
    ((Comparison.ofPrograms root other p).isMatch = true →
      (Comparison.ofPrograms root other q).isMatch = true) ∧
    ((Comparison.ofPrograms root p other).isMatch = true →
      (Comparison.ofPrograms root q other).isMatch = true) := by
  have hright : (Comparison.ofPrograms root other p).isMatch = true →
      (Comparison.ofPrograms root other q).isMatch = true := by
    simp only [Comparison.isMatch_ofPrograms_iff, Notice.agrees_iff_standsFor]
    intro hmatch path number
    have hplace := Notice.Loosens.splitAll (Program.shownAt_loosens h.notices root path number)
    exact forall₂_comp (fun _ _ _ hgot hwant => hwant.standsFor_right hgot) (hmatch path number)
      hplace
  refine ⟨hright, ?_⟩
  rwa [Comparison.isMatch_comm root p, Comparison.isMatch_comm root q]

section

private def loosenedLine (first second : Option Nat × Severity) : Program :=
  ((Program.empty.record ⟨⟨"/r/m.py".toList⟩, 3, first.1, first.2, "b".toList⟩).record
    ⟨⟨"/r/m.py".toList⟩, 3, second.1, second.2, "a".toList⟩).record
      ⟨⟨"/r/m.py".toList⟩, 3, none, .note, "c\nd".toList⟩

theorem isMatch_of_loosened_column_and_subtype :
    let strict := loosenedLine (some 7, .error "misc".toList) (some 2, .error "arg".toList)
    let loose := loosenedLine (some 7, .error []) (none, .error "arg".toList)
    strict.Loosens loose ∧
      (Comparison.ofPrograms ⟨"/r".toList⟩ strict strict).isMatch = true ∧
      (Comparison.ofPrograms ⟨"/r".toList⟩ strict loose).isMatch = true := by
  have hloosens : (loosenedLine (some 7, .error "misc".toList) (some 2, .error "arg".toList)).Loosens
      (loosenedLine (some 7, .error []) (none, .error "arg".toList)) := by
    refine .cons ⟨rfl, rfl, .cons ⟨rfl, rfl, rfl, ?_⟩ .nil, rfl⟩ .nil
    refine .cons ⟨rfl, rfl, rfl, .inl rfl, .inr ⟨⟨_, rfl⟩, rfl⟩⟩ ?_
    refine .cons ⟨rfl, rfl, rfl, .inr rfl, .inl rfl⟩ ?_
    exact .cons ⟨rfl, rfl, rfl, .inl rfl, .inl rfl⟩ .nil
  have hmatch : (Comparison.ofPrograms ⟨"/r".toList⟩
      (loosenedLine (some 7, .error "misc".toList) (some 2, .error "arg".toList))
      (loosenedLine (some 7, .error "misc".toList) (some 2, .error "arg".toList))).isMatch = true := by
    decide
  exact ⟨hloosens, hmatch, (isMatch_of_loosens hloosens _ _).1 hmatch⟩

end

end NoticeCheck
