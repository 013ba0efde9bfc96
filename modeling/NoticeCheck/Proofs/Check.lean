import Mathlib.Data.List.Dedup
import Mathlib.Data.List.Perm.Basic
import NoticeCheck.Proofs.Comparison
import NoticeCheck.Proofs.Splitting
import NoticeCheck.Transcript

/-!
What a passing check means: the rows reported and the rows expected correspond one to one.
-/
namespace NoticeCheck

/-- A reported notice stands for an expected one. -/
structure Notice.StandsFor (got want : Notice) : Prop where
  location : got.location.parts = want.location.parts
  line : got.line = want.line
  message : got.message = want.message
  severity : got.severity = want.severity ∨
    ∃ s t, got.severity = .error s ∧ want.severity = .error t ∧ (s = [] ∨ t = [])
  column : ∀ c ∈ got.column, ∀ d ∈ want.column, c = d

theorem eq_ok_of_toOption {ε α : Type} {x : Except ε α} {a : α} (h : x.toOption = some a) :
    x = .ok a := by
  cases x with
  | error e => cases h
  | ok b => exact congrArg _ (Option.some.inj h)

theorem Comparison.require_eq_ok_iff (c : Comparison) :
    c.require = .ok () ↔ c.isMatch = true := by
  rw [require, Report.require, Report.isDifferent_ofComparison]
  cases c.isMatch with
  | false => exact iff_of_false nofun nofun
  | true => exact iff_of_true rfl rfl

/-- A check passes when the transcript can be read and agrees with what was expected. -/
theorem checkTranscript_eq_ok_iff (expected : Program) (stdout : Text) (normaliser : Normaliser)
    (root : Path) :
    checkTranscript expected stdout normaliser root = .ok () ↔ ∃ reported,
      Program.empty.addLines normaliser root (Transcript.noticeLines stdout) = .ok reported ∧
        (Comparison.ofPrograms root reported expected).isMatch = true := by
  unfold checkTranscript
  cases h : Program.empty.addLines normaliser root (Transcript.noticeLines stdout) with
  | error e => simp [Except.mapError, bind, Except.bind]
  | ok reported =>
    simp only [Except.ok.injEq, exists_eq_left', ← Comparison.require_eq_ok_iff]
    change (Comparison.ofPrograms root reported expected).require.mapError _ = _ ↔ _
    cases (Comparison.ofPrograms root reported expected).require <;> simp [Except.mapError]

theorem Severity.agrees_iff (s t : Severity) :
    s.agrees t = true ↔
      s = t ∨ ∃ u v, s = .error u ∧ t = .error v ∧ (u = [] ∨ v = []) := by
  cases s <;> cases t <;> simp [agrees, or_assoc]

theorem Notice.standsFor_of_agrees {got want : Notice} (h : want.agrees got = true) :
    got.StandsFor want := by
  simp only [agrees, Path.same, Bool.and_eq_true, beq_iff_eq] at h
  obtain ⟨⟨⟨⟨hcolumn, hlocation⟩, hline⟩, hseverity⟩, hmessage⟩ := h
  refine ⟨hlocation.symm, hline.symm, hmessage.symm, ?_, fun c hc d hd => ?_⟩
  · rcases (Severity.agrees_iff _ _).mp hseverity with h | ⟨u, v, hu, hv, h⟩
    · exact .inl h.symm
    · exact .inr ⟨v, u, hv, hu, h.symm⟩
  · rw [Option.mem_def] at hc hd
    simp only [hc, hd, beq_iff_eq] at hcolumn
    exact hcolumn.symm

theorem Notice.agrees_iff_standsFor {got want : Notice} :
    want.agrees got = true ↔ got.StandsFor want := by
  constructor
  · exact standsFor_of_agrees
  · rintro ⟨hlocation, hline, hmessage, hseverity, hcolumn⟩
    have hseverity' : want.severity.agrees got.severity = true := by
      refine (Severity.agrees_iff _ _).mpr ?_
      rcases hseverity with h | ⟨s, t, hs, ht, h⟩
      · exact .inl h.symm
      · exact .inr ⟨t, s, ht, hs, h.symm⟩
    simp only [agrees, Path.same, hlocation, hline, hmessage, hseverity', beq_self_eq_true,
      Bool.and_true]
    split
    · next c d hc hd => exact beq_iff_eq.mpr (hcolumn d hd c hc).symm
    · rfl

theorem Notice.StandsFor.symm {got want : Notice} (h : got.StandsFor want) :
    want.StandsFor got where
  location := h.location.symm
  line := h.line.symm
  message := h.message.symm
  severity := by
    rcases h.severity with hs | ⟨s, t, hs, ht, hor⟩
    · exact .inl hs.symm
    · exact .inr ⟨t, s, ht, hs, hor.symm⟩
  column c hc d hd := (h.column d hd c hc).symm

/-- Whether two programs match does not depend on which of them is the expected one. -/
theorem Comparison.isMatch_comm (root : Path) (p q : Program) :
    (ofPrograms root p q).isMatch = (ofPrograms root q p).isMatch := by
  have hflip : ∀ p q : Program, (ofPrograms root p q).isMatch = true →
      (ofPrograms root q p).isMatch = true := by
    intro p q h
    simp only [isMatch_ofPrograms_iff, Notice.agrees_iff_standsFor] at h ⊢
    exact fun path number => ((h path number).imp fun _ _ hgot => hgot.symm).flip
  exact Bool.eq_iff_iff.mpr ⟨hflip p q, hflip q p⟩

theorem Notice.splitAll_perm (notices : List Notice) :
    (splitAll notices).Perm (notices.flatMap splitRows) :=
  (sortBy_perm pairingOrder notices).flatMap_right splitRows

/-- Collecting by key, key after key, rearranges a list. -/
theorem perm_flatMap_filter {α κ : Type*} [DecidableEq κ] (key : α → κ) {keys : List κ}
    (hkeys : keys.Nodup) {l : List α} (hl : ∀ x ∈ l, key x ∈ keys) :
    (keys.flatMap fun k => l.filter fun x => key x = k).Perm l := by
  induction keys generalizing l with
  | nil => simp [List.eq_nil_iff_forall_not_mem.mpr fun x hx => List.not_mem_nil (hl x hx)]
  | cons k keys ih =>
    obtain ⟨hk, hkeys⟩ := List.nodup_cons.mp hkeys
    have hothers : (keys.flatMap fun j => l.filter fun x => key x = j) =
        keys.flatMap fun j => (l.filter fun x => !decide (key x = k)).filter fun x => key x = j := by
      refine List.flatMap_congr fun j hj => ?_
      have hne : j ≠ k := fun h => hk (h ▸ hj)
      rw [List.filter_filter]
      refine List.filter_congr fun x _ => ?_
      by_cases hx : key x = j <;> simp [hx, hne]
    have hrest := ih hkeys (l := l.filter fun x => !decide (key x = k)) fun x hx => by
      obtain ⟨hx, hne⟩ := List.mem_filter.mp hx
      rcases List.mem_cons.mp (hl x hx) with h | h
      · simp [h] at hne
      · exact h
    rw [List.flatMap_cons, hothers]
    exact (hrest.append_left _).trans (List.filter_append_perm (fun x => decide (key x = k)) l)

/-- The shown path and the line number that notices are compared by. -/
def Notice.place (root : Path) (n : Notice) : Text × Nat :=
  (root.shown n.location, n.line)

namespace Program

theorem shownAt_eq_filter_place (p : Program) (root : Path) (place : Text × Nat) :
    p.shownAt root place.1 place.2 = p.notices.filter fun n => n.place root = place := by
  simp [shownAt, Notice.place, Prod.ext_iff, Bool.decide_and, beq_eq_decide]

/-- The rows of a program as they are compared, place after place. -/
def rowsAt (p : Program) (root : Path) (places : List (Text × Nat)) : List Notice :=
  places.flatMap fun place => Notice.splitAll (p.shownAt root place.1 place.2)

/-- Going through all places of a program meets each of its rows once. -/
theorem hasRows_rowsAt {p : Program} {root : Path} {places : List (Text × Nat)}
    (hplaces : places.Nodup) (h : ∀ n ∈ p.notices, n.place root ∈ places) :
    p.HasRows (p.rowsAt root places) := by
  have hsplit : (p.rowsAt root places).Perm ((places.flatMap fun place =>
      p.notices.filter fun n => n.place root = place).flatMap Notice.splitRows) := by
    rw [List.flatMap_assoc]
    refine List.Perm.flatMap_left _ fun place _ => ?_
    rw [shownAt_eq_filter_place]
    exact Notice.splitAll_perm _
  apply hasRows_iff.mpr
  exact hsplit.trans ((perm_flatMap_filter (Notice.place root) hplaces h).flatMap_right _)

/-- Programs that match agree row by row, whatever places are gone through. -/
theorem rowsAt_agrees {root : Path} {left right : Program}
    (h : (Comparison.ofPrograms root left right).isMatch = true) (places : List (Text × Nat)) :
    List.Forall₂ (fun got want => want.agrees got = true)
      (left.rowsAt root places) (right.rowsAt root places) := by
  rw [Comparison.isMatch_ofPrograms_iff] at h
  refine List.rel_flatMap (List.forall₂_same.mpr fun _ _ => rfl) ?_
  rintro place _ rfl
  exact h place.1 place.2

end Program

/--
When a check passes, the transcript was read without an error, and each reported row stands for one
expected row: none is left over on either side.
-/
theorem checkTranscript_sound {expected : Program} {stdout : Text} {normaliser : Normaliser}
    {root : Path} (h : checkTranscript expected stdout normaliser root = .ok ()) :
    ∃ reported,
      Program.empty.addLines normaliser root (Transcript.noticeLines stdout) = .ok reported ∧
      ∃ pairs : List (Notice × Notice),
        reported.HasRows (pairs.map Prod.fst) ∧ expected.HasRows (pairs.map Prod.snd) ∧
        ∀ pair ∈ pairs, pair.1.StandsFor pair.2 := by
  obtain ⟨reported, hread, hmatch⟩ := (checkTranscript_eq_ok_iff _ _ _ _).mp h
  obtain ⟨places, hplaces, hall⟩ : ∃ places : List (Text × Nat), places.Nodup ∧
      ∀ n, n ∈ reported.notices ∨ n ∈ expected.notices → n.place root ∈ places :=
    ⟨((reported.notices ++ expected.notices).map (Notice.place root)).dedup, List.nodup_dedup _,
      fun n hn => List.mem_dedup.mpr (List.mem_map_of_mem (List.mem_append.mpr hn))⟩
  have hagree := Program.rowsAt_agrees hmatch places
  refine ⟨reported, hread, (reported.rowsAt root places).zip (expected.rowsAt root places),
    ?_, ?_, ?_⟩
  · rw [List.map_fst_zip (Nat.le_of_eq hagree.length_eq)]
    exact Program.hasRows_rowsAt hplaces fun n hn => hall n (.inl hn)
  · rw [List.map_snd_zip (Nat.le_of_eq hagree.length_eq.symm)]
    exact Program.hasRows_rowsAt hplaces fun n hn => hall n (.inr hn)
  · rintro ⟨got, want⟩ hpair
    exact Notice.standsFor_of_agrees (List.forall₂_zip hagree hpair)

private def sampleExpected : Program :=
  (Program.empty.record ⟨⟨"/r/m.py".toList⟩, 3, none, .note, "b\nc".toList⟩).record
    ⟨⟨"/r/m.py".toList⟩, 3, none, .error [], "bad".toList⟩

private def sampleTranscript : Text :=
  "m.py:3:7: error: bad  [misc]\nm.py:3: note: b\nm.py:3: note: c\nFound 1 error\n".toList

theorem checkTranscript_sound_sample :
    checkTranscript sampleExpected sampleTranscript (.ofFunction some) ⟨"/r".toList⟩ = .ok () ∧
      ∃ reported, Program.empty.addLines (.ofFunction some) ⟨"/r".toList⟩
          (Transcript.noticeLines sampleTranscript) = .ok reported ∧
        ∃ pairs : List (Notice × Notice), reported.HasRows (pairs.map Prod.fst) ∧
          sampleExpected.HasRows (pairs.map Prod.snd) ∧
          ∀ pair ∈ pairs, pair.1.StandsFor pair.2 := by
  have hpasses : checkTranscript sampleExpected sampleTranscript (.ofFunction some)
      ⟨"/r".toList⟩ = .ok () := rfl
  exact ⟨hpasses, checkTranscript_sound hpasses⟩

end NoticeCheck
