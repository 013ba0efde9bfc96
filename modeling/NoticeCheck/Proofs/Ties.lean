import NoticeCheck.Proofs.Linewise
import NoticeCheck.Proofs.Pairing

/-!
Notices that are level when they are paired keep the order they were recorded in. Programs with the
same notices in another order pass the same comparisons exactly when this order is the same.
-/
namespace NoticeCheck

namespace Notice

/-- Notices that differ at most in the spelling of their location. -/
structure Alike (m n : Notice) : Prop where
  location : m.location.parts = n.location.parts
  line : m.line = n.line
  column : m.column = n.column
  severity : m.severity = n.severity
  message : m.message = n.message

theorem Alike.refl (n : Notice) : n.Alike n :=
  ⟨rfl, rfl, rfl, rfl, rfl⟩

theorem Alike.symm {m n : Notice} (h : m.Alike n) : n.Alike m :=
  ⟨h.location.symm, h.line.symm, h.column.symm, h.severity.symm, h.message.symm⟩

theorem Alike.pairingKey {m n : Notice} (h : m.Alike n) : m.pairingKey = n.pairingKey := by
  simp only [Notice.pairingKey, kindRank, h.severity, h.message]

theorem Alike.splitRows {m n : Notice} (h : m.Alike n) :
    List.Forall₂ Alike m.splitRows n.splitRows :=
  rel_splitRows h.message fun _ => ⟨h.location, h.line, h.column, h.severity, rfl⟩

theorem StandsFor.congr {got got' want want' : Notice} (hgot : got.Alike got')
    (hwant : want.Alike want') (h : got.StandsFor want) : got'.StandsFor want' where
  location := hgot.location.symm.trans (h.location.trans hwant.location)
  line := hgot.line.symm.trans (h.line.trans hwant.line)
  message := hgot.message.symm.trans (h.message.trans hwant.message)
  severity := hgot.severity ▸ hwant.severity ▸ h.severity
  column := hgot.column ▸ hwant.column ▸ h.column

theorem pairingOrder_beq_eq (m n : Notice) :
    (pairingOrder m n == .eq) = decide (m.pairingKey = n.pairingKey) := by
  rw [Bool.eq_iff_iff, beq_iff_eq, decide_eq_true_iff, pairingOrder, compareLex_eq_eq,
    compareOn, compareOn, Std.LawfulEqOrd.compare_eq_iff_eq, Std.LawfulEqOrd.compare_eq_iff_eq,
    pairingKey, pairingKey, Prod.mk.injEq]

/-- Sorting for pairing keeps level notices in the order they were recorded in. -/
theorem filter_sortBy_pairingKey (key : Nat × Text) (notices : List Notice) :
    (sortBy pairingOrder notices).filter (fun n => n.pairingKey = key) =
      notices.filter fun n => n.pairingKey = key := by
  refine filter_sortBy (fun m n hm hn => ?_) notices
  have hlevel : m.pairingKey = n.pairingKey :=
    (of_decide_eq_true hm).trans (of_decide_eq_true hn).symm
  have heq := pairingOrder_beq_eq m n
  rw [decide_eq_true hlevel, beq_iff_eq] at heq
  rw [heq]
  rfl

/-- The same notices are sorted to the same keys. -/
theorem map_pairingKey_sortBy {l m : List Notice} (h : l.Perm m) :
    (sortBy pairingOrder l).map pairingKey = (sortBy pairingOrder m).map pairingKey := by
  rw [← List.forall₂_eq_eq_eq, List.forall₂_map_left_iff, List.forall₂_map_right_iff]
  apply (forall₂_sortBy_of_perm h).imp
  intro a b hab
  have hlevel := pairingOrder_beq_eq a b
  rw [hab, beq_self_eq_true] at hlevel
  exact of_decide_eq_true hlevel.symm

/-- A notice that leaves nothing open: a column and an error subtype are filled in. -/
def sharpen (column : Nat) (subtype : Text) (n : Notice) : Notice :=
  { n with
    column := some (n.column.getD column)
    severity := if n.severity = .error [] then .error subtype else n.severity }

section

variable (column : Nat) (subtype : Text)

theorem standsFor_sharpen (n : Notice) : n.StandsFor (n.sharpen column subtype) where
  location := rfl
  line := rfl
  message := rfl
  severity := by
    by_cases h : n.severity = .error []
    · exact .inr ⟨[], subtype, h, by simp [sharpen, h], .inl rfl⟩
    · exact .inl (by simp [sharpen, h])
  column c hc d hd := by
    rw [Option.mem_def] at hc hd
    simpa [sharpen, hc] using hd

theorem kindRank_sharpen (n : Notice) : (n.sharpen column subtype).kindRank = n.kindRank := by
  by_cases h : n.severity = .error [] <;> simp [sharpen, kindRank, h]

theorem splitAll_map_sharpen (notices : List Notice) :
    splitAll (notices.map (sharpen column subtype)) =
      (splitAll notices).map (sharpen column subtype) := by
  have horder : ∀ m n : Notice, pairingOrder (m.sharpen column subtype)
      (n.sharpen column subtype) = pairingOrder m n := fun m n => by
    simp only [pairingOrder, compareLex, compareOn, kindRank_sharpen]
    rfl
  rw [splitAll, splitAll, sortBy_map horder, List.flatMap_map, List.map_flatMap]
  refine List.flatMap_congr fun n _ => ?_
  rw [splitRows, splitRows, List.map_map]
  rfl

end

section

variable {m n : Notice}

private theorem column_of_standsFor (h : ∀ c s, m.StandsFor (n.sharpen c s)) {d : Nat}
    (hd : m.column = some d) : n.column = some d := by
  cases hn : n.column with
  | none =>
    have hfilled := (h (d + 1) []).column d hd (d + 1) (by simp [sharpen, hn])
    exact absurd hfilled (Nat.ne_of_lt d.lt_succ_self)
  | some e => rw [(h 0 []).column d hd e (by simp [sharpen, hn])]

private theorem severity_of_standsFor (h : ∀ c s, m.StandsFor (n.sharpen c s))
    (hm : m.severity ≠ .error []) : n.severity = m.severity := by
  by_cases hn : n.severity = .error []
  · -- of two subtypes filled in for the wildcard, one is not that of `m`
    have hfilled : ∀ s, m.severity = .error s ∨ s = [] := fun s => by
      rcases (h 0 s).severity with hs | ⟨t, u, ht, hu, hor⟩
      · exact .inl (by simpa [sharpen, hn] using hs)
      · simp only [sharpen, hn, if_true, Severity.error.injEq] at hu
        rcases hor with rfl | rfl
        · exact absurd ht hm
        · exact .inr hu
    have hone := (hfilled ['a']).resolve_right (List.cons_ne_nil _ _)
    have htwo := (hfilled ['b']).resolve_right (List.cons_ne_nil _ _)
    rw [hone] at htwo
    cases htwo
  · rcases (h 0 []).severity with hs | ⟨s, t, hs, ht, rfl | rfl⟩
    · simpa [sharpen, hn] using hs.symm
    · exact absurd hs hm
    · simp [sharpen, hn] at ht

/-- Notices are alike when each stands for every sharpening of the other. -/
theorem alike_of_standsFor (h : ∀ c s, m.StandsFor (n.sharpen c s))
    (h' : ∀ c s, n.StandsFor (m.sharpen c s)) : m.Alike n where
  location := (h 0 []).location
  line := (h 0 []).line
  message := (h 0 []).message
  column := Option.ext fun d => ⟨column_of_standsFor h, column_of_standsFor h'⟩
  severity := by
    by_cases hm : m.severity = .error []
    · by_cases hn : n.severity = .error []
      · exact hm.trans hn.symm
      · exact severity_of_standsFor h' hn
    · exact (severity_of_standsFor h hm).symm

end

/-- Alike rows come from alike notices when the messages are the same. -/
theorem forall₂_alike_of_splitRows {l m : List Notice}
    (hkeys : l.map pairingKey = m.map pairingKey)
    (h : List.Forall₂ Alike (l.flatMap splitRows) (m.flatMap splitRows)) :
    List.Forall₂ Alike l m := by
  induction l generalizing m with
  | nil =>
    obtain rfl := List.map_eq_nil_iff.mp hkeys.symm
    exact .nil
  | cons a l ih =>
    cases m with
    | nil => cases hkeys
    | cons b m =>
      obtain ⟨hkey, hkeys⟩ : a.pairingKey = b.pairingKey ∧ l.map pairingKey = m.map pairingKey :=
        List.cons.inj hkeys
      have hmessage : a.message = b.message := congrArg Prod.snd hkey
      have hlength : a.splitRows.length = b.splitRows.length := by
        simp only [splitRows, hmessage, List.length_map]
      rw [List.flatMap_cons, List.flatMap_cons] at h
      have hfirst := List.forall₂_take a.splitRows.length h
      have hrest := List.forall₂_drop a.splitRows.length h
      rw [List.take_left, hlength, List.take_left] at hfirst
      rw [List.drop_left, hlength, List.drop_left] at hrest
      refine .cons ?_ (ih hkeys hrest)
      obtain ⟨row, rows, hrow⟩ := List.exists_cons_of_ne_nil (Text.cut_ne_nil '\n' a.message)
      rw [splitRows, splitRows, ← hmessage, Text.rows, hrow] at hfirst
      obtain ⟨hlocation, hline, hcolumn, hseverity, -⟩ := (List.forall₂_cons.mp hfirst).1
      exact ⟨hlocation, hline, hcolumn, hseverity, hmessage⟩

end Notice

namespace Program

/-- Notices at one place and with one pairing key come in the same order in both programs. -/
def KeepsTies (root : Path) (p q : Program) : Prop :=
  ∀ path number key, List.Forall₂ Notice.Alike
    ((p.shownAt root path number).filter fun n => n.pairingKey = key)
    ((q.shownAt root path number).filter fun n => n.pairingKey = key)

/-- At every place both programs show the same rows, up to the spelling of locations. -/
def ShowsAlike (root : Path) (p q : Program) : Prop :=
  ∀ path number, List.Forall₂ Notice.Alike (Notice.splitAll (p.shownAt root path number))
    (Notice.splitAll (q.shownAt root path number))

section

variable {root : Path} {p q : Program}

theorem Related.notices_perm (h : p.Related List.Perm q) : p.notices.Perm q.notices := by
  rw [notices_eq_flatten, notices_eq_flatten]
  exact List.Perm.flatten_congr h.perLine

/-- Any order keeps ties where level notices are alike. -/
theorem keepsTies_of_perm (h : p.notices.Perm q.notices)
    (halike : ∀ m ∈ p.notices, ∀ n ∈ p.notices, m.place root = n.place root →
      m.pairingKey = n.pairingKey → m.Alike n) : p.KeepsTies root q := by
  intro path number key
  have hperm : ((p.shownAt root path number).filter fun n => n.pairingKey = key).Perm
      ((q.shownAt root path number).filter fun n => n.pairingKey = key) :=
    (h.filter _).filter _
  refine List.forall₂_iff_zip.mpr ⟨hperm.length_eq, fun {m n} hmn => ?_⟩
  have hmem : ∀ n ∈ (p.shownAt root path number).filter fun n => n.pairingKey = key,
      n ∈ p.notices ∧ n.place root = (path, number) ∧ n.pairingKey = key := by
    intro n hn
    obtain ⟨hn, hkey⟩ := List.mem_filter.mp hn
    rw [shownAt_eq_filter_place p root (path, number)] at hn
    obtain ⟨hn, hplace⟩ := List.mem_filter.mp hn
    exact ⟨hn, of_decide_eq_true hplace, of_decide_eq_true hkey⟩
  obtain ⟨hm, hn⟩ := List.of_mem_zip hmn
  obtain ⟨hm, hmplace, hmkey⟩ := hmem m hm
  obtain ⟨hn, hnplace, hnkey⟩ := hmem n (hperm.mem_iff.mpr hn)
  exact halike m hm n hn (hmplace.trans hnplace.symm) (hmkey.trans hnkey.symm)

/-- Ties are kept exactly when the sorted notices of every place are alike. -/
theorem keepsTies_iff_sorted : p.KeepsTies root q ↔ ∀ path number,
    List.Forall₂ Notice.Alike (sortBy Notice.pairingOrder (p.shownAt root path number))
      (sortBy Notice.pairingOrder (q.shownAt root path number)) := by
  constructor
  · intro h path number
    refine forall₂_of_filter (pairwise_sortBy _) (pairwise_sortBy _) fun n => ?_
    simp only [Notice.pairingOrder_beq_eq, Notice.filter_sortBy_pairingKey]
    exact h path number n.pairingKey
  · intro h path number key
    rw [← Notice.filter_sortBy_pairingKey key (p.shownAt root path number),
      ← Notice.filter_sortBy_pairingKey key (q.shownAt root path number)]
    exact List.rel_filter (fun m n hmn => by simp only [hmn.pairingKey]) (h path number)

theorem KeepsTies.refl (root : Path) (p : Program) : p.KeepsTies root p :=
  fun _ _ _ => List.forall₂_same.mpr fun n _ => .refl n

theorem ShowsAlike.refl (root : Path) (p : Program) : p.ShowsAlike root p :=
  fun _ _ => List.forall₂_same.mpr fun n _ => .refl n

theorem ShowsAlike.symm (h : p.ShowsAlike root q) : q.ShowsAlike root p :=
  fun path number => ((h path number).imp fun _ _ hmn => hmn.symm).flip

theorem KeepsTies.showsAlike (h : p.KeepsTies root q) : p.ShowsAlike root q :=
  fun path number =>
    List.rel_flatMap (keepsTies_iff_sorted.mp h path number) fun _ _ hmn => hmn.splitRows

theorem keepsTies_of_showsAlike (hperm : p.notices.Perm q.notices) (h : p.ShowsAlike root q) :
    p.KeepsTies root q := by
  refine keepsTies_iff_sorted.mpr fun path number =>
    Notice.forall₂_alike_of_splitRows ?_ (h path number)
  exact Notice.map_pairingKey_sortBy (hperm.filter _)

end

end Program

namespace Comparison

variable {root : Path}

/-- Programs that show the same rows match the same programs. -/
theorem isMatch_congr_of_showsAlike {p p' q q' : Program} (hp : p.ShowsAlike root p')
    (hq : q.ShowsAlike root q') :
    (ofPrograms root p q).isMatch = (ofPrograms root p' q').isMatch := by
  have hrows : ∀ {p p' q q' : Program}, p.ShowsAlike root p' → q.ShowsAlike root q' →
      (ofPrograms root p q).isMatch = true → (ofPrograms root p' q').isMatch = true := by
    intro p p' q q' hp hq h
    simp only [isMatch_ofPrograms_iff, Notice.agrees_iff_standsFor] at h ⊢
    intro path number
    have hright : List.Forall₂ Notice.StandsFor (Notice.splitAll (p.shownAt root path number))
        (Notice.splitAll (q'.shownAt root path number)) :=
      forall₂_comp (fun _ _ _ hgot hwant => hgot.congr (.refl _) hwant) (h path number)
        (hq path number)
    exact forall₂_comp (fun _ _ _ hgot hwant => hwant.congr hgot.symm (.refl _))
      (hp.symm path number) hright
  exact Bool.eq_iff_iff.mpr ⟨hrows hp hq, hrows hp.symm hq.symm⟩

/-- Programs whose ties are in one order match the same programs. -/
theorem isMatch_congr {p p' q q' : Program} (hp : p.KeepsTies root p') (hq : q.KeepsTies root q') :
    (ofPrograms root p q).isMatch = (ofPrograms root p' q').isMatch :=
  isMatch_congr_of_showsAlike hp.showsAlike hq.showsAlike

end Comparison

namespace Program

/-- A program that leaves nothing open. -/
def sharpen (column : Nat) (subtype : Text) (p : Program) : Program :=
  ⟨p.files.mapValues fun f => { f with
    lines := f.lines.mapValues fun l => { l with
      notices := l.notices.map (Notice.sharpen column subtype) } }⟩

variable {root : Path} {p q : Program}

theorem shownAt_sharpen (column : Nat) (subtype : Text) (p : Program) (path : Text)
    (number : Nat) : (p.sharpen column subtype).shownAt root path number =
      (p.shownAt root path number).map (Notice.sharpen column subtype) := by
  have hnotices : (p.sharpen column subtype).notices =
      p.notices.map (Notice.sharpen column subtype) := by
    simp only [notices, sharpen, File.notices, SortedMap.values, SortedMap.mapValues, List.map_map,
      List.flatMap_map, List.map_flatMap, Function.comp_def]
  rw [shownAt, hnotices, List.filter_map]
  rfl

/-- A program matches its sharpenings. -/
theorem isMatch_sharpen (column : Nat) (subtype : Text) (p : Program) :
    (Comparison.ofPrograms root p (p.sharpen column subtype)).isMatch = true := by
  simp only [Comparison.isMatch_ofPrograms_iff, Notice.agrees_iff_standsFor, shownAt_sharpen,
    Notice.splitAll_map_sharpen, List.forall₂_map_right_iff]
  exact fun path number => List.forall₂_same.mpr fun n _ => n.standsFor_sharpen column subtype

/-- The rows of a program that matches all sharpenings of another stand for all sharpened rows. -/
theorem rows_of_isMatch_sharpen
    (h : ∀ c s, (Comparison.ofPrograms root q (p.sharpen c s)).isMatch = true) (path : Text)
    (number : Nat) :
    List.Forall₂ (fun m n => ∀ c s, m.StandsFor (n.sharpen c s))
      (Notice.splitAll (q.shownAt root path number))
      (Notice.splitAll (p.shownAt root path number)) := by
  simp only [Comparison.isMatch_ofPrograms_iff, Notice.agrees_iff_standsFor, shownAt_sharpen,
    Notice.splitAll_map_sharpen, List.forall₂_map_right_iff] at h
  refine List.forall₂_iff_zip.mpr ⟨(h 0 [] path number).length_eq, fun hmn c s => ?_⟩
  exact List.forall₂_zip (h c s path number) hmn

/-- Programs match the same programs exactly when they show the same rows. -/
theorem showsAlike_iff : p.ShowsAlike root q ↔ ∀ other,
    (Comparison.ofPrograms root p other).isMatch = (Comparison.ofPrograms root q other).isMatch := by
  constructor
  · intro h other
    exact Comparison.isMatch_congr_of_showsAlike h (.refl root other)
  · intro h path number
    have hq := rows_of_isMatch_sharpen fun c s =>
      (h (p.sharpen c s)).symm.trans (isMatch_sharpen c s p)
    have hp := rows_of_isMatch_sharpen fun c s =>
      (h (q.sharpen c s)).trans (isMatch_sharpen c s q)
    refine List.forall₂_iff_zip.mpr ⟨(hp path number).length_eq, fun hmn => ?_⟩
    exact Notice.alike_of_standsFor (List.forall₂_zip (hp path number) hmn)
      (List.forall₂_zip (hq path number).flip hmn)

/-- Programs with the same notices match the same programs exactly when they keep ties. -/
theorem keepsTies_iff (hperm : p.notices.Perm q.notices) : p.KeepsTies root q ↔ ∀ other,
    (Comparison.ofPrograms root p other).isMatch = (Comparison.ofPrograms root q other).isMatch := by
  rw [← showsAlike_iff]
  exact ⟨KeepsTies.showsAlike, keepsTies_of_showsAlike hperm⟩

end Program

end NoticeCheck
