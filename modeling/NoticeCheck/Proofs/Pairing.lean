import Mathlib.Data.List.Forall2
import NoticeCheck.Proofs.Check
import NoticeCheck.Proofs.StableSort
import NoticeCheck.Proofs.Text

/-!
One row for each message row against whole messages. The two pair up exactly when cutting the
sorted messages into rows leaves the rows sorted.
-/
namespace NoticeCheck

/-- Errors come before notes, and notes before warnings; subtypes do not count. -/
inductive Severity.Precedes : Severity → Severity → Prop
  | error_note (subtype : Text) : Precedes (error subtype) note
  | error_warning (subtype : Text) : Precedes (error subtype) warning
  | note_warning : Precedes note warning

namespace Notice

instance : Std.TransCmp pairingOrder :=
  inferInstanceAs (Std.TransCmp (compareLex (compareOn kindRank) (compareOn message)))

/-- What notices are paired by. -/
def pairingKey (n : Notice) : Nat × Text :=
  (n.kindRank, n.message)

theorem pairingOrder_eq (m n : Notice) : pairingOrder m n =
    compareLex (compareOn Prod.fst) (compareOn Prod.snd) (pairingKey m) (pairingKey n) := rfl

theorem precedes_iff {m n : Notice} :
    m.severity.Precedes n.severity ↔ m.kindRank < n.kindRank := by
  unfold kindRank
  generalize m.severity = s
  generalize n.severity = t
  constructor
  · intro h
    cases h <;> simp
  · intro h
    cases s <;> cases t <;> simp at h <;> constructor

/--
`m` is paired no later than `n`: its severity comes first, or that of `n` does not and the message
of `m` is not the later one.
-/
def NoLater (m n : Notice) : Prop :=
  m.severity.Precedes n.severity ∨
    ¬n.severity.Precedes m.severity ∧ (compare m.message n.message).isLE

theorem noLater_iff {m n : Notice} : m.NoLater n ↔ (pairingOrder m n).isLE := by
  unfold NoLater pairingOrder compareLex compareOn
  rw [precedes_iff, precedes_iff, Ordering.isLE_then_iff_or, Nat.compare_eq_lt, Nat.compare_eq_eq]
  by_cases h : m.kindRank < n.kindRank
  · simp only [h, true_or]
  · have hlevel : ¬n.kindRank < m.kindRank ↔ m.kindRank = n.kindRank := by omega
    rw [hlevel]

theorem pairingKey_of_agrees {want got : Notice} (h : want.agrees got = true) :
    pairingKey got = pairingKey want := by
  obtain ⟨-, -, hmessage, hseverity, -⟩ := standsFor_of_agrees h
  refine Prod.ext ?_ hmessage
  rcases hseverity with hs | ⟨s, t, hs, ht, -⟩
  · simp [pairingKey, kindRank, hs]
  · simp [pairingKey, kindRank, hs, ht]

theorem agrees_self (n : Notice) : n.agrees n = true := by
  obtain ⟨location, line, column, severity, message⟩ := n
  have hseverity : severity.agrees severity = true := (Severity.agrees_iff _ _).mpr (.inl rfl)
  cases column <;> simp [agrees, hseverity, Path.same]

/-- Lists that agree position by position are sorted alike. -/
theorem pairwise_of_agrees {left right : List Notice}
    (h : List.Forall₂ (fun got want => want.agrees got = true) left right)
    (hleft : left.Pairwise fun a b => (pairingOrder a b).isLE) :
    right.Pairwise fun a b => (pairingOrder a b).isLE := by
  have hkeys : left.map pairingKey = right.map pairingKey := by
    induction h with
    | nil => rfl
    | cons hfirst _ ih =>
      rw [List.map_cons, List.map_cons, pairingKey_of_agrees hfirst,
        ih (List.pairwise_cons.mp hleft).2]
  simp only [pairingOrder_eq] at hleft ⊢
  rw [← List.pairwise_map (f := pairingKey) (R := fun a b =>
    (compareLex (compareOn Prod.fst) (compareOn Prod.snd) a b).isLE)] at hleft ⊢
  rwa [← hkeys]

theorem splitRows_of_oneRow {n : Notice} (h : '\n' ∉ n.message) : n.splitRows = [n] := by
  rw [splitRows, Text.rows, Text.cut_of_not_mem h]
  rfl

theorem oneRow_of_mem_splitRows {n row : Notice} (h : row ∈ n.splitRows) : '\n' ∉ row.message := by
  obtain ⟨message, hmessage, rfl⟩ := List.mem_map.mp h
  exact Text.not_mem_of_mem_rows hmessage

/-- Notices with one message are related row by row by what does not depend on the message. -/
theorem rel_splitRows {R : Notice → Notice → Prop} {m n : Notice} (hmessage : m.message = n.message)
    (h : ∀ row, R { m with message := row } { n with message := row }) :
    List.Forall₂ R m.splitRows n.splitRows := by
  rw [splitRows, splitRows, hmessage]
  refine List.rel_map ?_ (List.forall₂_same.mpr fun _ _ => rfl)
  rintro row _ rfl
  exact h row

theorem splitAll_of_oneRow {notices : List Notice} (h : ∀ n ∈ notices, '\n' ∉ n.message) :
    splitAll notices = sortBy pairingOrder notices := by
  have hrows : ∀ n ∈ sortBy pairingOrder notices, n.splitRows = [n] := fun n hn =>
    splitRows_of_oneRow (h n ((sortBy_perm _ _).mem_iff.mp hn))
  rw [splitAll, List.flatMap_congr hrows, List.flatMap_singleton']

/-- Notices of one line without a column: one-row errors, and notes. -/
structure Uniform (notices : List Notice) (location : Path) (number : Nat) : Prop where
  location : ∀ n ∈ notices, n.location = location
  line : ∀ n ∈ notices, n.line = number
  column : ∀ n ∈ notices, n.column = none
  severity : ∀ n ∈ notices, n.severity = .note ∨ n.severity.isError = true ∧ '\n' ∉ n.message

theorem Uniform.filter {notices : List Notice} {location : Path} {number : Nat}
    (h : Uniform notices location number) (p : Notice → Bool) :
    Uniform (notices.filter p) location number where
  location n hn := h.location n (List.mem_filter.mp hn).1
  line n hn := h.line n (List.mem_filter.mp hn).1
  column n hn := h.column n (List.mem_filter.mp hn).1
  severity n hn := h.severity n (List.mem_filter.mp hn).1

private theorem lt_of_isError {m n : Notice} (hm : m.severity.isError = true)
    (hn : n.severity.isError = false) : pairingOrder m n = .lt := by
  have hrank : compare m.kindRank n.kindRank = .lt := by
    cases hs : m.severity <;> cases ht : n.severity <;>
      simp_all [kindRank, Severity.isError] <;> rfl
  rw [pairingOrder, compareLex, compareOn, hrank]
  rfl

private theorem sortBy_errors (notices : List Notice) :
    sortBy pairingOrder notices =
      sortBy pairingOrder (notices.filter fun n => n.severity.isError) ++
        sortBy pairingOrder (notices.filter fun n => !n.severity.isError) :=
  sortBy_eq_append (fun n => n.severity.isError) (fun _ _ => lt_of_isError) notices

theorem filter_flatMap_splitRows {p : Notice → Bool}
    (hp : ∀ n message, p { n with message } = p n) (notices : List Notice) :
    (notices.flatMap splitRows).filter p = (notices.filter p).flatMap splitRows := by
  induction notices with
  | nil => rfl
  | cons n notices ih =>
    have hrow : ∀ row ∈ n.splitRows, p row = p n := by
      intro row hmem
      obtain ⟨message, -, rfl⟩ := List.mem_map.mp hmem
      exact hp n message
    rw [List.flatMap_cons, List.filter_append, ih, List.filter_cons]
    split
    · next hn =>
      rw [List.filter_eq_self.mpr fun row hmem => (hrow row hmem).trans hn, List.flatMap_cons]
    · next hn =>
      rw [List.filter_eq_nil_iff.mpr fun row hmem => hrow row hmem ▸ hn, List.nil_append]

/-- Sorted rows of notes are the same however the notes were made of them. -/
private theorem sortBy_notes {location : Path} {number : Nat} {notes : List Notice}
    (h : Uniform notes location number) (hnotes : ∀ n ∈ notes, n.severity = .note)
    (hsorted : ((sortBy pairingOrder notes).flatMap splitRows).Pairwise fun a b =>
      (pairingOrder a b).isLE) :
    sortBy pairingOrder (notes.flatMap splitRows) =
      (sortBy pairingOrder notes).flatMap splitRows := by
  have hperm : (sortBy pairingOrder (notes.flatMap splitRows)).Perm
      ((sortBy pairingOrder notes).flatMap splitRows) :=
    (sortBy_perm _ _).trans (splitAll_perm notes).symm
  have hrow : ∀ row ∈ notes.flatMap splitRows,
      row = ⟨location, number, none, .note, row.message⟩ := by
    intro row hmem
    obtain ⟨n, hn, hmem⟩ := List.mem_flatMap.mp hmem
    obtain ⟨message, -, rfl⟩ := List.mem_map.mp hmem
    simp [← h.location n hn, ← h.line n hn, ← h.column n hn, ← hnotes n hn]
  refine List.Perm.eq_of_pairwise (fun a b ha hb hab hba => ?_) (pairwise_sortBy _) hsorted hperm
  have heq : pairingOrder a b = .eq := Std.OrientedCmp.isLE_antisymm hab hba
  have hmessage : a.message = b.message := by
    rw [pairingOrder, compareLex_eq_eq] at heq
    exact Std.LawfulEqOrd.eq_of_compare heq.2
  rw [hrow a ((sortBy_perm _ _).mem_iff.mp ha), hrow b ((splitAll_perm notes).mem_iff.mp hb),
    hmessage]

private theorem Uniform.splitRows_of_isError {location : Path} {number : Nat}
    {notices : List Notice} (h : Uniform notices location number) {n : Notice} (hn : n ∈ notices)
    (herror : n.severity.isError = true) : n.splitRows = [n] := by
  rcases h.severity n hn with hnote | ⟨-, hrow⟩
  · simp [hnote, Severity.isError] at herror
  · exact splitRows_of_oneRow hrow

private theorem Uniform.isNote_of_not_isError {location : Path} {number : Nat}
    {notices : List Notice} (h : Uniform notices location number) {n : Notice} (hn : n ∈ notices)
    (herror : n.severity.isError = false) : n.severity = .note := by
  rcases h.severity n hn with hnote | ⟨hyes, -⟩
  · exact hnote
  · rw [hyes] at herror
    cases herror

/-- When cutting keeps the order, rows are sorted as the sorted messages are cut. -/
theorem sortBy_rows_eq_splitAll {location : Path} {number : Nat} {notices : List Notice}
    (h : Uniform notices location number)
    (hsorted : (splitAll notices).Pairwise fun a b => (pairingOrder a b).isLE) :
    sortBy pairingOrder (notices.flatMap splitRows) = splitAll notices := by
  have herrors : ∀ n ∈ notices.filter (fun n => n.severity.isError), n.splitRows = [n] := by
    intro n hn
    obtain ⟨hn, herror⟩ := List.mem_filter.mp hn
    exact h.splitRows_of_isError hn herror
  have hnotes : ∀ n ∈ notices.filter (fun n => !n.severity.isError), n.severity = .note := by
    intro n hn
    obtain ⟨hn, herror⟩ := List.mem_filter.mp hn
    exact h.isNote_of_not_isError hn (by simpa using herror)
  have hrows : (notices.filter fun n => n.severity.isError).flatMap splitRows =
      notices.filter fun n => n.severity.isError :=
    (List.flatMap_congr herrors).trans (List.flatMap_singleton' _)
  have hsortedRows : (sortBy pairingOrder
      (notices.filter fun n => n.severity.isError)).flatMap splitRows =
        sortBy pairingOrder (notices.filter fun n => n.severity.isError) :=
    (List.flatMap_congr fun n hn => herrors n ((sortBy_perm _ _).mem_iff.mp hn)).trans
      (List.flatMap_singleton' _)
  -- errors come first on both sides, and a cut leaves them alone
  rw [splitAll, sortBy_errors notices, List.flatMap_append] at hsorted ⊢
  rw [sortBy_errors (notices.flatMap splitRows), filter_flatMap_splitRows fun _ _ => rfl,
    filter_flatMap_splitRows fun _ _ => rfl, hrows, hsortedRows,
    sortBy_notes (h.filter _) hnotes (List.pairwise_append.mp hsorted).2.1]

/-- Reported rows pair up with expected messages exactly when cutting keeps the order. -/
theorem splitAll_rows_agrees_iff {location : Path} {number : Nat} {notices : List Notice}
    (h : Uniform notices location number) :
    List.Forall₂ (fun got want => want.agrees got = true)
        (splitAll (notices.flatMap splitRows)) (splitAll notices) ↔
      (splitAll notices).Pairwise fun a b => (pairingOrder a b).isLE := by
  have hrows : splitAll (notices.flatMap splitRows) =
      sortBy pairingOrder (notices.flatMap splitRows) := by
    refine splitAll_of_oneRow fun row hrow => ?_
    obtain ⟨n, -, hrow⟩ := List.mem_flatMap.mp hrow
    exact oneRow_of_mem_splitRows hrow
  rw [hrows]
  constructor
  · intro hagrees
    exact pairwise_of_agrees hagrees (pairwise_sortBy _)
  · intro hsorted
    rw [sortBy_rows_eq_splitAll h hsorted]
    exact List.forall₂_same.mpr fun n _ => agrees_self n

end Notice

end NoticeCheck
