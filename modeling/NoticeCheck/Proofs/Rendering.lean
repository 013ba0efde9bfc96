import NoticeCheck.Proofs.Entries
import NoticeCheck.Report

/-!
The rows of a plain report. The first row of each file, line and pair can be told from the rows that
follow it, so the rows say what is shown of each file, line and pair; and a row with a cross stands
for a difference.
-/
namespace NoticeCheck

universe u v w

section

variable {α : Type u} {β : Type v} {γ : Type w}

/-- Rows of which the first one, and no other, is a heading. -/
def IsHeaded (isHeading : β → Bool) (rows : List β) : Prop :=
  ∃ first more, rows = first :: more ∧ isHeading first = true ∧
    ∀ row ∈ more, isHeading row = false

/-- Headed rows end where the next heading is. -/
theorem IsHeaded.eq_of_append_eq {isHeading : β → Bool} {rows rows' rest rest' : List β}
    (h : IsHeaded isHeading rows) (h' : IsHeaded isHeading rows')
    (hrest : ∀ row ∈ rest.head?, isHeading row = true)
    (hrest' : ∀ row ∈ rest'.head?, isHeading row = true) (heq : rows ++ rest = rows' ++ rest') :
    rows = rows' ∧ rest = rest' := by
  obtain ⟨first, more, rfl, -, hmore⟩ := h
  obtain ⟨first', more', rfl, -, hmore'⟩ := h'
  obtain ⟨rfl, htail⟩ := List.cons.inj heq
  change more ++ rest = more' ++ rest' at htail
  have hcut : ∀ {more rest : List β}, (∀ row ∈ more, isHeading row = false) →
      (∀ row ∈ rest.head?, isHeading row = true) →
      ((more ++ rest).takeWhile fun row => !isHeading row) = more ∧
        ((more ++ rest).dropWhile fun row => !isHeading row) = rest := fun hmore hrest =>
    Text.takeWhile_dropWhile_append (fun row hrow => by simp [hmore row hrow])
      fun row hrow => by simp [hrest row hrow]
  constructor
  · rw [← (hcut hmore hrest).1, htail, (hcut hmore' hrest').1]
  · rw [← (hcut hmore hrest).2, htail, (hcut hmore' hrest').2]

theorem isHeading_head?_flatMap {f : α → List β} {isHeading : β → Bool}
    (hf : ∀ a, IsHeaded isHeading (f a)) (as : List α) :
    ∀ row ∈ (as.flatMap f).head?, isHeading row = true := by
  intro row hrow
  cases as with
  | nil => cases hrow
  | cons a as =>
    obtain ⟨first, more, ha, hfirst, -⟩ := hf a
    rw [List.flatMap_cons, ha] at hrow
    obtain rfl : first = row := by simpa using hrow
    exact hfirst

/-- Headed rows are found again in the rows of all. -/
theorem flatMap_eq_flatMap_iff {f : α → List β} {isHeading : β → Bool}
    (hf : ∀ a, IsHeaded isHeading (f a)) {xs ys : List α} :
    xs.flatMap f = ys.flatMap f ↔ xs.map f = ys.map f := by
  have hne : ∀ a as, (a :: as).flatMap f ≠ [] := by
    intro a as h
    obtain ⟨first, more, ha, -⟩ := hf a
    rw [List.flatMap_cons, ha] at h
    cases h
  constructor
  · intro h
    induction xs generalizing ys with
    | nil =>
      cases ys with
      | nil => rfl
      | cons b ys => exact absurd h.symm (hne b ys)
    | cons a xs ih =>
      cases ys with
      | nil => exact absurd h (hne a xs)
      | cons b ys =>
        rw [List.flatMap_cons, List.flatMap_cons] at h
        obtain ⟨hfirst, hothers⟩ := (hf a).eq_of_append_eq (hf b) (isHeading_head?_flatMap hf xs)
          (isHeading_head?_flatMap hf ys) h
        rw [List.map_cons, List.map_cons, hfirst, ih hothers]
  · intro h
    rw [List.flatMap_def, List.flatMap_def, h]

/-- Functions that identify the same elements identify the same lists. -/
theorem map_eq_map_iff {f : α → β} {g : α → γ} (h : ∀ a b, f a = f b ↔ g a = g b)
    {xs ys : List α} : xs.map f = ys.map f ↔ xs.map g = ys.map g := by
  rw [← List.forall₂_eq_eq_eq, ← List.forall₂_eq_eq_eq, List.forall₂_map_left_iff,
    List.forall₂_map_left_iff, List.forall₂_map_right_iff, List.forall₂_map_right_iff]
  simp only [h]

end

theorem Notice.exists_display (n : Notice) :
    ∃ c rest, n.display = c :: rest ∧ (c = 'c' ∨ c = 's') := by
  cases hc : n.column with
  | none => exact ⟨'s', _, by rw [display, hc]; rfl, .inr rfl⟩
  | some column => exact ⟨'c', _, by rw [display, hc]; rfl, .inl rfl⟩

/-- What a report shows of a pair: one display when the notices agree, else both sides. -/
inductive Shown where
  | same (got : Text)
  | different (got want : Option Text)

def Shown.isSame : Shown → Bool
  | same _ => true
  | different .. => false

def Pair.shown : Pair → Shown
  | same got => .same got.display
  | different got want => .different (got.map Notice.display) (want.map Notice.display)

theorem Pair.isSame_shown (p : Pair) : p.shown.isSame = p.isSame := by
  cases p <;> rfl

def Sides.shown (s : Sides) : List Shown :=
  s.pairs.map Pair.shown

/-- What a report shows of a comparison. -/
def Comparison.shown (c : Comparison) : SortedMap Text (SortedMap Nat (List Shown)) :=
  c.files.mapValues fun lines => lines.mapValues Sides.shown

namespace Report

/-- A row that reports a difference. -/
def isCrossed (row : Text) : Bool :=
  row.startsWith "  | ✘".toList

theorem shown_eq_iff {m n : Option Notice} :
    shown m = shown n ↔ m.map Notice.display = n.map Notice.display := by
  have hnone : ∀ n : Notice, "<NONE>".toList ≠ n.display := fun n h => by
    obtain ⟨c, rest, hn, hc⟩ := n.exists_display
    rw [hn] at h
    obtain rfl : '<' = c := (List.cons.inj h).1
    simp at hc
  cases m with
  | none =>
    cases n with
    | none => simp
    | some n => exact iff_of_false (hnone n) nofun
  | some m =>
    cases n with
    | none => exact iff_of_false (fun h => hnone m h.symm) nofun
    | some n => simp [shown]

section Pairs

theorem pairRows_eq_iff {p q : Pair} : pairRows false p = pairRows false q ↔ p.shown = q.shown := by
  cases p with
  | same m =>
    cases q with
    | same n => simp [pairRows, Pair.shown]
    | different got want =>
      refine iff_of_false (fun h => ?_) fun h => ?_
      · cases (List.cons.inj h).2
      · cases h
  | different got want =>
    cases q with
    | same n =>
      refine iff_of_false (fun h => ?_) fun h => ?_
      · cases (List.cons.inj h).2
      · cases h
    | different got' want' => simp [pairRows, Pair.shown, shown_eq_iff]

/-- The first row of a pair has a mark. -/
theorem isHeaded_pairRows (p : Pair) :
    IsHeaded (fun row => row[4]?.any (· != ' ')) (pairRows false p) := by
  cases p with
  | same n => exact ⟨_, _, rfl, rfl, by simp⟩
  | different got want => exact ⟨_, _, rfl, rfl, by simp⟩

/-- The rows of a pair are indented and have no digit behind the mark. -/
theorem front_of_mem_pairRows {p : Pair} {row : Text} (h : row ∈ pairRows false p) :
    row.head? = some ' ' ∧ (row[6]?.any Char.isDigit) = false := by
  cases p with
  | same n =>
    obtain rfl := List.mem_singleton.mp h
    obtain ⟨c, rest, hc, hletter⟩ := n.exists_display
    rw [hc]
    rcases hletter with rfl | rfl <;> exact ⟨rfl, rfl⟩
  | different got want =>
    rcases List.mem_pair.mp h with rfl | rfl <;> exact ⟨rfl, rfl⟩

theorem any_isCrossed_pairRows (p : Pair) : (pairRows false p).any isCrossed = !p.isSame := by
  cases p with
  | same n => rfl
  | different got want => rfl

end Pairs

section Lines

/-- The first row of a line; `tail` is what follows the colon. -/
def headRow (same : Bool) (number : Nat) (tail : Text) : Text :=
  "  | ".toList ++ mark false same ++ ' ' :: Text.ofNat number ++ ':' :: tail

theorem drop_headRow (same : Bool) (number : Nat) (tail : Text) :
    (headRow same number tail).drop 6 = Text.ofNat number ++ ':' :: tail := by
  cases same <;> rfl

/-- A first row tells the number and what follows it. -/
theorem eq_of_headRow_eq {same same' : Bool} {m n : Nat} {tail tail' : Text}
    (h : headRow same m tail = headRow same' n tail') : m = n ∧ tail = tail' := by
  have hdrop := congrArg (List.drop 6) h
  rw [drop_headRow, drop_headRow] at hdrop
  have hcut : ∀ (n : Nat) (tail : Text),
      (Text.ofNat n ++ ':' :: tail).takeWhile Char.isDigit = Text.ofNat n ∧
        (Text.ofNat n ++ ':' :: tail).dropWhile Char.isDigit = ':' :: tail := fun n tail =>
    Text.takeWhile_dropWhile_append (fun _ => Text.isDigit_of_mem_ofNat) fun c hc => by
      cases hc
      rfl
  have hnumber : Text.ofNat m = Text.ofNat n := by
    rw [← (hcut m tail).1, hdrop, (hcut n tail').1]
  have htail : ':' :: tail = ':' :: tail' := by
    rw [← (hcut m tail).2, hdrop, (hcut n tail').2]
  exact ⟨Text.ofNat_injective hnumber, (List.cons.inj htail).2⟩

theorem lineRows_cases (number : Nat) (pairs : List Pair) :
    (∃ n, pairs = [.same n] ∧
      lineRows false number pairs = [headRow true number (' ' :: n.display)]) ∨
    ((∀ n, pairs ≠ [.same n]) ∧ lineRows false number pairs =
      headRow (pairs.all Pair.isSame) number [] :: pairs.flatMap (pairRows false)) := by
  unfold lineRows
  split
  · next n => exact .inl ⟨n, rfl, congrArg (fun row => [row]) (List.append_assoc _ [':'] _)⟩
  · next h => exact .inr ⟨h, rfl⟩

theorem lineRows_eq_iff {m n : Nat} {pairs pairs' : List Pair} :
    lineRows false m pairs = lineRows false n pairs' ↔
      m = n ∧ pairs.map Pair.shown = pairs'.map Pair.shown := by
  have hmore : pairs.flatMap (pairRows false) = pairs'.flatMap (pairRows false) ↔
      pairs.map Pair.shown = pairs'.map Pair.shown :=
    (flatMap_eq_flatMap_iff isHeaded_pairRows).trans (map_eq_map_iff fun _ _ => pairRows_eq_iff)
  -- the one pair that stands on the first row is the only one of its line, and it agrees
  have hone : ∀ {pairs : List Pair} {n : Notice}, (∀ m, pairs ≠ [.same m]) →
      pairs.map Pair.shown ≠ [.same n.display] := by
    intro pairs n hpairs h
    obtain ⟨p, rfl, hp⟩ := List.map_eq_singleton_iff.mp h
    cases p with
    | same m => exact hpairs m rfl
    | different got want => cases hp
  rcases lineRows_cases m pairs with ⟨got, rfl, hrows⟩ | ⟨hpairs, hrows⟩ <;>
    rcases lineRows_cases n pairs' with ⟨got', rfl, hrows'⟩ | ⟨hpairs', hrows'⟩ <;>
    rw [hrows, hrows']
  · constructor
    · intro h
      obtain ⟨hnumber, htail⟩ := eq_of_headRow_eq (List.cons.inj h).1
      exact ⟨hnumber, by simpa [Pair.shown] using htail⟩
    · rintro ⟨rfl, hshown⟩
      have hdisplay : got.display = got'.display := by simpa [Pair.shown] using hshown
      rw [hdisplay]
  · refine iff_of_false (fun h => ?_) fun h => hone hpairs' h.2.symm
    cases (eq_of_headRow_eq (List.cons.inj h).1).2
  · refine iff_of_false (fun h => ?_) fun h => hone hpairs h.2
    cases (eq_of_headRow_eq (List.cons.inj h).1).2
  · rw [List.cons.injEq, hmore]
    constructor
    · exact fun ⟨hhead, hshown⟩ => ⟨(eq_of_headRow_eq hhead).1, hshown⟩
    · rintro ⟨rfl, hshown⟩
      have hall : ∀ pairs : List Pair,
          pairs.all Pair.isSame = (pairs.map Pair.shown).all Shown.isSame := fun pairs => by
        simp only [List.all_map, Function.comp_def, Pair.isSame_shown]
      exact ⟨by rw [hall, hall, hshown], hshown⟩

/-- Only the first row of a line has a digit behind its mark. -/
theorem isHeaded_lineRows (number : Nat) (pairs : List Pair) :
    IsHeaded (fun row => row[6]?.any Char.isDigit) (lineRows false number pairs) := by
  have hfirst : ∀ same tail, ((headRow same number tail)[6]?.any Char.isDigit) = true := by
    intro same tail
    obtain ⟨c, rest, hc⟩ := List.exists_cons_of_ne_nil (Text.ofNat_ne_nil number)
    have hdigit : c.isDigit = true :=
      Text.isDigit_of_mem_ofNat (by rw [hc]; exact List.mem_cons_self)
    rw [← List.head?_drop, drop_headRow, hc]
    exact hdigit
  have hmore : ∀ row ∈ pairs.flatMap (pairRows false), (row[6]?.any Char.isDigit) = false := by
    intro row hrow
    obtain ⟨p, -, hrow⟩ := List.mem_flatMap.mp hrow
    exact (front_of_mem_pairRows hrow).2
  rcases lineRows_cases number pairs with ⟨n, -, hrows⟩ | ⟨-, hrows⟩
  · exact ⟨_, _, hrows, hfirst _ _, nofun⟩
  · exact ⟨_, _, hrows, hfirst _ _, hmore⟩

theorem any_isCrossed_lineRows (number : Nat) (pairs : List Pair) :
    (lineRows false number pairs).any isCrossed = !pairs.all Pair.isSame := by
  have hhead : ∀ same tail, isCrossed (headRow same number tail) = !same := by
    intro same tail
    cases same <;> rfl
  rcases lineRows_cases number pairs with ⟨n, rfl, hrows⟩ | ⟨-, hrows⟩
  · rw [hrows]
    simp [hhead, Pair.isSame]
  · rw [hrows, List.any_cons, hhead, List.any_flatMap]
    simp only [any_isCrossed_pairRows]
    simp

theorem head?_of_mem_lineRows {number : Nat} {pairs : List Pair} {row : Text}
    (h : row ∈ lineRows false number pairs) : row.head? = some ' ' := by
  rcases lineRows_cases number pairs with ⟨n, -, hrows⟩ | ⟨-, hrows⟩
  · rw [hrows, List.mem_singleton] at h
    rw [h]
    rfl
  · rw [hrows, List.mem_cons] at h
    rcases h with rfl | h
    · rfl
    · obtain ⟨p, -, hrow⟩ := List.mem_flatMap.mp h
      exact (front_of_mem_pairRows hrow).1

end Lines

section Files

/-- Steps that each add rows to a draft add the rows of all. -/
theorem rows_foldl {α : Type u} {f : Draft → α → Draft} {g : α → List Text}
    (h : ∀ d a, (f d a).rows = d.rows ++ g a) (as : List α) (d : Draft) :
    (as.foldl f d).rows = d.rows ++ as.flatMap g := by
  induction as generalizing d with
  | nil => simp
  | cons a as ih => rw [List.foldl_cons, ih, h, List.flatMap_cons, List.append_assoc]

/-- The rows of a file. -/
def fileRows (path : Text) (lines : SortedMap Nat Sides) : List Text :=
  ("> ".toList ++ path) :: lines.entries.flatMap fun line => lineRows false line.1 line.2.pairs

theorem rows_addFile (d : Draft) (path : Text) (lines : SortedMap Nat Sides) :
    (d.addFile false path lines).rows = d.rows ++ fileRows path lines := by
  rw [Draft.addFile, rows_foldl (fun _ _ => rfl), fileRows, List.append_assoc]
  rfl

/-- The rows of a report, file after file. -/
def rowsOf (c : Comparison) : List Text :=
  c.files.entries.flatMap fun file => fileRows file.1 file.2

theorem text_ofComparison (c : Comparison) : (ofComparison false c).text = .ofRows (rowsOf c) := by
  rw [ofComparison, rows_foldl (fun d file => rows_addFile d file.1 file.2), rowsOf,
    List.nil_append]

theorem fileRows_eq_iff {path path' : Text} {lines lines' : SortedMap Nat Sides} :
    fileRows path lines = fileRows path' lines' ↔
      path = path' ∧ lines.mapValues Sides.shown = lines'.mapValues Sides.shown := by
  have hlines : (lines.entries.flatMap fun line => lineRows false line.1 line.2.pairs) =
      (lines'.entries.flatMap fun line => lineRows false line.1 line.2.pairs) ↔
        lines.mapValues Sides.shown = lines'.mapValues Sides.shown := by
    rw [SortedMap.mapValues, SortedMap.mapValues, SortedMap.mk.injEq]
    exact (flatMap_eq_flatMap_iff fun line : Nat × Sides =>
      isHeaded_lineRows line.1 line.2.pairs).trans
        (map_eq_map_iff fun _ _ => by rw [lineRows_eq_iff, Prod.mk.injEq]; rfl)
  rw [fileRows, fileRows, List.cons.injEq, hlines, List.append_cancel_left_eq]

/-- Only the first row of a file is not indented. -/
theorem isHeaded_fileRows (path : Text) (lines : SortedMap Nat Sides) :
    IsHeaded (fun row => row.head? == some '>') (fileRows path lines) := by
  refine ⟨_, _, rfl, rfl, fun row hrow => ?_⟩
  obtain ⟨line, -, hrow⟩ := List.mem_flatMap.mp hrow
  change (row.head? == some '>') = false
  rw [head?_of_mem_lineRows hrow]
  rfl

/-- The rows are the same when the same is shown. -/
theorem rowsOf_eq_iff {c d : Comparison} : rowsOf c = rowsOf d ↔ c.shown = d.shown := by
  rw [rowsOf, rowsOf, Comparison.shown, Comparison.shown, SortedMap.mapValues, SortedMap.mapValues,
    SortedMap.mk.injEq]
  exact (flatMap_eq_flatMap_iff fun file : Text × SortedMap Nat Sides =>
    isHeaded_fileRows file.1 file.2).trans
      (map_eq_map_iff fun _ _ => by rw [fileRows_eq_iff, Prod.mk.injEq])

/-- A row has a cross exactly when the comparison is no match. -/
theorem any_isCrossed_rowsOf (c : Comparison) : (rowsOf c).any isCrossed = !c.isMatch := by
  have hfile : ∀ path lines, (fileRows path lines).any isCrossed =
      !lines.values.all fun sides => sides.pairs.all Pair.isSame := by
    intro path lines
    have hpath : isCrossed ("> ".toList ++ path) = false := rfl
    rw [fileRows, List.any_cons, hpath, List.any_flatMap, SortedMap.values, List.all_map]
    simp only [any_isCrossed_lineRows]
    simp [List.not_all_eq_any_not]
  rw [rowsOf, List.any_flatMap, Comparison.isMatch, SortedMap.values, List.all_map]
  simp only [hfile]
  simp [List.not_all_eq_any_not]

end Files

end Report

end NoticeCheck
