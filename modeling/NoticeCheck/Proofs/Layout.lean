import Mathlib.Data.List.Nodup
import NoticeCheck.Layout

/-!
Layouts row by row: the group of a source row is that row and what is anchored at it. A
replacement changes one text in one group, an insertion makes one group longer.
-/
namespace NoticeCheck

/-- Where a slot stands among those that belong to one source row. -/
def Slot.rank : Slot → Nat
  | .source _ => 0
  | .inserted i => i + 1

namespace Layout

/-- The final rows that come from a source row; none past the last row. -/
def group (l : Layout) (i : Nat) : List (Slot × Text) :=
  match l.rows[i]? with
  | some row => (.source i, row.text) :: l.anchored i
  | none => []

/-- The final rows that come from the first `n` source rows. -/
def front (l : Layout) (n : Nat) : List (Slot × Text) :=
  (List.range n).flatMap l.group

theorem front_succ (l : Layout) (n : Nat) : l.front (n + 1) = l.front n ++ l.group n := by
  simp [front, List.range_succ]

theorem finalRows_eq_front (l : Layout) : l.finalRows = l.front l.rows.length := by
  have hindices : List.range l.rows.length = l.rows.zipIdx.map Prod.snd := by
    rw [List.zipIdx_map_snd, List.range_eq_range']
  rw [finalRows, front, hindices, List.flatMap_map]
  refine List.flatMap_congr fun ⟨row, i⟩ h => ?_
  rw [List.mk_mem_zipIdx_iff_getElem?] at h
  simp [group, h]

theorem mem_anchored_iff {l : Layout} {i : Nat} {slot : Slot} {text : Text} :
    (slot, text) ∈ l.anchored i ↔
      ∃ j, slot = .inserted j ∧ l.insertions[j]? = some ⟨i, text⟩ := by
  simp only [anchored, List.mem_filterMap]
  constructor
  · rintro ⟨⟨⟨anchor, t⟩, j⟩, hmem, h⟩
    rw [List.mk_mem_zipIdx_iff_getElem?] at hmem
    split at h
    · next hi =>
      obtain ⟨rfl, rfl⟩ := Prod.mk.inj (Option.some.inj h)
      exact ⟨j, rfl, hmem.trans (by rw [← hi])⟩
    · cases h
  · rintro ⟨j, rfl, hj⟩
    exact ⟨(⟨i, text⟩, j), List.mk_mem_zipIdx_iff_getElem?.mpr hj, by simp⟩

/-- The source row that a final row belongs to, and its text. -/
theorem anchor?_of_mem_group {l : Layout} {i : Nat} {e : Slot × Text} (h : e ∈ l.group i) :
    l.anchor? e.1 = some i := by
  rw [group] at h
  split at h
  · rcases List.mem_cons.mp h with rfl | h
    · rfl
    · obtain ⟨j, hslot, hj⟩ := mem_anchored_iff.mp h
      simp [hslot, anchor?, hj]
  · cases h

theorem text?_of_mem_group {l : Layout} {i : Nat} {e : Slot × Text} (h : e ∈ l.group i) :
    l.text? e.1 = some e.2 := by
  rw [group] at h
  split at h
  · next row hrow =>
    rcases List.mem_cons.mp h with rfl | h
    · simp [text?, hrow]
    · obtain ⟨j, hslot, hj⟩ := mem_anchored_iff.mp h
      simp [hslot, text?, hj]
  · cases h

/--
The order of the final rows: by the source row they belong to, which stands in front, and then by
order of creation.
-/
def Precedes (l : Layout) (s t : Slot) : Prop :=
  ∃ a b, l.anchor? s = some a ∧ l.anchor? t = some b ∧ (a < b ∨ a = b ∧ s.rank < t.rank)

theorem Precedes.asymm {l : Layout} {s t : Slot} (h : l.Precedes s t) : ¬l.Precedes t s := by
  rintro ⟨b', a', hb', ha', hts⟩
  obtain ⟨a, b, ha, hb, hst⟩ := h
  obtain rfl : a = a' := Option.some.inj (ha.symm.trans ha')
  obtain rfl : b = b' := Option.some.inj (hb.symm.trans hb')
  omega

theorem Precedes.ne {l : Layout} {s t : Slot} (h : l.Precedes s t) : s ≠ t := by
  rintro rfl
  exact h.asymm h

theorem anchored_pairwise (l : Layout) (i : Nat) :
    ((l.anchored i).map Prod.fst).Pairwise l.Precedes := by
  have hindices : l.insertions.zipIdx.Pairwise fun a b => a.2 < b.2 := by
    rw [← List.pairwise_map (f := Prod.snd) (R := (· < ·)), List.zipIdx_map_snd]
    exact List.pairwise_lt_range'
  have hranks : (l.anchored i).Pairwise fun e e' => e.1.rank < e'.1.rank := by
    rw [anchored, List.pairwise_filterMap]
    refine hindices.imp fun {a b} hab e he e' he' => ?_
    simp only [Option.ite_none_right_eq_some, Option.some.injEq] at he he'
    rw [← he.2, ← he'.2]
    exact Nat.succ_lt_succ hab
  rw [List.pairwise_map]
  refine hranks.imp_of_mem fun {e e'} he he' hrank => ?_
  obtain ⟨j, hslot, hj⟩ := mem_anchored_iff.mp (show (e.1, e.2) ∈ l.anchored i from he)
  obtain ⟨k, hslot', hk⟩ := mem_anchored_iff.mp (show (e'.1, e'.2) ∈ l.anchored i from he')
  exact ⟨i, i, by simp [hslot, anchor?, hj], by simp [hslot', anchor?, hk], .inr ⟨rfl, hrank⟩⟩

theorem group_pairwise (l : Layout) (i : Nat) :
    ((l.group i).map Prod.fst).Pairwise l.Precedes := by
  rw [group]
  split
  · rw [List.map_cons, List.pairwise_cons]
    refine ⟨fun slot h => ?_, anchored_pairwise l i⟩
    obtain ⟨e, he, rfl⟩ := List.mem_map.mp h
    obtain ⟨j, hslot, hj⟩ := mem_anchored_iff.mp (show (e.1, e.2) ∈ l.anchored i from he)
    have hrank : (Slot.source i).rank < e.1.rank := by
      rw [hslot]
      exact Nat.succ_pos j
    exact ⟨i, i, rfl, by simp [hslot, anchor?, hj], .inr ⟨rfl, hrank⟩⟩
  · exact List.Pairwise.nil

theorem front_pairwise (l : Layout) (n : Nat) :
    ((l.front n).map Prod.fst).Pairwise l.Precedes := by
  rw [front, List.map_flatMap, List.pairwise_flatMap]
  refine ⟨fun i _ => group_pairwise l i, List.pairwise_lt_range.imp fun {i j} hij => ?_⟩
  intro s hs t ht
  obtain ⟨e, he, rfl⟩ := List.mem_map.mp hs
  obtain ⟨e', he', rfl⟩ := List.mem_map.mp ht
  exact ⟨i, j, anchor?_of_mem_group he, anchor?_of_mem_group he', .inl hij⟩

theorem idxOf_lt_of_precedes {l : Layout} {slots : List Slot} (h : slots.Pairwise l.Precedes)
    {s t : Slot} (hs : s ∈ slots) (ht : t ∈ slots) (hst : l.Precedes s t) :
    slots.idxOf s < slots.idxOf t := by
  rcases Nat.lt_trichotomy (slots.idxOf s) (slots.idxOf t) with hlt | heq | hgt
  · exact hlt
  · exact absurd ((List.idxOf_inj hs).mp heq) hst.ne
  · have hts := List.pairwise_iff_getElem.mp h _ _ (List.idxOf_lt_length_of_mem ht)
      (List.idxOf_lt_length_of_mem hs) hgt
    rw [List.getElem_idxOf, List.getElem_idxOf] at hts
    exact absurd hst hts.asymm

theorem group_nodup (l : Layout) (i : Nat) : ((l.group i).map Prod.fst).Nodup :=
  (group_pairwise l i).imp Precedes.ne

/-- No slot has two rows. -/
theorem front_nodup (l : Layout) (n : Nat) : ((l.front n).map Prod.fst).Nodup :=
  (front_pairwise l n).imp Precedes.ne

/-- Every insertion has a row to stand below. -/
def IsAnchored (l : Layout) : Prop :=
  ∀ insertion ∈ l.insertions, insertion.anchor < l.rows.length

theorem result?_eq {l : Layout} (hl : l.IsAnchored) :
    l.result? = some ⟨.ofRows (l.finalRows.map Prod.snd), l.finalRows.map Prod.fst⟩ := by
  have hall : (l.insertions.all fun insertion => insertion.anchor < l.rows.length) = true := by
    simpa [IsAnchored] using hl
  rw [result?, if_pos hall]

/-- Two layouts that differ in the group of one source row only. -/
structure ChangesGroup (l l' : Layout) (a : Nat) (rows : List (Slot × Text)) : Prop where
  size : l'.rows.length = l.rows.length
  anchored : l.IsAnchored → l'.IsAnchored
  group : l'.group a = rows
  others : ∀ i, i ≠ a → l'.group i = l.group i

theorem lt_of_mem_group {l : Layout} {i : Nat} {e : Slot × Text} (h : e ∈ l.group i) :
    i < l.rows.length := by
  rw [Layout.group] at h
  split at h
  · next hrow => exact (List.getElem?_eq_some_iff.mp hrow).1
  · cases h

theorem mem_group_iff {l : Layout} {i : Nat} {slot : Slot} {text : Text} :
    (slot, text) ∈ l.group i ↔
      l.anchor? slot = some i ∧ l.text? slot = some text ∧ i < l.rows.length := by
  constructor
  · intro h
    exact ⟨anchor?_of_mem_group h, text?_of_mem_group h, lt_of_mem_group h⟩
  · rintro ⟨hanchor, htext, hi⟩
    rw [Layout.group, List.getElem?_eq_getElem hi]
    cases slot with
    | source j =>
      obtain rfl : j = i := Option.some.inj hanchor
      simp only [text?, List.getElem?_eq_getElem hi, Option.map_some, Option.some.injEq] at htext
      simp [htext]
    | inserted j =>
      obtain ⟨⟨a, t⟩, hj, rfl⟩ := Option.map_eq_some_iff.mp hanchor
      simp only [text?, hj, Option.map_some, Option.some.injEq] at htext
      exact List.mem_cons_of_mem _ (mem_anchored_iff.mpr ⟨j, rfl, by rw [hj, htext]⟩)

/-- Where every insertion is anchored, the final rows are all the rows there are. -/
theorem mem_finalRows_iff {l : Layout} (hl : l.IsAnchored) {slot : Slot} {text : Text} :
    (slot, text) ∈ l.finalRows ↔ l.text? slot = some text := by
  rw [finalRows_eq_front, front, List.mem_flatMap]
  constructor
  · rintro ⟨i, -, hi⟩
    exact text?_of_mem_group hi
  · intro htext
    obtain ⟨i, hanchor, hi⟩ : ∃ i, l.anchor? slot = some i ∧ i < l.rows.length := by
      cases slot with
      | source i =>
        obtain ⟨row, hrow, -⟩ := Option.map_eq_some_iff.mp htext
        exact ⟨i, rfl, (List.getElem?_eq_some_iff.mp hrow).1⟩
      | inserted j =>
        obtain ⟨insertion, hj, -⟩ := Option.map_eq_some_iff.mp htext
        exact ⟨insertion.anchor, by simp [anchor?, hj], hl insertion (List.mem_of_getElem? hj)⟩
    exact ⟨i, List.mem_range.mpr hi, mem_group_iff.mpr ⟨hanchor, htext, hi⟩⟩

theorem finalRows_of_isEmpty {l : Layout} (h : l.isEmpty = true) :
    l.finalRows.map Prod.snd = l.rows.map SourceRow.written := by
  simp only [isEmpty, Bool.and_eq_true, List.isEmpty_iff, List.all_eq_true] at h
  obtain ⟨hinsertions, hrows⟩ := h
  have hanchored : ∀ i, l.anchored i = [] := by simp [anchored, hinsertions]
  have hwritten : l.rows.map SourceRow.text = l.rows.map SourceRow.written := by
    refine List.map_congr_left fun row hrow => ?_
    rw [SourceRow.text, Option.isNone_iff_eq_none.mp (hrows row hrow), Option.getD_none]
  calc l.finalRows.map Prod.snd
      = l.rows.zipIdx.flatMap fun e => [e.1.text] := by
        rw [finalRows, List.map_flatMap]
        simp only [hanchored, List.map_cons, List.map_nil]
    _ = (l.rows.zipIdx.map Prod.fst).map SourceRow.text := by
        rw [← List.map_eq_flatMap, List.map_map]
        rfl
    _ = l.rows.map SourceRow.written := by
        rw [List.zipIdx_map_fst, hwritten]

theorem Result.number?_eq {r : Result} (hsize : r.slots.length < Notice.numberLimit) {slot : Slot}
    (hslot : slot ∈ r.slots) : r.number? slot = some (r.slots.idxOf slot + 1) := by
  have hindex := List.idxOf_lt_length_of_mem hslot
  have hmin : min (r.slots.idxOf slot + 1) (Notice.numberLimit - 1) = r.slots.idxOf slot + 1 := by
    omega
  rw [number?, if_pos hslot, hmin]

private theorem anchored_insertion (l : Layout) (a : Nat) (text : Text) (i : Nat) :
    anchored { l with insertions := l.insertions ++ [⟨a, text⟩] } i =
      l.anchored i ++ if a = i then [(.inserted l.insertions.length, text)] else [] := by
  rw [anchored, List.zipIdx_append, List.filterMap_append]
  by_cases h : a = i <;> simp [anchored, h]

theorem anchor?_insertion {l : Layout} {slot : Slot} {i : Nat} (h : l.anchor? slot = some i)
    (insertion : Insertion) :
    anchor? { l with insertions := l.insertions ++ [insertion] } slot = some i := by
  cases slot with
  | source j => exact h
  | inserted j =>
    obtain ⟨other, hother, hi⟩ := Option.map_eq_some_iff.mp h
    have hj : j < l.insertions.length := (List.getElem?_eq_some_iff.mp hother).1
    rw [anchor?, List.getElem?_append_left hj, hother, Option.map_some, hi]

theorem eq_or_text?_of_insertion {l : Layout} {insertion : Insertion} {slot : Slot} {text : Text}
    (h : text? { l with insertions := l.insertions ++ [insertion] } slot = some text) :
    text = insertion.text ∨ l.text? slot = some text := by
  cases slot with
  | source j => exact .inr h
  | inserted j =>
    obtain ⟨other, hother, rfl⟩ := Option.map_eq_some_iff.mp h
    rw [List.getElem?_append] at hother
    split at hother
    · exact .inr (by rw [text?, hother, Option.map_some])
    · obtain rfl := List.mem_singleton.mp (List.mem_of_getElem? hother)
      exact .inl rfl

theorem exists_insertBelow {l : Layout} {a : Nat} {above : List (Slot × Text)} {slot : Slot}
    {current : Text} (h : l.group a = above ++ [(slot, current)]) (text : Text) :
    ∃ l' new, l.insertBelow? slot text = some (l', new) ∧
      l.ChangesGroup l' a (above ++ [(slot, current), (new, text)]) := by
  have hmem : (slot, current) ∈ l.group a := by simp [h]
  have ha : a < l.rows.length := lt_of_mem_group hmem
  have hanchor : l.anchor? slot = some a := anchor?_of_mem_group hmem
  refine ⟨{ l with insertions := l.insertions ++ [⟨a, text⟩] }, .inserted l.insertions.length,
    by simp [insertBelow?, hanchor], rfl, ?_, ?_, ?_⟩
  · intro hl insertion hins
    rcases List.mem_append.mp hins with hins | hins
    · exact hl insertion hins
    · rw [List.mem_singleton.mp hins]
      exact ha
  · have hgroup : l.group a = _ := h
    simp only [Layout.group, List.getElem?_eq_getElem ha] at hgroup ⊢
    rw [anchored_insertion, if_pos rfl, ← List.cons_append, hgroup]
    simp
  · intro i hi
    simp only [Layout.group, anchored_insertion, if_neg (Ne.symm hi), List.append_nil]

private theorem zipIdx_set {α : Type} (xs : List α) (j : Nat) (x : α) :
    (xs.set j x).zipIdx = xs.zipIdx.map fun e => if e.2 = j then (x, e.2) else e := by
  refine List.ext_getElem? fun k => ?_
  simp only [List.getElem?_zipIdx, List.getElem?_map, List.getElem?_set, Nat.zero_add]
  by_cases hk : j = k
  · subst hk
    by_cases hlt : j < xs.length <;> simp [hlt]
  · cases xs[k]? <;> simp [hk, Ne.symm hk]

private theorem map_anchored_of_source (l : Layout) (i j : Nat) (text : Text) :
    (l.anchored i).map (fun e => if e.1 = .source j then (.source j, text) else e) =
      l.anchored i := by
  refine (List.map_congr_left fun e he => ?_).trans (List.map_id _)
  obtain ⟨k, hk, -⟩ := mem_anchored_iff.mp (show (e.1, e.2) ∈ l.anchored i from he)
  simp [hk]

private theorem anchored_replace {l : Layout} {j : Nat} {insertion : Insertion}
    (hj : l.insertions[j]? = some insertion) (text : Text) (i : Nat) :
    anchored { l with insertions := l.insertions.set j { insertion with text } } i =
      (l.anchored i).map fun e => if e.1 = .inserted j then (.inserted j, text) else e := by
  rw [anchored, anchored, zipIdx_set, List.filterMap_map, List.map_filterMap]
  refine List.filterMap_congr fun ⟨ins, k⟩ hmem => ?_
  rw [List.mk_mem_zipIdx_iff_getElem?] at hmem
  by_cases hk : k = j
  · subst hk
    obtain rfl : insertion = ins := Option.some.inj (hj.symm.trans hmem)
    by_cases hi : insertion.anchor = i <;> simp [hi]
  · by_cases hi : ins.anchor = i <;> simp [hi, hk]

theorem group_replace {l l' : Layout} {slot : Slot} {text : Text}
    (h : l.replace? slot text = some l') (i : Nat) :
    l'.group i = (l.group i).map fun e => if e.1 = slot then (slot, text) else e := by
  cases slot with
  | source j =>
    obtain ⟨row, hrow, rfl⟩ := Option.map_eq_some_iff.mp h
    have hanchored : ∀ rows, anchored { l with rows } i = l.anchored i := fun _ => rfl
    simp only [group, List.getElem?_set, hanchored]
    by_cases hij : j = i
    · subst hij
      obtain ⟨hlt, -⟩ := List.getElem?_eq_some_iff.mp hrow
      simp [hlt, SourceRow.text, map_anchored_of_source]
    · cases l.rows[i]? with
      | none => simp [hij]
      | some other => simp [hij, Ne.symm hij, map_anchored_of_source]
  | inserted j =>
    obtain ⟨insertion, hj, rfl⟩ := Option.map_eq_some_iff.mp h
    simp only [group, anchored_replace hj]
    cases l.rows[i]? <;> simp

private theorem map_set_of_eq {α β : Type} {f : α → β} {xs : List α} {i : Nat} {x y : α}
    (h : xs[i]? = some y) (hf : f x = f y) : (xs.set i x).map f = xs.map f := by
  obtain ⟨hi, rfl⟩ := List.getElem?_eq_some_iff.mp h
  have hi' : i < (xs.map f).length := by simpa using hi
  have hget : (xs.map f)[i] = f xs[i] := List.getElem_map f
  rw [List.map_set, hf, ← hget, List.set_getElem_self]

/-- What a replacement leaves as it is, and what it changes. -/
structure Replaces (l l' : Layout) (slot : Slot) (text : Text) : Prop where
  written : l'.rows.map SourceRow.written = l.rows.map SourceRow.written
  anchors : l'.insertions.map Insertion.anchor = l.insertions.map Insertion.anchor
  text? : ∀ other, l'.text? other = if other = slot then some text else l.text? other

theorem exists_replaces {l : Layout} {slot : Slot} {current : Text}
    (h : l.text? slot = some current) (text : Text) :
    ∃ l', l.replace? slot text = some l' ∧ Replaces l l' slot text := by
  cases slot with
  | source i =>
    obtain ⟨row, hrow, -⟩ := Option.map_eq_some_iff.mp h
    have hi : i < l.rows.length := (List.getElem?_eq_some_iff.mp hrow).1
    refine ⟨{ l with rows := l.rows.set i { row with replacement := some text } },
      by rw [replace?, hrow, Option.map_some], ?_, rfl, fun other => ?_⟩
    · exact map_set_of_eq hrow rfl
    · cases other with
      | inserted j => rfl
      | source j =>
        by_cases hij : i = j
        · subst hij
          simp [Layout.text?, hi, SourceRow.text]
        · simp [Layout.text?, hij, Ne.symm hij]
  | inserted i =>
    obtain ⟨insertion, hins, -⟩ := Option.map_eq_some_iff.mp h
    have hi : i < l.insertions.length := (List.getElem?_eq_some_iff.mp hins).1
    refine ⟨{ l with insertions := l.insertions.set i { insertion with text } },
      by rw [replace?, hins, Option.map_some], rfl, ?_, fun other => ?_⟩
    · exact map_set_of_eq hins rfl
    · cases other with
      | source j => rfl
      | inserted j =>
        by_cases hij : i = j
        · subst hij
          simp [Layout.text?, hi]
        · simp [Layout.text?, hij, Ne.symm hij]

theorem Replaces.length_rows {l l' : Layout} {slot : Slot} {text : Text}
    (h : Replaces l l' slot text) : l'.rows.length = l.rows.length := by
  simpa using congrArg List.length h.written

theorem Replaces.anchor? {l l' : Layout} {slot : Slot} {text : Text} (h : Replaces l l' slot text)
    (other : Slot) : l'.anchor? other = l.anchor? other := by
  cases other with
  | source i => rfl
  | inserted i =>
    rw [Layout.anchor?, Layout.anchor?, ← List.getElem?_map, ← List.getElem?_map, h.anchors]

theorem Replaces.isAnchored {l l' : Layout} {slot : Slot} {text : Text}
    (h : Replaces l l' slot text) (hl : l.IsAnchored) : l'.IsAnchored := by
  intro insertion hmem
  have hanchor : insertion.anchor ∈ l.insertions.map Insertion.anchor :=
    h.anchors ▸ List.mem_map_of_mem hmem
  obtain ⟨other, hother, heq⟩ := List.mem_map.mp hanchor
  rw [h.length_rows, ← heq]
  exact hl other hother

theorem exists_replace {l : Layout} {a : Nat} {above : List (Slot × Text)} {slot : Slot}
    {current : Text} (h : l.group a = above ++ [(slot, current)]) (text : Text) :
    ∃ l', l.replace? slot text = some l' ∧ l.ChangesGroup l' a (above ++ [(slot, text)]) := by
  have hmem : (slot, current) ∈ l.group a := by simp [h]
  have htext : l.text? slot = some current := text?_of_mem_group hmem
  obtain ⟨l', hl', hreplaces⟩ := exists_replaces htext text
  refine ⟨l', hl', hreplaces.length_rows, hreplaces.isAnchored, ?_, fun i hi => ?_⟩
  · have hnew : ∀ e ∈ above, e.1 ≠ slot := by
      intro e he hslot
      have := l.group_nodup a
      rw [h, List.map_append, List.nodup_append] at this
      exact this.2.2 e.1 (List.mem_map_of_mem he) slot (by simp) hslot
    rw [group_replace hl', h, List.map_append]
    congr 1
    · refine (List.map_congr_left fun e he => ?_).trans (List.map_id _)
      simp [hnew e he]
    · simp
  · rw [group_replace hl']
    refine (List.map_congr_left fun e he => ?_).trans (List.map_id _)
    have hne : e.1 ≠ slot := by
      intro hslot
      have hanchor := anchor?_of_mem_group he
      rw [hslot, anchor?_of_mem_group hmem] at hanchor
      exact hi (Option.some.inj hanchor).symm
    simp [hne]

end Layout

end NoticeCheck
