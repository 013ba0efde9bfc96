import NoticeCheck.Proofs.Layout
import NoticeCheck.Proofs.Text

/-!
Layouts planned by one change after another. Every slot that was handed out on the way has a row of
its own in the laid out text, in an order that the changes alone decide.
-/
namespace NoticeCheck.Layout

inductive Change where
  | replace (slot : Slot) (text : Text)
  | insertBelow (slot : Slot) (text : Text)

namespace Change

def slot : Change → Slot
  | replace slot _ => slot
  | insertBelow slot _ => slot

def text : Change → Text
  | replace _ text => text
  | insertBelow _ text => text

def isInsertion : Change → Bool
  | replace .. => false
  | insertBelow .. => true

end Change

/-- A layout on its way, and the slots that were handed out, each with the slot it was put below. -/
structure Draft where
  source : Text
  layout : Layout
  below : List (Slot × Slot)

namespace Draft

def start (source : Text) : Draft :=
  ⟨source, .ofText source, []⟩

/-- The slots that can be named: those of the source, and those handed out so far. -/
def slots (d : Draft) : List Slot :=
  (List.range d.source.rows.length).map .source ++ d.below.map Prod.fst

def change? (d : Draft) : Change → Option Draft
  | .replace slot text => (d.layout.replace? slot text).map fun layout => { d with layout }
  | .insertBelow slot text => (d.layout.insertBelow? slot text).map fun (layout, new) =>
    { d with layout, below := d.below ++ [(new, slot)] }

/-- Each change is made at a slot that can be named at that moment, with a text of one row. -/
def Admits (d : Draft) : List Change → Prop
  | [] => True
  | c :: changes => c.slot ∈ d.slots ∧ '\n' ∉ c.text ∧
    ∀ d' ∈ d.change? c, d'.Admits changes

instance decidableAdmits : (d : Draft) → (changes : List Change) → Decidable (d.Admits changes)
  | _, [] => .isTrue trivial
  | d, c :: changes =>
    have := fun d' : Draft => decidableAdmits d' changes
    inferInstanceAs (Decidable (c.slot ∈ d.slots ∧ '\n' ∉ c.text ∧
      ∀ d' ∈ d.change? c, d'.Admits changes))

end Draft

/-- The source row that a slot goes back to, by way of the slots that rows were put below. -/
inductive AnchoredAt (below : List (Slot × Slot)) : Slot → Nat → Prop
  | source (i : Nat) : AnchoredAt below (.source i) i
  | inserted {new slot : Slot} {i : Nat} (hnew : (new, slot) ∈ below)
      (hslot : AnchoredAt below slot i) : AnchoredAt below new i

theorem AnchoredAt.mono {below more : List (Slot × Slot)} (hsub : below ⊆ more) {slot : Slot}
    {i : Nat} (h : AnchoredAt below slot i) : AnchoredAt more slot i := by
  induction h with
  | source i => exact .source i
  | inserted hnew _ ih => exact .inserted (hsub hnew) ih

/-- The row of one slot comes above that of another. -/
def Result.Above (r : Result) (s t : Slot) : Prop :=
  ∃ m n, r.number? s = some m ∧ r.number? t = some n ∧ m < n

/-- A text in which the rows of a draft have the places they should. -/
structure Draft.IsLaidOut (d : Draft) (r : Result) : Prop where
  size : r.text.rows.length = d.source.rows.length + d.below.length
  numbered : ∀ slot ∈ d.slots, ∃ n, r.number? slot = some n ∧ 1 ≤ n ∧ n ≤ r.text.rows.length
  named : ∀ n, 1 ≤ n → n ≤ r.text.rows.length → ∃! slot, slot ∈ d.slots ∧ r.number? slot = some n
  row : ∀ slot ∈ d.slots, ∀ n, r.number? slot = some n →
    r.text.rows[n - 1]? = d.layout.text? slot
  sources : ∀ i j, i < j → j < d.source.rows.length → r.Above (.source i) (.source j)
  anchored : ∀ slot ∈ d.slots, ∃ i < d.source.rows.length, AnchoredAt d.below slot i
  belowAnchor : ∀ slot ∈ d.below.map Prod.fst, ∀ i, AnchoredAt d.below slot i →
    r.Above (.source i) slot
  aboveNext : ∀ slot ∈ d.slots, ∀ i, AnchoredAt d.below slot i →
    ∀ j, i < j → j < d.source.rows.length → r.Above slot (.source j)
  inCreationOrder : (d.below.map Prod.fst).Pairwise fun s t =>
    ∀ i, AnchoredAt d.below s i → AnchoredAt d.below t i → r.Above s t
  unchanged : d.layout.isEmpty = true → r.text = d.source

/-- What every change keeps true of a draft. -/
structure Draft.IsPlanned (d : Draft) : Prop where
  written : d.layout.rows.map SourceRow.written = d.source.rows
  oneRow : ∀ slot text, d.layout.text? slot = some text → '\n' ∉ text
  handedOut : d.below.map Prod.fst = (List.range d.layout.insertions.length).map .inserted
  anchored : ∀ p ∈ d.below, ∃ i < d.source.rows.length, AnchoredAt d.below p.2 i ∧
    d.layout.anchor? p.1 = some i ∧ d.layout.anchor? p.2 = some i

namespace Draft.IsPlanned

variable {d : Draft}

theorem length_rows (h : d.IsPlanned) : d.layout.rows.length = d.source.rows.length := by
  simpa using congrArg List.length h.written

theorem anchoredAt (h : d.IsPlanned) {slot : Slot} (hslot : slot ∈ d.slots) :
    ∃ i < d.source.rows.length, AnchoredAt d.below slot i ∧ d.layout.anchor? slot = some i := by
  rcases List.mem_append.mp hslot with hslot | hslot
  · obtain ⟨i, hi, rfl⟩ := List.mem_map.mp hslot
    exact ⟨i, List.mem_range.mp hi, .source i, rfl⟩
  · obtain ⟨⟨new, other⟩, hp, rfl⟩ := List.mem_map.mp hslot
    obtain ⟨i, hi, hother, hnew, -⟩ := h.anchored _ hp
    exact ⟨i, hi, .inserted hp hother, hnew⟩

theorem anchor?_of_anchoredAt (h : d.IsPlanned) {slot : Slot} {i : Nat}
    (hslot : AnchoredAt d.below slot i) : d.layout.anchor? slot = some i := by
  induction hslot with
  | source i => rfl
  | inserted hnew _ ih =>
    obtain ⟨j, -, -, hj, hj'⟩ := h.anchored _ hnew
    rw [hj, ← hj', ih]

theorem mem_slots_iff (h : d.IsPlanned) {slot : Slot} :
    slot ∈ d.slots ↔ ∃ text, d.layout.text? slot = some text := by
  rw [slots, h.handedOut, ← h.length_rows, ← Option.isSome_iff_exists]
  cases slot <;> simp [Layout.text?]

theorem isAnchored (h : d.IsPlanned) : d.layout.IsAnchored := by
  intro insertion hins
  obtain ⟨j, hj, hget⟩ := List.mem_iff_getElem.mp hins
  have htext : d.layout.text? (.inserted j) = some insertion.text := by
    simp [Layout.text?, hj, hget]
  obtain ⟨i, hi, -, hanchor⟩ := h.anchoredAt (h.mem_slots_iff.mpr ⟨_, htext⟩)
  obtain rfl : insertion.anchor = i := by simpa [Layout.anchor?, hj, hget] using hanchor
  rw [h.length_rows]
  exact hi

end Draft.IsPlanned

namespace Draft

theorem isPlanned_start (source : Text) : (start source).IsPlanned where
  written := by
    rw [start, Layout.ofText, List.map_map]
    exact List.map_id _
  oneRow slot text h := by
    cases slot with
    | source i =>
      obtain ⟨row, hrow, htext⟩ := Option.map_eq_some_iff.mp h
      obtain ⟨written, hmem, rfl⟩ := List.mem_map.mp (List.mem_of_getElem? hrow)
      exact htext ▸ Text.not_mem_of_mem_rows hmem
    | inserted i => cases h
  handedOut := rfl
  anchored := nofun

theorem exists_change_replace {d : Draft} (h : d.IsPlanned) {slot : Slot} {text : Text}
    (hslot : slot ∈ d.slots) (htext : '\n' ∉ text) :
    ∃ layout, d.change? (.replace slot text) = some { d with layout } ∧
      IsPlanned { d with layout } := by
  obtain ⟨current, hcurrent⟩ := h.mem_slots_iff.mp hslot
  obtain ⟨layout, hlayout, hreplaces⟩ := exists_replaces hcurrent text
  refine ⟨layout, by rw [change?, hlayout, Option.map_some], ?_⟩
  constructor
  case written => exact hreplaces.written.trans h.written
  case oneRow =>
    intro other t ht
    rw [hreplaces.text?] at ht
    split at ht
    · obtain rfl := Option.some.inj ht
      exact htext
    · exact h.oneRow other t ht
  case handedOut =>
    have hlength : layout.insertions.length = d.layout.insertions.length := by
      simpa using congrArg List.length hreplaces.anchors
    rw [hlength]
    exact h.handedOut
  case anchored =>
    intro p hp
    simp only [hreplaces.anchor?]
    exact h.anchored p hp

theorem exists_change_insertBelow {d : Draft} (h : d.IsPlanned) {slot : Slot} {text : Text}
    (hslot : slot ∈ d.slots) (htext : '\n' ∉ text) :
    ∃ layout new, d.change? (.insertBelow slot text) =
        some { d with layout, below := d.below ++ [(new, slot)] } ∧
      IsPlanned { d with layout, below := d.below ++ [(new, slot)] } := by
  obtain ⟨a, ha, hat, hanchor⟩ := h.anchoredAt hslot
  refine ⟨{ d.layout with insertions := d.layout.insertions ++ [⟨a, text⟩] },
    .inserted d.layout.insertions.length, by simp [change?, insertBelow?, hanchor], ?_⟩
  have hsub : d.below ⊆ d.below ++ [(.inserted d.layout.insertions.length, slot)] :=
    List.subset_append_left ..
  constructor
  case written => exact h.written
  case oneRow =>
    intro other t ht
    rcases eq_or_text?_of_insertion ht with rfl | ht
    · exact htext
    · exact h.oneRow other t ht
  case handedOut => simp [h.handedOut, List.range_succ]
  case anchored =>
    intro p hp
    rcases List.mem_append.mp hp with hp | hp
    · obtain ⟨i, hi, hbelow, hnew, hslot⟩ := h.anchored p hp
      exact ⟨i, hi, hbelow.mono hsub, anchor?_insertion hnew _, anchor?_insertion hslot _⟩
    · obtain rfl := List.mem_singleton.mp hp
      exact ⟨a, ha, hat.mono hsub, by simp [Layout.anchor?], anchor?_insertion hanchor _⟩

theorem exists_changes {changes : List Change} :
    ∀ {d : Draft}, d.IsPlanned → d.Admits changes →
      ∃ d', changes.foldlM change? d = some d' ∧ d'.IsPlanned ∧ d'.source = d.source ∧
        d'.below.length = d.below.length + changes.countP Change.isInsertion := by
  induction changes with
  | nil => exact fun h _ => ⟨_, rfl, h, rfl, rfl⟩
  | cons c changes ih =>
    intro d h hadmits
    have hrest : ∀ d' ∈ d.change? c, d'.Admits changes := hadmits.2.2
    cases c with
    | replace slot text =>
      have hslot : slot ∈ d.slots := hadmits.1
      have htext : '\n' ∉ text := hadmits.2.1
      obtain ⟨layout, hchange, hplanned⟩ := exists_change_replace h hslot htext
      obtain ⟨d', hrun, hplanned', hsource, hlength⟩ := ih hplanned (hrest _ hchange)
      refine ⟨d', ?_, hplanned', hsource, ?_⟩
      · rw [List.foldlM_cons, hchange]
        exact hrun
      · rw [hlength, List.countP_cons_of_neg (by simp [Change.isInsertion])]
    | insertBelow slot text =>
      have hslot : slot ∈ d.slots := hadmits.1
      have htext : '\n' ∉ text := hadmits.2.1
      obtain ⟨layout, new, hchange, hplanned⟩ := exists_change_insertBelow h hslot htext
      obtain ⟨d', hrun, hplanned', hsource, hlength⟩ := ih hplanned (hrest _ hchange)
      refine ⟨d', ?_, hplanned', hsource, ?_⟩
      · rw [List.foldlM_cons, hchange]
        exact hrun
      · rw [hlength, List.countP_cons_of_pos rfl, List.length_append, List.length_singleton]
        omega

end Draft

namespace Draft.IsPlanned

variable {d : Draft}

theorem slots_nodup (h : d.IsPlanned) : d.slots.Nodup := by
  rw [slots, h.handedOut, List.nodup_append]
  refine ⟨?_, ?_, ?_⟩
  · exact List.nodup_range.map fun i j hij => Slot.source.inj hij
  · exact List.nodup_range.map fun i j hij => Slot.inserted.inj hij
  · rintro s hs t ht rfl
    obtain ⟨i, -, rfl⟩ := List.mem_map.mp hs
    obtain ⟨j, -, hj⟩ := List.mem_map.mp ht
    cases hj

/-- Each slot that can be named has one row. -/
theorem perm_slots (h : d.IsPlanned) : (d.layout.finalRows.map Prod.fst).Perm d.slots := by
  have hnodup : (d.layout.finalRows.map Prod.fst).Nodup := by
    rw [finalRows_eq_front]
    exact front_nodup ..
  refine (List.perm_ext_iff_of_nodup hnodup h.slots_nodup).mpr fun slot => ?_
  rw [h.mem_slots_iff, List.mem_map]
  constructor
  · rintro ⟨⟨_, text⟩, hmem, rfl⟩
    exact ⟨text, (mem_finalRows_iff h.isAnchored).mp hmem⟩
  · rintro ⟨text, htext⟩
    exact ⟨(slot, text), (mem_finalRows_iff h.isAnchored).mpr htext, rfl⟩

theorem rows_ofRows (h : d.IsPlanned) :
    (Text.ofRows (d.layout.finalRows.map Prod.snd)).rows = d.layout.finalRows.map Prod.snd := by
  refine Text.rows_ofRows ?_ fun row hrow => ?_
  · intro hnil
    have hlength := h.perm_slots.length_eq
    rw [List.map_eq_nil_iff.mp hnil] at hlength
    have hrows : d.source.rows ≠ [] := Text.cut_ne_nil _ _
    have hpos := List.length_pos_iff.mpr hrows
    simp [slots] at hlength
    omega
  · obtain ⟨⟨slot, text⟩, hmem, rfl⟩ := List.mem_map.mp hrow
    exact h.oneRow slot text ((mem_finalRows_iff h.isAnchored).mp hmem)

theorem source_mem_slots {i : Nat} (hi : i < d.source.rows.length) : .source i ∈ d.slots :=
  List.mem_append_left _ (List.mem_map_of_mem (List.mem_range.mpr hi))

theorem rank_lt_of_mem_below (h : d.IsPlanned) (i : Nat) {slot : Slot}
    (hslot : slot ∈ d.below.map Prod.fst) : (Slot.source i).rank < slot.rank := by
  rw [h.handedOut] at hslot
  obtain ⟨j, -, rfl⟩ := List.mem_map.mp hslot
  exact Nat.succ_pos j

theorem below_pairwise (h : d.IsPlanned) :
    (d.below.map Prod.fst).Pairwise fun s t => s.rank < t.rank := by
  rw [h.handedOut, List.pairwise_map]
  exact List.pairwise_lt_range.imp fun hjk => Nat.succ_lt_succ hjk

section Numbers

variable {r : Result} (h : d.IsPlanned) (hslots : r.slots = d.layout.finalRows.map Prod.fst)
  (hlimit : r.slots.length < Notice.numberLimit)

include h hslots hlimit

theorem number?_eq {slot : Slot} (hslot : slot ∈ d.slots) :
    r.number? slot = some (r.slots.idxOf slot + 1) := by
  apply Result.number?_eq hlimit
  rw [hslots, h.perm_slots.mem_iff]
  exact hslot

theorem existsUnique_slot {n : Nat} (hpos : 1 ≤ n) (hn : n ≤ r.slots.length) :
    ∃! slot, slot ∈ d.slots ∧ r.number? slot = some n := by
  have hperm : r.slots.Perm d.slots := hslots ▸ h.perm_slots
  have hindex : n - 1 < r.slots.length := by omega
  have hmem : r.slots[n - 1] ∈ d.slots := hperm.mem_iff.mp (List.getElem_mem hindex)
  refine ⟨r.slots[n - 1], ⟨hmem, ?_⟩, ?_⟩
  · have hidxOf := (hperm.nodup_iff.mpr h.slots_nodup).idxOf_getElem (n - 1) hindex
    rw [h.number?_eq hslots hlimit hmem, hidxOf, Nat.sub_add_cancel hpos]
  · rintro slot ⟨hslot, heq⟩
    rw [h.number?_eq hslots hlimit hslot, Option.some.injEq] at heq
    have hget := List.getElem?_idxOf (hperm.mem_iff.mpr hslot)
    rw [show r.slots.idxOf slot = n - 1 by omega, List.getElem?_eq_getElem hindex] at hget
    exact (Option.some.inj hget).symm

theorem getElem?_finalRows {slot : Slot} (hslot : slot ∈ d.slots) {n : Nat}
    (hn : r.number? slot = some n) :
    (d.layout.finalRows.map Prod.snd)[n - 1]? = d.layout.text? slot := by
  have hmem : slot ∈ r.slots := by rwa [hslots, h.perm_slots.mem_iff]
  rw [h.number?_eq hslots hlimit hslot, Option.some.injEq] at hn
  have hget : r.slots[n - 1]? = some slot := by
    rw [← hn, Nat.add_sub_cancel]
    exact List.getElem?_idxOf hmem
  rw [hslots, List.getElem?_map, Option.map_eq_some_iff] at hget
  obtain ⟨⟨_, text⟩, hrow, rfl⟩ := hget
  have htext := (mem_finalRows_iff h.isAnchored).mp (List.mem_of_getElem? hrow)
  rw [List.getElem?_map, hrow, htext, Option.map_some]

theorem above_of_precedes {s t : Slot} (hs : s ∈ d.slots) (ht : t ∈ d.slots)
    (hst : d.layout.Precedes s t) : r.Above s t := by
  have hpairwise : r.slots.Pairwise d.layout.Precedes := by
    rw [hslots, finalRows_eq_front]
    exact front_pairwise ..
  refine ⟨_, _, h.number?_eq hslots hlimit hs, h.number?_eq hslots hlimit ht, ?_⟩
  rw [← h.perm_slots.mem_iff, ← hslots] at hs ht
  exact Nat.succ_lt_succ (idxOf_lt_of_precedes hpairwise hs ht hst)

end Numbers

theorem exists_isLaidOut (h : d.IsPlanned) (hsize : d.slots.length < Notice.numberLimit) :
    ∃ r, d.layout.result? = some r ∧ d.IsLaidOut r := by
  refine ⟨_, result?_eq h.isAnchored, ?_⟩
  generalize hr : (⟨Text.ofRows (d.layout.finalRows.map Prod.snd),
    d.layout.finalRows.map Prod.fst⟩ : Result) = r
  have hslots : r.slots = d.layout.finalRows.map Prod.fst := by rw [← hr]
  have hrows : r.text.rows = d.layout.finalRows.map Prod.snd := by rw [← hr, h.rows_ofRows]
  have hperm : r.slots.Perm d.slots := hslots ▸ h.perm_slots
  have hlength : r.text.rows.length = r.slots.length := by
    rw [hrows, hslots, List.length_map, List.length_map]
  have hlimit : r.slots.length < Notice.numberLimit := hperm.length_eq ▸ hsize
  constructor
  case size =>
    rw [hlength, hperm.length_eq, slots]
    simp
  case numbered =>
    intro slot hslot
    have hindex := List.idxOf_lt_length_of_mem (hperm.mem_iff.mpr hslot)
    exact ⟨_, h.number?_eq hslots hlimit hslot, by omega, by omega⟩
  case named =>
    intro n hpos hn
    exact h.existsUnique_slot hslots hlimit hpos (hlength ▸ hn)
  case row =>
    intro slot hslot n hn
    rw [hrows]
    exact h.getElem?_finalRows hslots hlimit hslot hn
  case sources =>
    intro i j hij hj
    exact h.above_of_precedes hslots hlimit (source_mem_slots (hij.trans hj)) (source_mem_slots hj)
      ⟨i, j, rfl, rfl, .inl hij⟩
  case anchored =>
    intro slot hslot
    obtain ⟨i, hi, hat, -⟩ := h.anchoredAt hslot
    exact ⟨i, hi, hat⟩
  case belowAnchor =>
    intro slot hslot i hat
    have hmem : slot ∈ d.slots := List.mem_append_right _ hslot
    have hanchor := h.anchor?_of_anchoredAt hat
    obtain ⟨j, hj, -, hanchor'⟩ := h.anchoredAt hmem
    obtain rfl : i = j := Option.some.inj (hanchor.symm.trans hanchor')
    exact h.above_of_precedes hslots hlimit (source_mem_slots hj) hmem
      ⟨i, i, rfl, hanchor, .inr ⟨rfl, h.rank_lt_of_mem_below i hslot⟩⟩
  case aboveNext =>
    intro slot hslot i hat j hij hj
    exact h.above_of_precedes hslots hlimit hslot (source_mem_slots hj)
      ⟨i, j, h.anchor?_of_anchoredAt hat, rfl, .inl hij⟩
  case inCreationOrder =>
    refine h.below_pairwise.imp_of_mem fun {s t} hs ht hrank i hat hat' => ?_
    exact h.above_of_precedes hslots hlimit (List.mem_append_right _ hs)
      (List.mem_append_right _ ht)
      ⟨i, i, h.anchor?_of_anchoredAt hat, h.anchor?_of_anchoredAt hat', .inr ⟨rfl, hrank⟩⟩
  case unchanged =>
    intro hempty
    rw [← hr, finalRows_of_isEmpty hempty, h.written, Text.ofRows_rows]

end Draft.IsPlanned

/--
Any sequence of changes, each at a slot that can be named when it is made, can be planned and laid
out, as long as the rows can be counted: the slots are renumbered one to one, in the order that the
source and the changes give them.
-/
theorem exists_result_of_changes {source : Text} {changes : List Change}
    (h : (Draft.start source).Admits changes)
    (hsize : source.rows.length + changes.countP Change.isInsertion < Notice.numberLimit) :
    ∃ d r, changes.foldlM Draft.change? (Draft.start source) = some d ∧
      d.layout.result? = some r ∧ d.source = source ∧
      d.below.length = changes.countP Change.isInsertion ∧ d.IsLaidOut r := by
  obtain ⟨d, hrun, hplanned, hsource, hlength⟩ :=
    Draft.exists_changes (Draft.isPlanned_start source) h
  have hbelow : d.below.length = changes.countP Change.isInsertion := by
    rw [hlength]
    exact Nat.zero_add _
  have hslots : d.slots.length < Notice.numberLimit := by
    have hcount : d.slots.length = source.rows.length + changes.countP Change.isInsertion := by
      rw [Draft.slots, List.length_append, List.length_map, List.length_map, List.length_range,
        hbelow, hsource]
      rfl
    omega
  obtain ⟨r, hr, hlaid⟩ := hplanned.exists_isLaidOut hslots
  exact ⟨d, r, hrun, hr, hsource, hbelow, hlaid⟩

/-- Rows inserted below rows that were inserted before, with replacements in between. -/
theorem exists_result_of_interleaved_changes :
    let source : Text := "a\nb".toList
    let changes : List Change :=
      [.insertBelow (.source 0) "x".toList, .insertBelow (.inserted 0) "y".toList,
        .replace (.source 1) "B".toList, .insertBelow (.source 1) "w".toList,
        .insertBelow (.source 0) "z".toList, .replace (.inserted 0) "X".toList]
    (Draft.start source).Admits changes ∧
      source.rows.length + changes.countP Change.isInsertion < Notice.numberLimit ∧
      ∃ d r, changes.foldlM Draft.change? (Draft.start source) = some d ∧
        d.layout.result? = some r ∧ d.IsLaidOut r ∧
        r.text = "a\nX\ny\nz\nB\nw".toList ∧ r.number? (.inserted 1) = some 3 := by
  intro source changes
  have hadmits : (Draft.start source).Admits changes := by decide
  have hsize : source.rows.length + changes.countP Change.isInsertion < Notice.numberLimit := by
    decide
  obtain ⟨d, r, hrun, hr, -, -, hlaid⟩ := exists_result_of_changes hadmits hsize
  refine ⟨hadmits, hsize, d, r, hrun, hr, hlaid, ?_⟩
  obtain rfl := Option.some.inj hrun
  obtain rfl := Option.some.inj hr
  decide

end NoticeCheck.Layout
