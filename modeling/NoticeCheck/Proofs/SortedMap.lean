import NoticeCheck.SortedMap

/-! Look-up in sorted maps against their entries, and what filtering by key finds in all values. -/
namespace NoticeCheck.SortedMap

universe u v w

variable {κ : Type u} {ν : Type v} [Ord κ] [Std.TransOrd κ]

private theorem find?_of_mem {es : List (κ × ν)}
    (hes : es.Pairwise fun a b => compare a.1 b.1 = .lt) {k j : κ} {v : ν} (he : (k, v) ∈ es)
    (hj : compare j k = .eq) : (es.find? fun e => compare j e.1 == .eq) = some (k, v) := by
  induction es with
  | nil => cases he
  | cons a es ih =>
    obtain ⟨ha, hes⟩ := List.pairwise_cons.mp hes
    rcases List.mem_cons.mp he with rfl | he
    · simp [hj]
    · have : compare j a.1 = .gt :=
        (Std.TransCmp.congr_left hj).trans (Std.OrientedCmp.gt_of_lt (ha _ he))
      simpa [this] using ih hes he

theorem get?_of_mem {m : SortedMap κ ν} {k j : κ} {v : ν} (he : (k, v) ∈ m.entries)
    (hj : compare j k = .eq) : m.get? j = some v := by
  rw [get?, find?_of_mem m.ascending he hj, Option.map_some]

omit [Std.TransOrd κ] in
theorem exists_mem_of_get? {m : SortedMap κ ν} {j : κ} {v : ν} (h : m.get? j = some v) :
    ∃ k, compare j k = .eq ∧ (k, v) ∈ m.entries := by
  obtain ⟨e, he, rfl⟩ := Option.map_eq_some_iff.mp h
  exact ⟨e.1, by simpa using List.find?_some he, List.mem_of_find?_eq_some he⟩

omit [Std.TransOrd κ] in
private theorem mem_insertEntry {k : κ} {v : ν} {es : List (κ × ν)} {e : κ × ν}
    (h : e ∈ insertEntry k v es) : e = (k, v) ∨ (compare k e.1 = .eq ∧ e.2 = v) ∨ e ∈ es := by
  induction es with
  | nil => exact .inl (List.mem_singleton.mp h)
  | cons a es ih =>
    rw [insertEntry] at h
    split at h
    · rcases List.mem_cons.mp h with rfl | h
      · exact .inl rfl
      · exact .inr (.inr h)
    · next hk =>
      rcases List.mem_cons.mp h with rfl | h
      · exact .inr (.inl ⟨hk, rfl⟩)
      · exact .inr (.inr (List.mem_cons_of_mem _ h))
    · rcases List.mem_cons.mp h with rfl | h
      · exact .inr (.inr List.mem_cons_self)
      · rcases ih h with h | h | h
        · exact .inl h
        · exact .inr (.inl h)
        · exact .inr (.inr (List.mem_cons_of_mem _ h))

/-- What is in a map is what was put there last or was in it before. -/
theorem mem_put {m : SortedMap κ ν} {k : κ} {v : Option ν} {e : κ × ν}
    (h : e ∈ (m.put k v).entries) : (compare k e.1 = .eq ∧ v = some e.2) ∨ e ∈ m.entries := by
  cases v with
  | none => exact .inr (List.mem_filter.mp h).1
  | some v =>
    rcases mem_insertEntry h with rfl | ⟨hkey, rfl⟩ | hold
    · exact .inl ⟨Std.ReflCmp.compare_self, rfl⟩
    · exact .inl ⟨hkey, rfl⟩
    · exact .inr hold

omit [Std.TransOrd κ] in
private theorem mem_insertEntry_of_ne {k : κ} {v : ν} {es : List (κ × ν)} {e : κ × ν}
    (he : e ∈ es) (hne : compare k e.1 ≠ .eq) : e ∈ insertEntry k v es := by
  induction es with
  | nil => cases he
  | cons a es ih =>
    rw [insertEntry]
    split
    · exact List.mem_cons_of_mem _ he
    · next hk =>
      rcases List.mem_cons.mp he with rfl | he
      · exact absurd hk hne
      · exact List.mem_cons_of_mem _ he
    · rcases List.mem_cons.mp he with rfl | he
      · exact List.mem_cons_self
      · exact List.mem_cons_of_mem _ (ih he)

/-- Entries under other keys stay, and no others are added. -/
theorem mem_put_iff_of_ne {m : SortedMap κ ν} {k : κ} {v : Option ν} {e : κ × ν}
    (hne : compare k e.1 ≠ .eq) : e ∈ (m.put k v).entries ↔ e ∈ m.entries := by
  constructor
  · intro h
    rcases mem_put h with ⟨hkey, -⟩ | hold
    · exact absurd hkey hne
    · exact hold
  · intro h
    cases v with
    | none => exact List.mem_filter.mpr ⟨h, by simpa using hne⟩
    | some v => exact mem_insertEntry_of_ne h hne

theorem get?_put (m : SortedMap κ ν) (k j : κ) (v : Option ν) :
    (m.put k v).get? j = if compare j k = .eq then v else m.get? j := by
  cases v with
  | none => exact get?_erase m k j
  | some v => exact get?_insert m k j v

omit [Std.TransOrd κ] in
private theorem insertEntry_insertEntry [Std.ReflOrd κ] (k : κ) (v w : ν) (es : List (κ × ν)) :
    insertEntry k w (insertEntry k v es) = insertEntry k w es := by
  induction es with
  | nil => simp [insertEntry]
  | cons a es ih => cases hk : compare k a.1 <;> simp [insertEntry, hk, ih]

/-- The value put under a key last is the one that stays. -/
theorem insert_insert (m : SortedMap κ ν) (k : κ) (v w : ν) :
    (m.insert k v).insert k w = m.insert k w := by
  simp only [insert, insertEntry_insertEntry]

private theorem insertEntry_comm_of_lt {j k : κ} (h : compare j k = .lt) (v w : ν)
    (es : List (κ × ν)) :
    insertEntry j v (insertEntry k w es) = insertEntry k w (insertEntry j v es) := by
  have hgt : compare k j = .gt := Std.OrientedCmp.gt_of_lt h
  induction es with
  | nil => simp [insertEntry, h, hgt]
  | cons a es ih =>
    cases hj : compare j a.1 with
    | lt => cases hk : compare k a.1 <;> simp [insertEntry, h, hgt, hj, hk]
    | eq =>
      have hk : compare k a.1 = .gt := (Std.TransCmp.congr_right hj).symm.trans hgt
      simp [insertEntry, hj, hk]
    | gt =>
      have hk : compare k a.1 = .gt := Std.TransCmp.gt_trans hgt hj
      simp [insertEntry, hj, hk, ih]

private theorem insert_comm (m : SortedMap κ ν) {j k : κ} (h : compare j k ≠ .eq) (v w : ν) :
    (m.insert j v).insert k w = (m.insert k w).insert j v := by
  unfold insert
  cases hjk : compare j k with
  | eq => exact absurd hjk h
  | lt => simp only [insertEntry_comm_of_lt hjk]
  | gt => simp only [insertEntry_comm_of_lt (Std.OrientedCmp.lt_of_gt hjk)]

omit [Std.TransOrd κ] in
private theorem insertEntry_of_forall_lt {k : κ} {es : List (κ × ν)}
    (h : ∀ e ∈ es, compare k e.1 = .lt) (v : ν) : insertEntry k v es = (k, v) :: es := by
  cases es with
  | nil => rfl
  | cons a es => rw [insertEntry, h a List.mem_cons_self]

private theorem erase_insert_comm (m : SortedMap κ ν) {j k : κ} (h : compare j k ≠ .eq) (w : ν) :
    (m.erase j).insert k w = (m.insert k w).erase j := by
  have hentries : ∀ es : List (κ × ν), es.Pairwise (fun a b => compare a.1 b.1 = .lt) →
      insertEntry k w (es.filter fun e => compare j e.1 != .eq) =
        (insertEntry k w es).filter fun e => compare j e.1 != .eq := by
    intro es hes
    induction es with
    | nil => simp [insertEntry, h]
    | cons a es ih =>
      obtain ⟨ha, hes⟩ := List.pairwise_cons.mp hes
      by_cases hj : compare j a.1 = .eq
      · -- the entry is taken out, and what is put before it is put before the rest
        cases hk : compare k a.1 with
        | lt =>
          have hbefore : ∀ e ∈ es.filter fun e => compare j e.1 != .eq, compare k e.1 = .lt :=
            fun e he => Std.TransCmp.lt_trans hk (ha e (List.mem_filter.mp he).1)
          simp [insertEntry, hj, hk, h, insertEntry_of_forall_lt hbefore]
        | eq => exact absurd ((Std.TransCmp.congr_right hk).trans hj) h
        | gt => simp [insertEntry, hj, hk, ih hes]
      · cases hk : compare k a.1 <;> simp [insertEntry, hj, hk, ih hes, h]
  simp only [insert, erase, hentries m.entries m.ascending]

omit [Std.TransOrd κ] in
private theorem erase_comm (m : SortedMap κ ν) (j k : κ) :
    (m.erase j).erase k = (m.erase k).erase j := by
  simp only [erase, List.filter_filter, Bool.and_comm]

/-- What is put under different keys, or taken from there, can be so in either order. -/
theorem put_comm (m : SortedMap κ ν) {j k : κ} (h : compare j k ≠ .eq) (v w : Option ν) :
    (m.put j v).put k w = (m.put k w).put j v := by
  have h' : compare k j ≠ .eq := fun hkj => h (Std.OrientedCmp.eq_symm hkj)
  cases v with
  | none =>
    cases w with
    | none => exact m.erase_comm j k
    | some w => exact m.erase_insert_comm h w
  | some v =>
    cases w with
    | none => exact (m.erase_insert_comm h' v).symm
    | some w => exact m.insert_comm h v w

theorem get?_congr {m : SortedMap κ ν} {j k : κ} (h : compare j k = .eq) :
    m.get? j = m.get? k := by
  have hsame : ∀ e : κ × ν, compare j e.1 = compare k e.1 := fun _ => Std.TransCmp.congr_left h
  simp only [get?, hsame]

theorem forall_values_iff {m : SortedMap κ ν} {p : ν → Prop} :
    (∀ v ∈ m.values, p v) ↔ ∀ k v, m.get? k = some v → p v := by
  constructor
  · intro h k v hv
    obtain ⟨k', -, hmem⟩ := exists_mem_of_get? hv
    exact h v (List.mem_map.mpr ⟨(k', v), hmem, rfl⟩)
  · intro h v hv
    obtain ⟨e, he, rfl⟩ := List.mem_map.mp hv
    exact h e.1 e.2 (get?_of_mem he Std.ReflCmp.compare_self)

theorem get?_update (m : SortedMap κ ν) (k j : κ) (absent : ν) (f : ν → ν) :
    (m.update k absent f).get? j =
      if compare j k = .eq then some (f ((m.get? k).getD absent)) else m.get? j :=
  get?_insert m k j _

omit [Std.TransOrd κ] in
private theorem map_fst_insertEntry (k : κ) (v w : ν) {es fs : List (κ × ν)}
    (h : es.map Prod.fst = fs.map Prod.fst) :
    (insertEntry k v es).map Prod.fst = (insertEntry k w fs).map Prod.fst := by
  induction es generalizing fs with
  | nil =>
    obtain rfl := List.map_eq_nil_iff.mp h.symm
    rfl
  | cons e es ih =>
    cases fs with
    | nil => cases h
    | cons f fs =>
      obtain ⟨hkey, hrest⟩ : e.1 = f.1 ∧ es.map Prod.fst = fs.map Prod.fst := List.cons.inj h
      rw [insertEntry, insertEntry, ← hkey]
      split
      · exact congrArg (k :: ·) h
      · exact congrArg (e.1 :: ·) hrest
      · rw [List.map_cons, List.map_cons, hkey, ih hrest]

/-- The keys after an insertion do not depend on the values. -/
theorem keys_insert {m n : SortedMap κ ν} (h : m.keys = n.keys) (k : κ) (v w : ν) :
    (m.insert k v).keys = (n.insert k w).keys :=
  map_fst_insertEntry k v w h

theorem isSome_get?_iff [Std.LawfulEqOrd κ] {m : SortedMap κ ν} {k : κ} :
    (m.get? k).isSome = true ↔ k ∈ m.keys := by
  constructor
  · intro h
    obtain ⟨v, hv⟩ := Option.isSome_iff_exists.mp h
    obtain ⟨j, hj, hmem⟩ := exists_mem_of_get? hv
    exact Std.LawfulEqOrd.eq_of_compare hj ▸ List.mem_map_of_mem hmem
  · intro h
    obtain ⟨e, he, rfl⟩ := List.mem_map.mp h
    rw [get?_of_mem he Std.ReflCmp.compare_self]
    rfl

omit [Std.TransOrd κ] in
theorem keys_ascending (m : SortedMap κ ν) : m.keys.Pairwise fun j k => compare j k = .lt :=
  List.pairwise_map.mpr m.ascending

theorem keys_nodup (m : SortedMap κ ν) : m.keys.Nodup :=
  m.keys_ascending.imp fun hlt heq => by simp [heq] at hlt

omit [Std.TransOrd κ] in
theorem keys_mapValues {ω : Type w} (f : ν → ω) (m : SortedMap κ ν) :
    (m.mapValues f).keys = m.keys := by
  simp only [keys, mapValues, List.map_map, Function.comp_def]

/-- Keys without other spellings are known by look-up. -/
theorem keys_eq_of_isSome_get? [Std.LawfulEqOrd κ] {m n : SortedMap κ ν}
    (h : ∀ k, (m.get? k).isSome = (n.get? k).isSome) : m.keys = n.keys := by
  have hperm : m.keys.Perm n.keys := by
    refine (List.perm_ext_iff_of_nodup m.keys_nodup n.keys_nodup).mpr fun k => ?_
    rw [← isSome_get?_iff, ← isSome_get?_iff, h]
  refine List.Perm.eq_of_pairwise (fun a b _ _ hab hba => ?_) m.keys_ascending n.keys_ascending
    hperm
  rw [Std.OrientedCmp.gt_of_lt hab] at hba
  cases hba

theorem mem_entries_iff [Std.LawfulEqOrd κ] {m : SortedMap κ ν} {k : κ} {v : ν} :
    (k, v) ∈ m.entries ↔ m.get? k = some v := by
  constructor
  · intro h
    exact get?_of_mem h Std.ReflCmp.compare_self
  · intro h
    obtain ⟨j, hj, hmem⟩ := exists_mem_of_get? h
    exact Std.LawfulEqOrd.eq_of_compare hj ▸ hmem

/-- All entries of two maps; under a key of both, the value of the second one. -/
def union (m n : SortedMap κ ν) : SortedMap κ ν :=
  n.entries.foldr (fun e m => m.insert e.1 e.2) m

theorem get?_union (m n : SortedMap κ ν) (k : κ) :
    (m.union n).get? k = (n.get? k).or (m.get? k) := by
  obtain ⟨es, hes⟩ := n
  unfold union get?
  dsimp only
  clear hes
  induction es with
  | nil => rfl
  | cons e es ih =>
    have hinsert := get?_insert (es.foldr (fun e m => m.insert e.1 e.2) m) e.1 k e.2
    rw [List.foldr_cons, List.find?_cons]
    unfold get? at hinsert
    rw [hinsert, ih]
    by_cases hk : compare k e.1 = .eq
    · simp [hk]
    · have hne : (compare k e.1 == .eq) = false := by simpa using hk
      simp [hk, hne]

/-- A map with all keys raised. -/
def raise (n : Nat) (m : SortedMap Nat ν) : SortedMap Nat ν where
  entries := m.entries.map fun e => (e.1 + n, e.2)
  ascending := by
    refine List.pairwise_map.mpr (m.ascending.imp fun {a b} h => ?_)
    rw [Nat.compare_eq_lt] at h ⊢
    omega

omit [Ord κ] [Std.TransOrd κ] in
theorem get?_raise (n k : Nat) (m : SortedMap Nat ν) :
    (m.raise n).get? k = if n ≤ k then m.get? (k - n) else none := by
  unfold raise get?
  rw [List.find?_map]
  split
  · next hle =>
    have hkey : ∀ e : Nat × ν, (compare k (e.1 + n) == .eq) = (compare (k - n) e.1 == .eq) := by
      intro e
      rw [Bool.eq_iff_iff, beq_iff_eq, beq_iff_eq, Nat.compare_eq_eq, Nat.compare_eq_eq]
      omega
    simp [Function.comp_def, hkey]
  · next hlt =>
    have hnone : m.entries.find? ((fun e : Nat × ν => compare k e.1 == .eq) ∘
        fun e => (e.1 + n, e.2)) = none := by
      refine List.find?_eq_none.mpr fun e _ => ?_
      have hne : compare k (e.1 + n) ≠ .eq := by
        rw [Ne, Nat.compare_eq_eq]
        omega
      simpa using hne
    rw [hnone]
    rfl

/-- What values hold under a key, when all they hold is kept under the key it belongs to. -/
theorem filter_flatMap_values {α : Type w} {m : SortedMap κ ν} {contents : ν → List α}
    {key : α → κ} (hkey : ∀ e ∈ m.entries, ∀ x ∈ contents e.2, compare (key x) e.1 = .eq) (k : κ) :
    (m.values.flatMap contents).filter (fun x => compare (key x) k == .eq) =
      (m.get? k).elim [] contents := by
  obtain ⟨es, hes⟩ := m
  simp only [values, get?, List.flatMap_map] at hkey ⊢
  induction es with
  | nil => rfl
  | cons a es ih =>
    obtain ⟨ha, hes⟩ := List.pairwise_cons.mp hes
    have hrest := ih hes fun e he => hkey e (List.mem_cons_of_mem _ he)
    have hfirst : ∀ x ∈ contents a.2, compare (key x) k = compare a.1 k := fun x hx =>
      Std.TransCmp.congr_left (hkey a List.mem_cons_self x hx)
    rw [List.flatMap_cons, List.filter_append, hrest, List.find?_cons]
    by_cases hk : compare k a.1 = .eq
    · -- the keys behind this one are greater, so nothing else is found
      have hnone : (es.find? fun e => compare k e.1 == .eq) = none := by
        refine List.find?_eq_none.mpr fun e he => ?_
        simp [Std.TransCmp.congr_left hk, ha e he]
      have hall : (contents a.2).filter (fun x => compare (key x) k == .eq) = contents a.2 := by
        refine List.filter_eq_self.mpr fun x hx => ?_
        simp [hfirst x hx, Std.OrientedCmp.eq_symm hk]
      simp [hk, hnone, hall]
    · have hempty : (contents a.2).filter (fun x => compare (key x) k == .eq) = [] := by
        refine List.filter_eq_nil_iff.mpr fun x hx => ?_
        rw [hfirst x hx, beq_iff_eq]
        exact fun h => hk (Std.OrientedCmp.eq_symm h)
      have hne : (compare k a.1 == .eq) = false := by simpa using hk
      simp [hempty, hne]

end NoticeCheck.SortedMap
