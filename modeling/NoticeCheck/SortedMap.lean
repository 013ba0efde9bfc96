/-!
Finite maps as association lists in ascending key order. Keys are compared, not tested for
equality: two spellings that compare equal are one key, and the spelling stored first stays.
-/
namespace NoticeCheck

universe u v w

/-- Entries have strictly ascending keys. -/
structure SortedMap (κ : Type u) (ν : Type v) [Ord κ] where
  entries : List (κ × ν)
  ascending : entries.Pairwise fun a b => compare a.1 b.1 = .lt
  deriving DecidableEq

namespace SortedMap

variable {κ : Type u} {ν : Type v} {ω : Type w} [Ord κ]

def empty : SortedMap κ ν :=
  ⟨[], .nil⟩

instance : Inhabited (SortedMap κ ν) :=
  ⟨empty⟩

def keys (m : SortedMap κ ν) : List κ :=
  m.entries.map Prod.fst

def values (m : SortedMap κ ν) : List ν :=
  m.entries.map Prod.snd

def get? (m : SortedMap κ ν) (k : κ) : Option ν :=
  (m.entries.find? fun e => compare k e.1 == .eq).map Prod.snd

/-- Put `v` at `k`, keeping the spelling of a key already there. -/
def insertEntry (k : κ) (v : ν) : List (κ × ν) → List (κ × ν)
  | [] => [(k, v)]
  | e :: es =>
    match compare k e.1 with
    | .lt => (k, v) :: e :: es
    | .eq => (e.1, v) :: es
    | .gt => e :: insertEntry k v es

theorem key_of_mem_insertEntry {k : κ} {v : ν} {es : List (κ × ν)} {e : κ × ν}
    (h : e ∈ insertEntry k v es) : e.1 = k ∨ ∃ e' ∈ es, e'.1 = e.1 := by
  induction es with
  | nil => simp_all [insertEntry]
  | cons a es ih =>
    rw [insertEntry] at h
    split at h
    · rcases List.mem_cons.mp h with rfl | h
      · exact .inl rfl
      · exact .inr ⟨e, h, rfl⟩
    · rcases List.mem_cons.mp h with rfl | h
      · exact .inr ⟨a, List.mem_cons_self, rfl⟩
      · exact .inr ⟨e, List.mem_cons_of_mem _ h, rfl⟩
    · rcases List.mem_cons.mp h with rfl | h
      · exact .inr ⟨e, List.mem_cons_self, rfl⟩
      · rcases ih h with h | ⟨e', he', h⟩
        · exact .inl h
        · exact .inr ⟨e', List.mem_cons_of_mem _ he', h⟩

theorem insertEntry_ascending [Std.TransOrd κ] (k : κ) (v : ν) {es : List (κ × ν)}
    (h : es.Pairwise fun a b => compare a.1 b.1 = .lt) :
    (insertEntry k v es).Pairwise fun a b => compare a.1 b.1 = .lt := by
  induction es with
  | nil => simp [insertEntry]
  | cons a es ih =>
    obtain ⟨ha, hes⟩ := List.pairwise_cons.mp h
    rw [insertEntry]
    split
    · next hk =>
      refine List.pairwise_cons.mpr ⟨fun b hb => ?_, h⟩
      rcases List.mem_cons.mp hb with rfl | hb
      · exact hk
      · exact Std.TransCmp.lt_trans hk (ha b hb)
    · exact List.pairwise_cons.mpr ⟨ha, hes⟩
    · next hk =>
      refine List.pairwise_cons.mpr ⟨fun b hb => ?_, ih hes⟩
      rcases key_of_mem_insertEntry hb with hb | ⟨b', hb', hb⟩
      · rw [hb]; exact Std.OrientedCmp.lt_of_gt hk
      · rw [← hb]; exact ha b' hb'

def insert [Std.TransOrd κ] (m : SortedMap κ ν) (k : κ) (v : ν) : SortedMap κ ν :=
  ⟨insertEntry k v m.entries, insertEntry_ascending k v m.ascending⟩

def erase (m : SortedMap κ ν) (k : κ) : SortedMap κ ν :=
  ⟨m.entries.filter fun e => compare k e.1 != .eq, m.ascending.filter _⟩

/-- Insert a value, or erase the key when there is none. -/
def put [Std.TransOrd κ] (m : SortedMap κ ν) (k : κ) : Option ν → SortedMap κ ν
  | some v => m.insert k v
  | none => m.erase k

/-- Replace the value at `k` by its image under `f`, an absent one counting as `absent`. -/
def update [Std.TransOrd κ] (m : SortedMap κ ν) (k : κ) (absent : ν) (f : ν → ν) :
    SortedMap κ ν :=
  m.insert k (f ((m.get? k).getD absent))

def mapValues (f : ν → ω) (m : SortedMap κ ν) : SortedMap κ ω :=
  ⟨m.entries.map fun e => (e.1, f e.2), List.pairwise_map.mpr m.ascending⟩

@[simp] theorem get?_empty (k : κ) : (empty : SortedMap κ ν).get? k = none := rfl

@[simp] theorem get?_mapValues (f : ν → ω) (m : SortedMap κ ν) (k : κ) :
    (m.mapValues f).get? k = (m.get? k).map f := by
  simp [get?, mapValues, List.find?_map, Function.comp_def]

theorem find?_insertEntry [Std.TransOrd κ] (k j : κ) (v : ν) (es : List (κ × ν)) :
    ((insertEntry k v es).find? fun e => compare j e.1 == .eq).map Prod.snd =
      if compare j k = .eq then some v
      else (es.find? fun e => compare j e.1 == .eq).map Prod.snd := by
  induction es with
  | nil => by_cases h : compare j k = .eq <;> simp [insertEntry, h]
  | cons a es ih =>
    rw [insertEntry]
    split
    · by_cases h : compare j k = .eq <;> simp [h]
    · next hk =>
      have : compare j k = compare j a.1 := Std.TransCmp.congr_right hk
      by_cases h : compare j k = .eq <;> simp [← this, h]
    · next hk =>
      by_cases h : compare j k = .eq
      · have : compare j a.1 = .gt := (Std.TransCmp.congr_left h).trans hk
        simp [this, ih, h]
      · by_cases ha : compare j a.1 = .eq
        · simp [ha, h]
        · simp [ha, ih, h]

theorem get?_insert [Std.TransOrd κ] (m : SortedMap κ ν) (k j : κ) (v : ν) :
    (m.insert k v).get? j = if compare j k = .eq then some v else m.get? j :=
  find?_insertEntry k j v m.entries

theorem get?_erase [Std.TransOrd κ] (m : SortedMap κ ν) (k j : κ) :
    (m.erase k).get? j = if compare j k = .eq then none else m.get? j := by
  simp only [get?, erase, List.find?_filter]
  split
  · next h =>
    rw [List.find?_eq_none.mpr, Option.map_none]
    intro e _
    have : compare j e.1 = compare k e.1 := Std.TransCmp.congr_left h
    simp [this]
  · next h =>
    congr 2
    funext e
    by_cases hk : compare k e.1 = .eq
    · have : compare j e.1 = compare j k := (Std.TransCmp.congr_right hk).symm
      simp [hk, this, h]
    · cases compare j e.1 <;> simp [hk]

/-- Same keys under the order, and values related by `r`. -/
def agrees (r : ν → ν → Bool) (m n : SortedMap κ ν) : Bool :=
  m.entries.length == n.entries.length &&
    (m.entries.zip n.entries).all fun (a, b) => compare a.1 b.1 == .eq && r a.2 b.2

end SortedMap

end NoticeCheck
