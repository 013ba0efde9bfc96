import Mathlib.Data.List.Forall2
import NoticeCheck.Program
import NoticeCheck.Proofs.SortedMap

/-! Programs that differ only in the notices on their lines, and how those notices are related. -/
namespace NoticeCheck

universe u v

theorem forall₂_comp {α : Type u} {R S T : α → α → Prop} (h : ∀ a b c, R a b → S b c → T a c)
    {k l m : List α} (hkl : List.Forall₂ R k l) (hlm : List.Forall₂ S l m) :
    List.Forall₂ T k m := by
  induction hkl generalizing m with
  | nil =>
    cases hlm
    exact .nil
  | cons hab _ ih =>
    cases hlm with
    | cons hbc hlm => exact .cons (h _ _ _ hab hbc) (ih hlm)

/-- A member of the one list has a partner in the other. -/
theorem exists_mem_of_forall₂ {α : Type u} {β : Type v} {R : α → β → Prop} {l : List α}
    {m : List β} (h : List.Forall₂ R l m) {a : α} (ha : a ∈ l) : ∃ b ∈ m, R a b := by
  induction h with
  | nil => cases ha
  | cons hfirst _ ih =>
    rcases List.mem_cons.mp ha with rfl | ha
    · exact ⟨_, List.mem_cons_self, hfirst⟩
    · obtain ⟨b, hb, hab⟩ := ih ha
      exact ⟨b, List.mem_cons_of_mem _ hb, hab⟩

/-- Maps with the same keys and related values. -/
def SortedMap.Related {κ : Type u} {ν : Type v} [Ord κ] (r : ν → ν → Prop)
    (m n : SortedMap κ ν) : Prop :=
  List.Forall₂ (fun a b => a.1 = b.1 ∧ r a.2 b.2) m.entries n.entries

theorem SortedMap.Related.values {κ : Type u} {ν : Type v} [Ord κ] {r : ν → ν → Prop}
    {m n : SortedMap κ ν} (h : m.Related r n) : List.Forall₂ r m.values n.values :=
  List.rel_map (fun _ _ hab => hab.2) h

section

variable {κ : Type u} {ν : Type v} [Ord κ] {r : ν → ν → Prop} {m n : SortedMap κ ν}

theorem SortedMap.Related.get? (h : m.Related r n) (k : κ) :
    Option.Rel r (m.get? k) (n.get? k) := by
  obtain ⟨es, hes⟩ := m
  obtain ⟨fs, hfs⟩ := n
  replace h : List.Forall₂ (fun a b => a.1 = b.1 ∧ r a.2 b.2) es fs := h
  unfold SortedMap.get?
  dsimp only
  clear hes hfs
  induction h with
  | nil => exact .none
  | cons hab _ ih =>
    rw [List.find?_cons, List.find?_cons, ← hab.1]
    split
    · exact .some hab.2
    · exact ih

private theorem forall₂_insertEntry (k : κ) {v w : ν} (hvw : r v w) {es fs : List (κ × ν)}
    (h : List.Forall₂ (fun a b => a.1 = b.1 ∧ r a.2 b.2) es fs) :
    List.Forall₂ (fun a b => a.1 = b.1 ∧ r a.2 b.2) (SortedMap.insertEntry k v es)
      (SortedMap.insertEntry k w fs) := by
  induction h with
  | nil => exact .cons ⟨rfl, hvw⟩ .nil
  | cons hab hrest ih =>
    rw [SortedMap.insertEntry, SortedMap.insertEntry, ← hab.1]
    split
    · exact .cons ⟨rfl, hvw⟩ (.cons hab hrest)
    · exact .cons ⟨rfl, hvw⟩ hrest
    · exact .cons hab ih

theorem SortedMap.Related.put [Std.TransOrd κ] (h : m.Related r n) (k : κ) {v w : Option ν}
    (hvw : Option.Rel r v w) : (m.put k v).Related r (n.put k w) := by
  cases hvw with
  | none => exact List.rel_filter (fun a b hab => by simp only [hab.1]) h
  | some hvw => exact forall₂_insertEntry k hvw h

end

/-- Maps with the same keys are related when what is found in them is. -/
theorem SortedMap.related_of_get? {κ : Type u} {ν : Type v} [Ord κ] [Std.TransOrd κ]
    {r : ν → ν → Prop} {m n : SortedMap κ ν} (hkeys : m.keys = n.keys)
    (h : ∀ k a b, m.get? k = some a → n.get? k = some b → r a b) : m.Related r n := by
  have hentries : List.Forall₂ (fun a b => a.1 = b.1) m.entries n.entries := by
    rw [← List.forall₂_map_right_iff, ← List.forall₂_map_left_iff]
    exact List.forall₂_eq_eq_eq ▸ hkeys
  refine List.forall₂_iff_zip.mpr ⟨hentries.length_eq, fun {a b} hab => ?_⟩
  have hkey := List.forall₂_zip hentries hab
  obtain ⟨ha, hb⟩ := List.of_mem_zip hab
  refine ⟨hkey, h a.1 a.2 b.2 (get?_of_mem ha Std.ReflCmp.compare_self) (get?_of_mem hb ?_)⟩
  rw [hkey]
  exact Std.ReflCmp.compare_self

/-- Maps without other spellings of their keys are told apart by look-up. -/
theorem SortedMap.eq_of_get? {κ : Type u} {ν : Type v} [Ord κ] [Std.TransOrd κ]
    [Std.LawfulEqOrd κ] {m n : SortedMap κ ν} (h : ∀ k, m.get? k = n.get? k) : m = n := by
  have hkeys : m.keys = n.keys := keys_eq_of_isSome_get? fun k => by rw [h]
  have hrelated : m.Related Eq n := by
    refine related_of_get? hkeys fun k a b ha hb => ?_
    rw [h k] at ha
    exact Option.some.inj (ha.symm.trans hb)
  have hentries : List.Forall₂ Eq m.entries n.entries :=
    hrelated.imp fun a b hab => Prod.ext hab.1 hab.2
  cases m
  cases n
  rw [List.forall₂_eq_eq_eq] at hentries
  simpa using hentries

/-- Files are told apart by looking up their lines and names. -/
theorem File.ext_line? {f g : File} (hlocation : f.location = g.location)
    (hlines : ∀ k, f.line? k = g.line? k) (hnames : ∀ name, f.names.get? name = g.names.get? name) :
    f = g := by
  cases f
  cases g
  obtain rfl : _ = _ := hlocation
  obtain rfl : _ = _ := SortedMap.eq_of_get? hlines
  obtain rfl : _ = _ := SortedMap.eq_of_get? hnames
  rfl

section

variable (r : List Notice → List Notice → Prop)

structure Line.Related (l m : Line) : Prop where
  location : l.location = m.location
  number : l.number = m.number
  notices : r l.notices m.notices

structure File.Related (f g : File) : Prop where
  location : f.location = g.location
  lines : f.lines.Related (Line.Related r) g.lines
  names : f.names = g.names

/-- Programs with the same files, lines and names, whose notices are related line by line. -/
def Program.Related (p q : Program) : Prop :=
  p.files.Related (File.Related r) q.files

end

namespace Program

/-- The notices of a program, line by line. -/
def perLine (p : Program) : List (List Notice) :=
  p.files.values.flatMap fun f => f.lines.values.map Line.notices

theorem notices_eq_flatten (p : Program) : p.notices = p.perLine.flatten := by
  simp only [notices, perLine, List.flatMap_def, List.flatten_flatten, List.map_map]
  rfl

variable {r : List Notice → List Notice → Prop} {p q : Program}

theorem Related.perLine (h : p.Related r q) : List.Forall₂ r p.perLine q.perLine :=
  List.rel_flatMap h.values fun _ _ hfile =>
    List.rel_map (fun _ _ hline => hline.notices) hfile.lines.values

end Program

end NoticeCheck
