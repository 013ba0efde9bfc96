import NoticeCheck.File
import NoticeCheck.Proofs.SortedMap

/-! Files line by line, and files whose notices are all kept on the lines they are about. -/
namespace NoticeCheck.File

/-- Change the notices of one line, which is made when it is not there. -/
def changeLine (f : File) (number : Nat) (change : Line → List Notice) : File :=
  f.setLine number (some { f.line number with notices := change (f.line number) })

@[simp] theorem location_changeLine (f : File) (number : Nat) (change : Line → List Notice) :
    (f.changeLine number change).location = f.location := rfl

@[simp] theorem location_empty (location : Path) : (empty location).location = location := rfl

@[simp] theorem line_empty (location : Path) (number : Nat) :
    (empty location).line number = .empty location number := rfl

theorem line?_setLine (f : File) (number k : Nat) (l : Option Line) :
    (f.setLine number l).line? k = if k = number then l else f.line? k := by
  have hput := SortedMap.get?_put f.lines number k l
  simp only [Std.LawfulEqOrd.compare_eq_iff_eq] at hput
  exact hput

theorem line_setLine (f : File) (number k : Nat) (l : Option Line) :
    (f.setLine number l).line k =
      if k = number then l.getD (.empty f.location k) else f.line k := by
  unfold line
  rw [line?_setLine]
  split <;> rfl

theorem line_changeLine (f : File) (number k : Nat) (change : Line → List Notice) :
    (f.changeLine number change).line k =
      if k = number then { f.line number with notices := change (f.line number) }
      else f.line k :=
  f.line_setLine number k _

/-- The file `g` is `f` with another line, or none, under one number. -/
structure ReplacesLine (f g : File) (number : Nat) (line : Option Line) : Prop where
  location : g.location = f.location
  names : g.names = f.names
  line : g.line? number = line
  others : ∀ k, k ≠ number → g.line? k = f.line? k

theorem replacesLine_setLine (f : File) (number : Nat) (line : Option Line) :
    f.ReplacesLine (f.setLine number line) number line where
  location := rfl
  names := rfl
  line := by rw [line?_setLine, if_pos rfl]
  others k hk := by rw [line?_setLine, if_neg hk]

section

variable {f : File} {target : Target} {demands : Demands}
  {edit : Line → Except Missing (Option Line)}

/-- Without a line to edit nothing happens, unless the name or the line has to exist. -/
theorem editLine_of_unknown (h : f.lineNumber? target = none) :
    f.editLine target demands edit =
      if demands.name = true ∨ demands.line = true then .error (.atTarget f.location target none)
      else .ok f := by
  unfold editLine
  simp only [h, Option.bind_none, Option.isNone_none, Bool.true_and, Bool.or_eq_true]
  rfl

/-- The edit of a line that has not to exist sees an empty one in its place. -/
theorem editLine_of_known {number : Nat} (h : f.lineNumber? target = some number) :
    f.editLine target demands edit =
      if f.line? number = none ∧ demands.line = true then
        .error (.atTarget f.location target (some number))
      else (edit (f.line number)).map (f.setLine number) := by
  unfold editLine
  simp only [h, Option.bind_some, Option.isNone_some, Bool.false_and, Bool.false_or,
    Bool.and_eq_true, Option.isNone_iff_eq_none]
  rfl

theorem editLine_fails_iff : (∃ m, f.editLine target demands edit = .error m) ↔
    (f.lineNumber? target = none ∧ (demands.name = true ∨ demands.line = true)) ∨
      ∃ number, f.lineNumber? target = some number ∧
        ((f.line? number = none ∧ demands.line = true) ∨ ∃ m, edit (f.line number) = .error m) := by
  cases hnumber : f.lineNumber? target with
  | none =>
    rw [editLine_of_unknown hnumber]
    by_cases hdemands : demands.name = true ∨ demands.line = true <;> simp [hdemands]
  | some number =>
    rw [editLine_of_known hnumber]
    by_cases habsent : f.line? number = none ∧ demands.line = true
    · simp [habsent]
    · rw [if_neg habsent]
      cases hedit : edit (f.line number) with
      | error m => simp [hedit, Except.map]
      | ok line => simp [hedit, Except.map, habsent]

/-- An edit of a line stores what it leaves of the line, or has no line and leaves the file. -/
theorem eq_of_editLine {g : File} (h : f.editLine target demands edit = .ok g) :
    (f.lineNumber? target = none ∧ g = f) ∨ ∃ number line, f.lineNumber? target = some number ∧
      edit (f.line number) = .ok line ∧ g = f.setLine number line := by
  cases hnumber : f.lineNumber? target with
  | none =>
    rw [editLine_of_unknown hnumber] at h
    split at h
    · cases h
    · exact .inl ⟨rfl, (Except.ok.inj h).symm⟩
  | some number =>
    rw [editLine_of_known hnumber] at h
    split at h
    · cases h
    · cases hedit : edit (f.line number) with
      | error m =>
        rw [hedit] at h
        cases h
      | ok line =>
        rw [hedit] at h
        exact .inr ⟨number, line, rfl, hedit, (Except.ok.inj h).symm⟩

/-- An edit that succeeds leaves all but its line as it was. -/
theorem replacesLine_of_editLine {g : File} (h : f.editLine target demands edit = .ok g) :
    (∀ number, f.lineNumber? target = some number →
      ∃ line, edit (f.line number) = .ok line ∧ f.ReplacesLine g number line) ∧
    (f.lineNumber? target = none → g = f) := by
  rcases eq_of_editLine h with ⟨hnone, rfl⟩ | ⟨number, line, hnumber, hedit, rfl⟩
  · rw [hnone]
    exact ⟨nofun, fun _ => rfl⟩
  · rw [hnumber]
    refine ⟨fun k hk => ?_, nofun⟩
    obtain rfl := Option.some.inj hk
    exact ⟨line, hedit, f.replacesLine_setLine number line⟩

/-- An edit of a named line that has not to be there fails without the name, or as the edit does. -/
theorem editLine_name_fails_iff {name : Text} :
    (∃ m, f.editLine (.name name) { line := false } edit = .error m) ↔ f.names.get? name = none ∨
      ∃ number, f.names.get? name = some number ∧ ∃ m, edit (f.line number) = .error m := by
  have htarget : f.lineNumber? (.name name) = f.names.get? name := rfl
  rw [editLine_fails_iff, htarget]
  simp

theorem eq_of_editLine_name {name : Text} {g : File}
    (h : f.editLine (.name name) { line := false } edit = .ok g) :
    ∃ number line, f.names.get? name = some number ∧ edit (f.line number) = .ok line ∧
      g = f.setLine number line := by
  rcases eq_of_editLine h with ⟨hnone, -⟩ | hsome
  · rw [editLine_of_unknown hnone, if_pos (.inl rfl)] at h
    cases h
  · exact hsome

end

/-- Every line, and every notice on it, is kept where it belongs. -/
structure IsHomed (f : File) : Prop where
  location : ∀ k, (f.line k).location = f.location
  number : ∀ k, (f.line k).number = k
  notices : ∀ k, ∀ n ∈ (f.line k).notices, n.location = f.location ∧ n.line = k

theorem isHomed_empty (location : Path) : (empty location).IsHomed where
  location _ := rfl
  number _ := rfl
  notices _ _ hn := nomatch hn

theorem IsHomed.setName {f : File} (h : f.IsHomed) (name : Text) (number : Nat) :
    (f.setName name number).IsHomed :=
  ⟨h.location, h.number, h.notices⟩

theorem IsHomed.changeLine {f : File} (h : f.IsHomed) {number : Nat}
    {change : Line → List Notice}
    (hchange : ∀ n ∈ change (f.line number), n.location = f.location ∧ n.line = number) :
    (f.changeLine number change).IsHomed := by
  refine ⟨fun k => ?_, fun k => ?_, fun k => ?_⟩ <;> rw [line_changeLine] <;> split
  · exact h.location number
  · exact h.location k
  · next hk => exact (h.number number).trans hk.symm
  · exact h.number k
  · next hk => exact hk ▸ hchange
  · exact h.notices k

theorem line_of_mem {f : File} {k : Nat} {l : Line} (h : (k, l) ∈ f.lines.entries) :
    f.line k = l := by
  rw [line, line?, SortedMap.get?_of_mem h Std.ReflCmp.compare_self, Option.getD_some]

/-- The notices about a line are those kept there. -/
theorem IsHomed.filter_notices {f : File} (h : f.IsHomed) (k : Nat) :
    f.notices.filter (fun n => n.line == k) = (f.line k).notices := by
  have hkey : ∀ e ∈ f.lines.entries, ∀ n ∈ e.2.notices, compare n.line e.1 = .eq := by
    intro e he n hn
    rw [← line_of_mem he] at hn
    exact Std.LawfulEqOrd.compare_eq_iff_eq.mpr (h.notices e.1 n hn).2
  have hfilter := SortedMap.filter_flatMap_values hkey k
  have hcompare : ∀ n : Notice, (compare n.line k == .eq) = (n.line == k) := by
    intro n
    rw [Bool.eq_iff_iff, beq_iff_eq, beq_iff_eq, Std.LawfulEqOrd.compare_eq_iff_eq]
  simp only [hcompare] at hfilter
  refine hfilter.trans ?_
  rw [line, line?]
  cases f.lines.get? k <;> rfl

theorem IsHomed.location_of_mem {f : File} (h : f.IsHomed) {n : Notice} (hn : n ∈ f.notices) :
    n.location = f.location ∧ n ∈ (f.line n.line).notices := by
  have hmem : n ∈ f.notices.filter fun m => m.line == n.line :=
    List.mem_filter.mpr ⟨hn, beq_self_eq_true _⟩
  rw [h.filter_notices] at hmem
  exact ⟨(h.notices _ n hmem).1, hmem⟩

end NoticeCheck.File
