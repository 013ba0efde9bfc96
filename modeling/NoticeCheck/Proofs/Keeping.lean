import NoticeCheck.Expectation
import NoticeCheck.Proofs.Gathering

/-!
Where lines and files are stored: under their own number or location, and no line without notices.
Edits that replace the notices of a line preserve it.
-/
namespace NoticeCheck

namespace Line

/-- A line as it has to be under a number of a file at a location. -/
structure IsKept (location : Path) (number : Nat) (l : Line) : Prop where
  location : l.location.same location = true
  number : l.number = number
  notices : l.notices ≠ []

/-- The line `l` with other notices, at least one of them. -/
def Refills (l l' : Line) : Prop :=
  ∃ notices, notices ≠ [] ∧ l' = { l with notices }

theorem Refills.isKept {location : Path} {number : Nat} {l l' : Line} (h : l.Refills l')
    (hlocation : l.location.same location = true) (hnumber : l.number = number) :
    l'.IsKept location number := by
  obtain ⟨notices, hnotices, rfl⟩ := h
  exact ⟨hlocation, hnumber, hnotices⟩

theorem refills_of_withNotices? {l l' : Line} {notices : List (Option Notice)}
    (h : l.withNotices? notices = some l') : l.Refills l' := by
  unfold withNotices? at h
  split at h
  · cases h
  · next hkept => exact ⟨_, hkept, (Option.some.inj h).symm⟩

end Line

namespace File

/-- Every line is stored under its own number, about this file and with notices. -/
def IsKept (f : File) : Prop :=
  ∀ number l, (number, l) ∈ f.lines.entries → l.IsKept f.location number

theorem isKept_empty (location : Path) : (empty location).IsKept :=
  nofun

variable {f : File}

theorem IsKept.isIndexed (h : f.IsKept) : f.IsIndexed := by
  have hline : ∀ k, (f.line k).location.same f.location = true ∧ (f.line k).number = k := by
    intro k
    unfold line
    cases hk : f.line? k with
    | none => exact ⟨f.location.same_refl, rfl⟩
    | some l =>
      obtain ⟨k', hkey, hmem⟩ := SortedMap.exists_mem_of_get? hk
      have hl := h k' l hmem
      exact ⟨hl.location, hl.number.trans (Std.LawfulEqOrd.eq_of_compare hkey).symm⟩
  exact ⟨fun k => (hline k).1, fun k => (hline k).2⟩

theorem IsKept.setLine (h : f.IsKept) {number : Nat} {line : Option Line}
    (hline : ∀ l, line = some l → l.IsKept f.location number) :
    (f.setLine number line).IsKept := by
  intro k l hl
  rcases SortedMap.mem_put hl with ⟨hkey, hnew⟩ | hold
  · obtain rfl := Std.LawfulEqOrd.eq_of_compare hkey
    exact hline l hnew
  · exact h k l hold

/-- A line of a kept file may be replaced by itself with other notices. -/
theorem IsKept.isKept_of_refills (h : f.IsKept) {number : Nat} {l : Line}
    (hl : (f.line number).Refills l) : l.IsKept f.location number :=
  hl.isKept (h.isIndexed.location number) (h.isIndexed.number number)

end File

namespace Program

/-- Every file is stored under its own location, up to spelling, and so is every line in it. -/
structure IsKept (p : Program) : Prop where
  location : ∀ location f, (location, f) ∈ p.files.entries → f.location.same location = true
  file : ∀ location f, (location, f) ∈ p.files.entries → f.IsKept

theorem isKept_empty : empty.IsKept :=
  ⟨nofun, nofun⟩

variable {p : Program}

theorem IsKept.setFile (h : p.IsKept) {place : Path} {f : File}
    (hlocation : f.location.same place = true) (hf : f.IsKept) :
    (p.setFile place (some f)).IsKept := by
  constructor
  · intro location g hg
    rcases SortedMap.mem_put hg with ⟨hkey, hnew⟩ | hold
    · obtain rfl := Option.some.inj hnew
      exact Path.same_trans hlocation (Path.compare_eq_iff.mp hkey)
    · exact h.location location g hold
  · intro location g hg
    rcases SortedMap.mem_put hg with ⟨-, hnew⟩ | hold
    · obtain rfl := Option.some.inj hnew
      exact hf
    · exact h.file location g hold

/-- The file at a location, which is empty when there is none, is kept and belongs there. -/
theorem IsKept.file_at (h : p.IsKept) (location : Path) :
    (p.file location).location.same location = true ∧ (p.file location).IsKept := by
  unfold Program.file
  cases hf : p.file? location with
  | none => exact ⟨location.same_refl, File.isKept_empty location⟩
  | some f =>
    obtain ⟨key, hkey, hmem⟩ := SortedMap.exists_mem_of_get? hf
    have hsame : key.same location = true := Path.same_symm (Path.compare_eq_iff.mp hkey)
    exact ⟨Path.same_trans (h.location key f hmem) hsame, h.file key f hmem⟩

end Program

end NoticeCheck
