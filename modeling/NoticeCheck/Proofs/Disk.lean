import Mathlib.Data.Option.Basic
import NoticeCheck.Disk

/-!
Disks after a change. A file that is put in place changes no other entry, and making directories
changes no entry at all, whether or not they can all be made.
-/
namespace NoticeCheck.Disk

def file? (d : Disk) (place : Place) : Option Content :=
  match d.entryAt? place with
  | some (.file content) => some content
  | _ => none

theorem directory?_congr {d d' : Disk} (h : ∀ place, d'.entryAt? place = some .directory ↔
    d.entryAt? place = some .directory) (parts : List Path.Part) :
    d'.directory? parts = d.directory? parts := by
  simp only [directory?, h]

theorem entryAt?_insert (d : Disk) (place other : Place) (entry : Entry) :
    entryAt? ⟨d.entries.insert place entry⟩ other =
      if other = [] then some .directory
      else if other = place then some entry else d.entryAt? other := by
  simp only [entryAt?, SortedMap.get?_insert, Std.LawfulEqOrd.compare_eq_iff_eq]
  split <;> rfl

/-- A file put where no directory is makes and removes no directory. -/
theorem isDirectory_insert_iff {d : Disk} {place : Place} (h : d.entryAt? place ≠ some .directory)
    (content : Content) (other : Place) :
    entryAt? ⟨d.entries.insert place (.file content)⟩ other = some .directory ↔
      d.entryAt? other = some .directory := by
  rw [entryAt?_insert]
  split
  · next hroot => simp [entryAt?, hroot]
  · split
    · next hother => simp [hother, h]
    · rfl

/-- What is put in place is found there, and nothing else is touched. -/
theorem exists_place_of_replace? {d d' : Disk} {p : Path} {content : Content}
    (h : d.replace? p content = some d') :
    ∃ place, d'.filePlace? p = some place ∧ d.entryAt? place ≠ some .directory ∧
      d'.entryAt? place = some (.file content) ∧
      ∀ other, other ≠ place → d'.entryAt? other = d.entryAt? other := by
  unfold replace? at h
  obtain ⟨place, hplace, hput⟩ := Option.bind_eq_some_iff.mp h
  obtain ⟨_, hguard, hd'⟩ := Option.bind_eq_some_iff.mp hput
  have hfile : d.entryAt? place ≠ some .directory := (Option.guard_eq_some' _).mp hguard
  obtain rfl := Option.some.inj hd'
  have hne : place ≠ [] := by
    rintro rfl
    exact hfile rfl
  refine ⟨place, ?_, hfile, by rw [entryAt?_insert, if_neg hne, if_pos rfl], fun other hother => ?_⟩
  · simpa only [filePlace?, directory?_congr (isDirectory_insert_iff hfile _)] using hplace
  · rw [entryAt?_insert, if_neg hother]
    split
    · next hroot => simp [entryAt?, hroot]
    · rfl

theorem file?_of_entryAt? {d : Disk} {place : Place} {content : Content}
    (h : d.entryAt? place = some (.file content)) : d.file? place = some content := by
  rw [file?, h]

theorem file?_congr {d d' : Disk} {place : Place} (h : d'.entryAt? place = d.entryAt? place) :
    d'.file? place = d.file? place := by
  rw [file?, h, ← file?]

theorem readText?_of_file? {d : Disk} {p : Path} {place : Place} {text : Text}
    (hplace : d.filePlace? p = some place) (hfile : d.file? place = some (.text text)) :
    d.readText? p = some text := by
  have hentry : d.entryAt? place = some (.file (.text text)) := by
    rw [file?] at hfile
    split at hfile
    · next content hentry => rw [hentry, Option.some.inj hfile]
    · cases hfile
  simp [readText?, read?, hplace, hentry]

/-- A disk with all that was there, and with directories where nothing was. -/
def Grows (d d' : Disk) : Prop :=
  ∀ place, d'.entryAt? place = d.entryAt? place ∨
    d.entryAt? place = none ∧ d'.entryAt? place = some .directory

namespace Grows

variable {d d' d'' : Disk}

theorem refl (d : Disk) : d.Grows d :=
  fun _ => .inl rfl

theorem trans (h : d.Grows d') (h' : d'.Grows d'') : d.Grows d'' := by
  intro place
  rcases h place with heq | ⟨hnone, hdir⟩ <;> rcases h' place with heq' | ⟨hnone', hdir'⟩
  · exact .inl (heq'.trans heq)
  · exact .inr ⟨heq ▸ hnone', hdir'⟩
  · exact .inr ⟨hnone, heq'.trans hdir⟩
  · rw [hdir] at hnone'
    cases hnone'

theorem file?_eq (h : d.Grows d') (place : Place) : d'.file? place = d.file? place := by
  rcases h place with heq | ⟨hnone, hdir⟩
  · exact file?_congr heq
  · rw [file?, file?, hnone, hdir]

theorem isDirectory (h : d.Grows d') {place : Place} (hdir : d.entryAt? place = some .directory) :
    d'.entryAt? place = some .directory := by
  rcases h place with heq | ⟨-, hdir'⟩
  · exact heq.trans hdir
  · exact hdir'

end Grows

theorem run_enter (place : Place) (part : Path.Part) (d : Disk) :
    (enter place part).run.run d = match d.entryAt? (follow place part) with
      | some .directory => (some (follow place part), d)
      | some (.file _) => (none, d)
      | none => (some (follow place part),
          ⟨d.entries.insert (follow place part) .directory⟩) := by
  change ((match d.entryAt? (follow place part) with
    | some .directory => pure (follow place part)
    | some (.file _) => failure
    | none => do
      modify fun d => ⟨d.entries.insert (follow place part) .directory⟩
      pure (follow place part) : OptionT (StateM Disk) Place).run.run d) = _
  rcases d.entryAt? (follow place part) with _ | _ | _ <;> rfl

/-- Making one directory makes that directory or nothing. -/
theorem grows_enter (place : Place) (part : Path.Part) (d : Disk) :
    d.Grows ((enter place part).run.run d).2 := by
  rw [run_enter]
  cases hentry : d.entryAt? (follow place part) with
  | some entry => cases entry <;> exact .refl d
  | none =>
    intro other
    dsimp only
    rw [entryAt?_insert]
    by_cases hroot : other = []
    · exact .inl (by rw [if_pos hroot, hroot]; rfl)
    · rw [if_neg hroot]
      by_cases hother : other = follow place part
      · exact .inr ⟨hother ▸ hentry, if_pos hother⟩
      · exact .inl (if_neg hother)

private theorem run_bind {α β : Type} (x : OptionT (StateM Disk) α)
    (k : α → OptionT (StateM Disk) β) (d : Disk) :
    (x >>= k).run.run d = match x.run.run d with
      | (some a, d') => (k a).run.run d'
      | (none, d') => (none, d') := by
  rw [OptionT.run_bind, Option.elimM, StateT.run_bind]
  rcases x.run.run d with ⟨_ | a, d'⟩ <;> rfl

/-- Whether or not a directory can be made, all that was there stays. -/
theorem grows_makeDirectory (p : Path) (d : Disk) : d.Grows ((makeDirectory p).run.run d).2 := by
  rw [makeDirectory]
  generalize ([] : Place) = place
  induction p.parts generalizing place d with
  | nil => exact .refl d
  | cons part parts ih =>
    have hfirst := grows_enter place part d
    rw [List.foldlM_cons, run_bind]
    revert hfirst
    rcases (enter place part).run.run d with ⟨_ | next, made⟩ <;> intro hfirst
    · exact hfirst
    · exact hfirst.trans (ih made next)

end NoticeCheck.Disk
