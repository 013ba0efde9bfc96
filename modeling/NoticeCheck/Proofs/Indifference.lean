import NoticeCheck.Proofs.Appending
import NoticeCheck.Proofs.Operation
import NoticeCheck.Proofs.Respelling
import NoticeCheck.Proofs.Storing

/-!
Edits that do not look at how a location is spelled. With them a fixture that is given its location
in another spelling comes to the same, up to spelling; its reading never looks at the spelling.
-/
namespace NoticeCheck

/-- Both results are failures, related by `s`, or both are values, related by `r`. -/
inductive ResultRel {ε α : Type} (s : ε → ε → Prop) (r : α → α → Prop) :
    Except ε α → Except ε α → Prop
  | error {e e' : ε} (h : s e e') : ResultRel s r (.error e) (.error e')
  | ok {a a' : α} (h : r a a') : ResultRel s r (.ok a) (.ok a')

namespace ResultRel

variable {ε α β : Type} {s : ε → ε → Prop} {r : α → α → Prop} {t : β → β → Prop}
  {x y : Except ε α}

theorem refl (hs : ∀ e, s e e) (hr : ∀ a, r a a) (x : Except ε α) : ResultRel s r x x := by
  cases x with
  | error e => exact .error (hs e)
  | ok a => exact .ok (hr a)

theorem bind {f g : α → Except ε β} (h : ResultRel s r x y)
    (hfg : ∀ a b, r a b → ResultRel s t (f a) (g b)) : ResultRel s t (x >>= f) (y >>= g) := by
  cases h with
  | error h => exact .error h
  | ok h => exact hfg _ _ h

theorem map {f g : α → β} (h : ResultRel s r x y) (hfg : ∀ a b, r a b → t (f a) (g b)) :
    ResultRel s t (x.map f) (y.map g) := by
  cases h with
  | error h => exact .error h
  | ok h => exact .ok (hfg _ _ h)

theorem mapError {δ : Type} {u : δ → δ → Prop} {f : ε → δ} (h : ResultRel s r x y)
    (hf : ∀ e e', s e e' → u (f e) (f e')) : ResultRel u r (x.mapError f) (y.mapError f) := by
  cases h with
  | error h => exact .error (hf _ _ h)
  | ok h => exact .ok h

end ResultRel

/-- The same is missing, in a file whose location is perhaps spelled in another way. -/
structure Missing.Respells (m m' : Missing) : Prop where
  location : m.location.parts = m'.location.parts
  line : m.line = m'.line
  name : m.name = m'.name

theorem Missing.respells_atTarget {location location' : Path}
    (h : location.parts = location'.parts) (target : Target) (line : Option Nat) :
    (atTarget location target line).Respells (atTarget location' target line) := by
  cases target <;> exact ⟨h, rfl, rfl⟩

/-- The same error, but for the spelling of the file in which something is missing. -/
inductive FixtureError.Respells : FixtureError → FixtureError → Prop
  | missing {m m' : Missing} (h : m.Respells m') : Respells (.missing m) (.missing m')
  | same (e : FixtureError) : Respells e e

theorem Notice.Alike.isReveal {m n : Notice} (h : m.Alike n) : m.isReveal = n.isReveal := by
  simp only [Notice.isReveal, h.severity, h.message]

section

variable {α : Type} {r : α → α → Prop} {l m : List α}

private theorem eq_none_iff_of_rel {a b : Option α} (h : Option.Rel r a b) :
    a = none ↔ b = none := by
  cases h <;> simp

private theorem rel_getLast? (h : List.Forall₂ r l m) : Option.Rel r l.getLast? m.getLast? := by
  have hhead : ∀ {l m : List α}, List.Forall₂ r l m → Option.Rel r l.head? m.head? := by
    intro l m h
    cases h with
    | nil => exact .none
    | cons hfirst _ => exact .some hfirst
  rw [← List.head?_reverse, ← List.head?_reverse]
  exact hhead (List.rel_reverse h)

private theorem forall₂_dropLast (h : List.Forall₂ r l m) :
    List.Forall₂ r l.dropLast m.dropLast := by
  rw [List.dropLast_eq_take, List.dropLast_eq_take, h.length_eq]
  exact List.forall₂_take _ h

private theorem isEmpty_congr_of_forall₂ (h : List.Forall₂ r l m) : l.isEmpty = m.isEmpty := by
  cases h <;> rfl

private theorem any_congr_of_forall₂ {p q : α → Bool} (h : List.Forall₂ r l m)
    (hpq : ∀ a b, r a b → p a = q b) : l.any p = m.any q := by
  induction h with
  | nil => rfl
  | cons hfirst _ ih => rw [List.any_cons, List.any_cons, hpq _ _ hfirst, ih]

end

namespace Line

variable {l l' : Line}

theorem Respells.notice (h : l.Respells l') (severity : Severity) (message : Text) :
    (l.notice severity message).Alike (l'.notice severity message) :=
  ⟨h.location, h.number, rfl, rfl, rfl⟩

theorem Respells.appended (h : l.Respells l') (severity : Severity) (message : Text) :
    List.Forall₂ Notice.Alike (l.appended severity message) (l'.appended severity message) :=
  List.rel_append h.notices (.cons (h.notice severity message) .nil)

theorem Respells.noted (h : l.Respells l') (message : Text) :
    List.Forall₂ Notice.Alike (l.noted message) (l'.noted message) := by
  have hlast := rel_getLast? h.notices
  unfold Line.noted
  cases hl : l.notices.getLast? <;> cases hl' : l'.notices.getLast? <;>
    rw [hl, hl'] at hlast <;> cases hlast
  · exact h.appended .note message
  · next m n hmn =>
    dsimp only
    simp only [hmn.severity, hmn.isReveal, hmn.message]
    split
    · exact List.rel_append (forall₂_dropLast h.notices)
        (.cons ⟨hmn.location, hmn.line, hmn.column, rfl, rfl⟩ .nil)
    · exact h.appended .note message

/-- The edit does to a line what it does to the same line in another spelling. -/
def IgnoresSpelling (edit : Line → Except Missing (Option Line)) : Prop :=
  ∀ l l', l.Respells l' →
    ResultRel Missing.Respells (Option.Rel Line.Respells) (edit l) (edit l')

theorem Respells.withNotices? (h : l.Respells l') {notices notices' : List Notice}
    (hnotices : List.Forall₂ Notice.Alike notices notices') :
    Option.Rel Line.Respells (l.withNotices? (notices.map some))
      (l'.withNotices? (notices'.map some)) := by
  rw [withNotices?_eq_holding?, withNotices?_eq_holding?, reduceOption_map_some,
    reduceOption_map_some]
  cases hnotices with
  | nil => exact .none
  | cons hfirst hrest => exact .some ⟨h.location, h.number, .cons hfirst hrest⟩

end Line

/-- Adding an expectation does not look at how a location is spelled. -/
theorem Expectation.ignoresSpelling_edit (e : Expectation) (replacing : Bool) :
    Line.IgnoresSpelling (e.edit replacing) := by
  have hsupersedes : ∀ m n : Notice, m.Alike n → e.supersedes m = e.supersedes n := by
    intro m n h
    cases e <;> simp only [supersedes, h.severity, h.isReveal]
  have hmade : ∀ l l' : Line, l.Respells l' → List.Forall₂ Notice.Alike (e.made l) (e.made l') := by
    intro l l' h
    cases e with
    | reveals types => exact .cons (h.notice _ _) .nil
    | errors pairs =>
      exact List.forall₂_map_left_iff.mpr (List.forall₂_map_right_iff.mpr
        (List.forall₂_same.mpr fun pair _ => h.notice _ _))
    | notes texts keepReveals => exact .cons (h.notice _ _) .nil
  have hadd : ∀ l l' : Line, l.Respells l' → Option.Rel Line.Respells
      (l.append? ((e.made l).map some)) (l'.append? ((e.made l').map some)) := by
    intro l l' h
    rw [Line.append?, Line.append?, ← List.map_append, ← List.map_append]
    exact h.withNotices? (List.rel_append h.notices (hmade l l' h))
  intro l l' h
  cases replacing with
  | false => exact .ok (hadd l l' h)
  | true =>
    refine .ok (hadd _ _ ⟨h.location, h.number, List.rel_filter (fun m n hmn => ?_) h.notices⟩)
    simp only [hsupersedes m n hmn]

theorem Line.ignoresSpelling_erase (name fragment : Text) (mustExist : Bool) :
    IgnoresSpelling (Line.erase name fragment mustExist) := by
  let affected (n : Notice) : Bool := n.isReveal && n.message.contains fragment
  let erased (n : Notice) : Notice :=
    if affected n then { n with message := n.message.eraseAll fragment } else n
  have haffected : ∀ m n : Notice, m.Alike n → affected m = affected n := by
    intro m n h
    simp only [affected, h.isReveal, h.message]
  have herased : ∀ m n : Notice, m.Alike n → (erased m).Alike (erased n) := by
    intro m n h
    simp only [erased, haffected m n h]
    split
    · exact ⟨h.location, h.line, h.column, h.severity, by rw [h.message]⟩
    · exact h
  intro l l' h
  have hnotices := h.withNotices? (List.rel_map herased h.notices)
  rw [List.map_map, List.map_map] at hnotices
  unfold erase
  dsimp only
  rw [any_congr_of_forall₂ h.notices haffected]
  split
  · exact .error ⟨h.location, congrArg some h.number, rfl⟩
  · exact .ok hnotices

namespace File

variable {f g : File}

theorem respells_empty {location location' : Path} (h : location.parts = location'.parts) :
    (empty location).Respells (empty location') :=
  ⟨h, .nil, rfl⟩

theorem Respells.line? (h : f.Respells g) (number : Nat) :
    Option.Rel Line.Respells (f.line? number) (g.line? number) :=
  h.lines.get? number

theorem Respells.line (h : f.Respells g) (number : Nat) :
    (f.line number).Respells (g.line number) := by
  have hline := h.line? number
  unfold File.line
  cases hf : f.line? number <;> cases hg : g.line? number <;>
    rw [hf, hg] at hline <;> cases hline
  · exact ⟨h.location, rfl, .nil⟩
  · next hline => exact hline

theorem Respells.setLine (h : f.Respells g) (number : Nat) {l l' : Option Line}
    (hl : Option.Rel Line.Respells l l') : (f.setLine number l).Respells (g.setLine number l') :=
  ⟨h.location, h.lines.put number hl, h.names⟩

theorem Respells.changeLine (h : f.Respells g) (number : Nat) {change : Line → List Notice}
    (hchange : ∀ l l' : Line, l.Respells l' → List.Forall₂ Notice.Alike (change l) (change l')) :
    (f.changeLine number change).Respells (g.changeLine number change) :=
  have hline := h.line number
  h.setLine number (.some ⟨hline.location, hline.number, hchange _ _ hline⟩)

theorem Respells.editLine (h : f.Respells g) (target : Target) (demands : Demands)
    {edit : Line → Except Missing (Option Line)} (hedit : Line.IgnoresSpelling edit) :
    ResultRel Missing.Respells File.Respells (f.editLine target demands edit)
      (g.editLine target demands edit) := by
  have hnumber : f.lineNumber? target = g.lineNumber? target := by
    cases target with
    | name text => exact congrArg (·.get? text) h.names
    | line number => rfl
  cases hg : g.lineNumber? target with
  | none =>
    rw [editLine_of_unknown (hnumber.trans hg), editLine_of_unknown hg]
    split
    · exact .error (Missing.respells_atTarget h.location target none)
    · exact .ok h
  | some number =>
    have habsent := eq_none_iff_of_rel (h.line? number)
    simp only [editLine_of_known (hnumber.trans hg), editLine_of_known hg, habsent]
    split
    · exact .error (Missing.respells_atTarget h.location target (some number))
    · exact (hedit _ _ (h.line number)).map fun l l' hl => h.setLine number hl

theorem Respells.hasNotices (h : f.Respells g) : f.hasNotices = g.hasNotices := by
  refine any_congr_of_forall₂ h.lines.values fun l l' hl => ?_
  exact congrArg (!·) (isEmpty_congr_of_forall₂ hl.notices)

/--
The edit leaves a file where it is, and does to it what it does to the same file in another
spelling.
-/
structure IgnoresSpelling (edit : File → Except Missing (Option File)) : Prop where
  location : ∀ f g, edit f = .ok (some g) → g.location.parts = f.location.parts
  respells : ∀ f g, f.Respells g →
    ResultRel Missing.Respells (Option.Rel File.Respells) (edit f) (edit g)

theorem ignoresSpelling_editLine (target : Target) (demands : Demands)
    {edit : Line → Except Missing (Option Line)} (hedit : Line.IgnoresSpelling edit) :
    IgnoresSpelling fun f => some <$> f.editLine target demands edit where
  location f g h := by
    obtain ⟨g', hg, hsome⟩ := exists_of_map_eq_ok h
    obtain rfl := Option.some.inj hsome
    rcases eq_of_editLine hg with ⟨-, rfl⟩ | ⟨number, line, -, -, rfl⟩ <;> rfl
  respells f g h := (h.editLine target demands hedit).map fun _ _ hfg => .some hfg

theorem ignoresSpelling_expect (name : Text) (e : Expectation) (replacing : Bool) :
    IgnoresSpelling fun f => some <$> f.expect name e replacing :=
  ignoresSpelling_editLine (.name name) { line := false } (e.ignoresSpelling_edit replacing)

theorem ignoresSpelling_eraseFromReveals (name fragment : Text) (mustExist : Bool) :
    IgnoresSpelling fun f => some <$> f.eraseFromReveals name fragment mustExist :=
  ignoresSpelling_editLine (.name name) { line := false }
    (Line.ignoresSpelling_erase name fragment mustExist)

end File

namespace Reading

variable {f g : File}

theorem Task.respells_act (h : f.Respells g) (number : Nat) (task : Task) :
    (task.act number f).Respells (task.act number g) := by
  cases task with
  | name text =>
    exact ⟨h.location, h.lines, congrArg (·.insert text number) h.names⟩
  | reveal revealed => exact h.changeLine number fun _ _ hl => hl.appended _ _
  | error subtype message => exact h.changeLine number fun _ _ hl => hl.appended _ _
  | note message => exact h.changeLine number fun _ _ hl => hl.noted message

theorem Block.respells_file (h : f.Respells g) (probe : Text) (blocks : List Block) :
    (file probe blocks f).Respells (file probe blocks g) := by
  unfold file
  induction numbered probe 0 blocks generalizing f g with
  | nil => exact h
  | cons e tasks ih => exact ih (Task.respells_act h _ e.2)

end Reading

/-- A fixture is read in the same way wherever it is said to be. -/
theorem readFixture_respells {known known' : File}
    (h : known.location.parts = known'.location.parts) (probe source : Text) :
    ResultRel Eq (fun a b => a.1 = b.1 ∧ a.2.Respells b.2) (readFixture probe source known)
      (readFixture probe source known') := by
  rw [readFixture_eq, readFixture_eq]
  refine (ResultRel.refl (r := Eq) (fun _ => rfl) (fun _ => rfl) _).map fun blocks _ hblocks => ?_
  obtain rfl := hblocks
  exact ⟨rfl, Reading.Block.respells_file (File.respells_empty h) probe blocks⟩

namespace Fixture

theorem respells_edited {x : Fixture} (hedits : ∀ edit ∈ x.edits, File.IgnoresSpelling edit)
    {absent absent' f f' : File} (habsent : absent.Respells absent') (h : f.Respells f') :
    ResultRel FixtureError.Respells File.Respells (x.edited absent f) (x.edited absent' f') := by
  unfold edited
  generalize x.edits = edits at hedits
  induction edits generalizing f f' with
  | nil => exact .ok h
  | cons edit edits ih =>
    rw [List.foldlM_cons, List.foldlM_cons]
    have hedit := (hedits edit List.mem_cons_self).respells f f' h
    have herrors := hedit.mapError (f := FixtureError.missing)
      fun _ _ => FixtureError.Respells.missing
    refine (herrors.bind fun changed changed' hchanged => .ok ?_).bind fun g g' hg =>
      ih hg fun e he => hedits e (List.mem_cons_of_mem _ he)
    cases hchanged with
    | none => exact habsent
    | some hg => exact hg

/-- A fixture comes to the same, up to spelling, however the location it is given is spelled. -/
theorem respells_expected {x : Fixture} (hedits : ∀ edit ∈ x.edits, File.IgnoresSpelling edit)
    (disk : Disk) {known known' : File} (h : known.location.parts = known'.location.parts) :
    ResultRel FixtureError.Respells (Option.Rel File.Respells) (x.expected disk known)
      (x.expected disk known') := by
  unfold expected
  split
  · exact .error (.same _)
  · next source _ =>
    have hread := (readFixture_respells h x.probe source).mapError
      (f := FixtureError.reading x.location) (u := FixtureError.Respells)
      fun e e' he => he ▸ .same _
    refine hread.bind fun a b hab => ?_
    obtain ⟨text, f⟩ := a
    obtain ⟨text', f'⟩ := b
    obtain ⟨rfl, hf⟩ := hab
    dsimp only
    split
    · exact .error (.same _)
    · have hedited := respells_edited hedits (File.respells_empty h) hf
      refine hedited.bind fun g g' hg => .ok ?_
      rw [hg.hasNotices]
      split
      · exact .some hg
      · exact .none

end Fixture

end NoticeCheck
