import Mathlib.Data.List.Pairwise
import NoticeCheck.Proofs.Commuting
import NoticeCheck.Proofs.Indifference

/-!
Collecting the notices that fixtures expect. Of two fixtures at one location the last one counts.
All that the first one leaves behind is the spelling of the location, which an edit or an error may
show.
-/
namespace NoticeCheck

namespace Program

/-- Collect one fixture more. -/
def collect (disk : Disk) (p : Program) (x : Fixture) : Except FixtureError Program :=
  (x.expected disk (p.file x.location)).map (p.setFile x.location)

theorem ofFixtures_eq_foldlM (disk : Disk) (xs : List Fixture) :
    ofFixtures disk xs = xs.foldlM (collect disk) .empty := by
  have hstep : (fun (p : Program) (x : Fixture) => do
      return p.setFile x.location (← x.expected disk (p.file x.location))) = collect disk := by
    funext p x
    unfold collect
    cases x.expected disk (p.file x.location) <;> rfl
  exact congrArg (fun step => xs.foldlM step empty) hstep

theorem ofFixtures_append (disk : Disk) (xs : List Fixture) (x : Fixture) :
    ofFixtures disk (xs ++ [x]) = ofFixtures disk xs >>= fun p => p.collect disk x := by
  rw [ofFixtures_eq_foldlM, ofFixtures_eq_foldlM, List.foldlM_append]
  refine congrArg (xs.foldlM (collect disk) empty >>= ·) (funext fun p => ?_)
  rw [List.foldlM_cons]
  cases p.collect disk x <;> rfl

end Program

/--
Collecting fixtures fails as the first one of them that fails, or has at every location what the
last fixture there comes to, and nothing elsewhere. What a fixture comes to after the ones above it
is `result`; errors and files are compared by `s` and `r`.
-/
inductive Collects (s : FixtureError → FixtureError → Prop) (r : File → File → Prop)
    (result : List Fixture → Fixture → Except FixtureError (Option File)) (xs : List Fixture) :
    Except FixtureError Program → Prop
  | failed {above below : List Fixture} {x : Fixture} {e e' : FixtureError}
    (hxs : xs = above ++ x :: below)
    (habove : ∀ a y b, above = a ++ y :: b → ∃ f, result a y = .ok f)
    (hx : result above x = .error e') (he : s e e') : Collects s r result xs (.error e)
  | collected {p : Program}
    (hlast : ∀ above x below, xs = above ++ x :: below → ∃ f, result above x = .ok f ∧
      ∀ location : Path, location.parts = x.location.parts →
        (∀ y ∈ below, y.location.parts ≠ location.parts) → Option.Rel r (p.file? location) f)
    (hothers : ∀ location : Path, (∀ x ∈ xs, x.location.parts ≠ location.parts) →
      p.file? location = none) : Collects s r result xs (.ok p)

/-- Either all of a list is before its last entry, or that is the entry. -/
private theorem append_singleton_eq {α : Type} {xs above below : List α} {x y : α}
    (h : xs ++ [x] = above ++ y :: below) :
    (xs = above ∧ x = y ∧ below = []) ∨ ∃ more, below = more ++ [x] ∧ xs = above ++ y :: more := by
  rcases List.eq_nil_or_concat below with rfl | ⟨more, z, rfl⟩
  · obtain ⟨rfl, hx⟩ := List.append_inj' h rfl
    exact .inl ⟨rfl, (List.cons.inj hx).1, rfl⟩
  · rw [List.concat_eq_append, ← List.cons_append, ← List.append_assoc] at h
    obtain ⟨rfl, hx⟩ := List.append_inj' h rfl
    obtain rfl := (List.cons.inj hx).1
    exact .inr ⟨more, List.concat_eq_append, rfl⟩

variable {disk : Disk} {s : FixtureError → FixtureError → Prop} {r : File → File → Prop}
  {result : List Fixture → Fixture → Except FixtureError (Option File)} {xs : List Fixture}

namespace Collects

theorem append_of_error {e : FixtureError} (h : Collects s r result xs (.error e)) (x : Fixture) :
    Collects s r result (xs ++ [x]) (.error e) := by
  cases h with
  | @failed above below y e e' hxs habove hy he =>
    have hsplit : xs ++ [x] = above ++ y :: (below ++ [x]) := by
      rw [hxs, List.append_assoc, List.cons_append]
    exact .failed hsplit habove hy he

/-- A fixture more takes the place of all above it that are at its location. -/
theorem append_of_setFile {p : Program} (h : Collects s r result xs (.ok p)) {x : Fixture}
    {f f' : Option File} (hx : result xs x = .ok f') (hf : Option.Rel r f f') :
    Collects s r result (xs ++ [x]) (.ok (p.setFile x.location f)) := by
  have hother : ∀ location : Path, x.location.parts ≠ location.parts →
      (p.setFile x.location f).file? location = p.file? location := fun location hne =>
    p.file?_setFile_of_ne (beq_eq_false_iff_ne.mpr hne.symm) f
  cases h with
  | collected hlast hothers =>
    refine .collected (fun above y below hsplit => ?_) fun location hlocation => ?_
    · rcases append_singleton_eq hsplit with ⟨rfl, rfl, rfl⟩ | ⟨more, rfl, hxs⟩
      · refine ⟨f', hx, fun location hlocation _ => ?_⟩
        rwa [Program.file?_setFile,
          if_pos (Path.compare_eq_iff.mpr (Path.same_iff.mpr hlocation))]
      · obtain ⟨g, hg, hlast⟩ := hlast above y more hxs
        refine ⟨g, hg, fun location hlocation hbelow => ?_⟩
        rw [hother location (hbelow x (by simp))]
        exact hlast location hlocation fun z hz => hbelow z (List.mem_append_left _ hz)
    · rw [hother location (hlocation x (by simp))]
      exact hothers location fun y hy => hlocation y (List.mem_append_left _ hy)

/-- One step: the fixture fails, or its file is stored. -/
theorem append_of_ok {p : Program} (h : Collects s r result xs (.ok p)) {x : Fixture}
    (hx : ResultRel s (Option.Rel r) (x.expected disk (p.file x.location)) (result xs x)) :
    Collects s r result (xs ++ [x]) (p.collect disk x) := by
  unfold Program.collect
  generalize x.expected disk (p.file x.location) = expected at hx ⊢
  generalize hresult : result xs x = own at hx
  cases hx with
  | ok hf => exact h.append_of_setFile hresult hf
  | error he =>
    cases h with
    | collected hlast hothers =>
      refine .failed rfl (fun above y below hxs => ?_) hresult he
      obtain ⟨f, hf, -⟩ := hlast above y below hxs
      exact ⟨f, hf⟩

end Collects

/-- It is enough that each fixture comes to its result where it is collected. -/
theorem Program.collects_ofFixtures (h : ∀ above x below p, xs = above ++ x :: below →
      ofFixtures disk above = .ok p →
        ResultRel s (Option.Rel r) (x.expected disk (p.file x.location)) (result above x)) :
    Collects s r result xs (ofFixtures disk xs) := by
  induction xs using List.reverseRecOn with
  | nil => exact .collected (fun above x below hxs => by simp at hxs) fun _ _ => rfl
  | append_singleton xs x ih =>
    have hbefore := ih fun above y below p hxs hp => by
      refine h above y (below ++ [x]) p ?_ hp
      rw [hxs, List.append_assoc, List.cons_append]
    rw [ofFixtures_append]
    cases hall : ofFixtures disk xs with
    | error e => exact (hall ▸ hbefore).append_of_error x
    | ok p => exact (hall ▸ hbefore).append_of_ok (h xs x [] p rfl hall)

/--
Fixtures at one location spell it alike, as far as `spelled` tells, and the edits of all but the
last of them leave it so.
-/
def SpellsAlike {α : Type} (spelled : Path → α) (xs : List Fixture) : Prop :=
  xs.Pairwise fun y x => y.location.parts = x.location.parts →
    spelled y.location = spelled x.location ∧
      ∀ edit ∈ y.edits, ∀ f g, edit f = .ok (some g) → spelled g.location = spelled f.location

section

variable {α : Type} {spelled : Path → α} {above below : List Fixture} {x : Fixture}

theorem SpellsAlike.before (h : SpellsAlike spelled (above ++ x :: below)) :
    SpellsAlike spelled (above ++ [x]) :=
  h.sublist (by simp)

theorem spellsAlike_of_ignoresSpelling
    (h : ∀ x ∈ xs, ∀ edit ∈ x.edits, File.IgnoresSpelling edit) : SpellsAlike Path.parts xs := by
  refine List.pairwise_iff_forall_sublist.mpr fun {y x} hyx hparts => ⟨hparts, ?_⟩
  intro edit hedit
  exact (h y (hyx.subset List.mem_cons_self) edit hedit).location

end

namespace Fixture

variable {α : Type} {spelled : Path → α} {x : Fixture}

theorem location_of_read {source text : Text} {known f : File}
    (h : x.read source known = .ok (text, f)) : f.location = known.location := by
  rw [read, readFixture_eq] at h
  cases hblocks : Reading.Block.ofRows source.rows with
  | error e =>
    rw [hblocks] at h
    cases h
  | ok blocks =>
    rw [hblocks] at h
    obtain ⟨-, rfl⟩ := Prod.mk.inj (Except.ok.inj h)
    exact Reading.Block.location_file blocks known.reset

theorem location_of_edited {absent f g : File}
    (hedits : ∀ edit ∈ x.edits, ∀ f g, edit f = .ok (some g) →
      spelled g.location = spelled f.location)
    (hf : spelled f.location = spelled absent.location) (h : x.edited absent f = .ok g) :
    spelled g.location = spelled absent.location := by
  unfold edited at h
  generalize x.edits = edits at hedits h
  induction edits generalizing f with
  | nil =>
    obtain rfl := Except.ok.inj h
    exact hf
  | cons edit edits ih =>
    rw [List.foldlM_cons] at h
    cases hedit : edit f with
    | error m =>
      rw [hedit] at h
      cases h
    | ok changed =>
      rw [hedit] at h
      refine ih ?_ (fun e he => hedits e (List.mem_cons_of_mem _ he)) h
      cases changed with
      | none => rfl
      | some changed => exact (hedits edit List.mem_cons_self f changed hedit).trans hf

theorem location_of_expected {disk : Disk} {known f : File}
    (hedits : ∀ edit ∈ x.edits, ∀ f g, edit f = .ok (some g) →
      spelled g.location = spelled f.location)
    (h : x.expected disk known = .ok (some f)) : spelled f.location = spelled known.location := by
  unfold expected at h
  split at h
  · cases h
  · obtain ⟨⟨text, read⟩, hread, h⟩ := exists_of_bind_eq_ok h
    dsimp only at h
    split at h
    · cases h
    · obtain ⟨g, hg, h⟩ := exists_of_bind_eq_ok h
      obtain ⟨-, hfile⟩ := Option.ite_none_right_eq_some.mp (Except.ok.inj h)
      obtain rfl := Option.some.inj hfile
      have hlocation : spelled g.location = spelled known.reset.location :=
        location_of_edited hedits (congrArg spelled (location_of_read hread)) hg
      exact hlocation

end Fixture

namespace Program

/-- Up to a spelling that is kept, a fixture is given its location as it spells it itself. -/
theorem location_file_of_spellsAlike {α : Type} {spelled : Path → α} {above : List Fixture}
    {p : Program} (hp : ofFixtures disk above = .ok p) {x : Fixture}
    (h : SpellsAlike spelled (above ++ [x])) :
    spelled (p.file x.location).location = spelled x.location := by
  induction above using List.reverseRecOn generalizing p x with
  | nil =>
    obtain rfl := Except.ok.inj hp
    rfl
  | append_singleton above y ih =>
    rw [ofFixtures_append] at hp
    obtain ⟨before, habove, hp⟩ := exists_of_bind_eq_ok hp
    obtain ⟨f, hy, rfl⟩ := exists_of_map_eq_ok hp
    rw [List.append_assoc] at h
    by_cases hsame : y.location.parts = x.location.parts
    · have hlast : (before.setFile y.location f).file? x.location = f := by
        rw [file?_setFile, if_pos (Path.compare_eq_iff.mpr (Path.same_iff.mpr hsame.symm))]
      obtain ⟨hspelled, hedits⟩ := (List.pairwise_cons.mp (List.pairwise_append.mp h).2.1).1 x
        List.mem_cons_self hsame
      rw [file, hlast]
      cases f with
      | none => rfl
      | some f =>
        have hy := Fixture.location_of_expected hedits hy
        have hbefore : SpellsAlike spelled (above ++ [y]) :=
          List.Pairwise.sublist (List.Sublist.append_left (by simp) above) h
        exact (hy.trans (ih habove hbefore)).trans hspelled
    · rw [file_setFile_of_ne _ (beq_eq_false_iff_ne.mpr (Ne.symm hsame))]
      refine ih habove (List.Pairwise.sublist ?_ h)
      exact List.Sublist.append_left (List.sublist_cons_self y [x]) above

private theorem toOption_bind {ε α β : Type} (x : Except ε α) (f : α → Except ε β) :
    (x >>= f).toOption = x.toOption.bind fun a => (f a).toOption := by
  cases x <;> rfl

private theorem toOption_foldlM {ε α β : Type} (step : β → α → Except ε β) (xs : List α)
    (b : β) : (xs.foldlM step b).toOption =
      xs.foldl (fun o x => o.bind fun b => (step b x).toOption) (some b) := by
  have hall : ∀ o : Option β, (o.bind fun b => (xs.foldlM step b).toOption) =
      xs.foldl (fun o x => o.bind fun b => (step b x).toOption) o := by
    induction xs with
    | nil => exact fun o => by cases o <;> rfl
    | cons x xs ih =>
      intro o
      rw [List.foldl_cons, ← ih, Option.bind_assoc]
      simp only [List.foldlM_cons, toOption_bind]
  exact hall (some b)

/-- Fixtures at different locations see nothing of each other. -/
theorem toOption_collect_comm {x y : Fixture} (h : x.location.parts ≠ y.location.parts)
    (p : Program) : (p.collect disk x >>= fun q => q.collect disk y).toOption =
      (p.collect disk y >>= fun q => q.collect disk x).toOption := by
  have hxy : x.location.same y.location = false := beq_eq_false_iff_ne.mpr h
  have hyx : y.location.same x.location = false := beq_eq_false_iff_ne.mpr h.symm
  have hseen : ∀ {x y : Fixture} (f : Option File), x.location.same y.location = false →
      (p.setFile y.location f).collect disk x =
        (x.expected disk (p.file x.location)).map
          ((p.setFile y.location f).setFile x.location) := fun f h => by
    rw [collect, file_setFile_of_ne p h]
  have hfails : ∀ {x y : Fixture} (f : Option File) e, x.location.same y.location = false →
      p.collect disk x = .error e → ((p.setFile y.location f).collect disk x).toOption = none := by
    intro x y f e h he
    rw [hseen f h]
    cases hx : x.expected disk (p.file x.location) with
    | error e => rfl
    | ok g =>
      rw [collect, hx] at he
      cases he
  refine toOption_bind_comm (fun q e hq he => ?_) (fun q e hq he => ?_) fun q q' hq hq' => ?_
  · obtain ⟨f, -, rfl⟩ := exists_of_map_eq_ok hq
    exact hfails f e hyx he
  · obtain ⟨f, -, rfl⟩ := exists_of_map_eq_ok hq
    exact hfails f e hxy he
  · obtain ⟨f, hf, rfl⟩ := exists_of_map_eq_ok hq
    obtain ⟨g, hg, rfl⟩ := exists_of_map_eq_ok hq'
    rw [hseen f hyx, hseen g hxy, hf, hg]
    exact congrArg some (p.setFile_comm hxy f g)

/-- Fixtures at different locations can be collected in any order. -/
theorem toOption_ofFixtures_of_perm {ys : List Fixture}
    (h : xs.Pairwise fun x y => x.location.parts ≠ y.location.parts) (hperm : xs.Perm ys) :
    (ofFixtures disk xs).toOption = (ofFixtures disk ys).toOption := by
  rw [ofFixtures_eq_foldlM, ofFixtures_eq_foldlM, toOption_foldlM, toOption_foldlM]
  refine hperm.foldl_eq' (fun x hx y hy o => ?_) _
  cases o with
  | none => rfl
  | some p =>
    rw [Option.bind_some, Option.bind_some, ← toOption_bind, ← toOption_bind]
    by_cases hne : x = y
    · rw [hne]
    · have : Std.Symm fun x y : Fixture => x.location.parts ≠ y.location.parts :=
        ⟨fun _ _ => Ne.symm⟩
      exact toOption_collect_comm (h.forall hx hy hne) p

end Program

namespace Fixture

/-- What a fixture comes to by itself, with an empty file at its location. -/
def expectedAlone (disk : Disk) (x : Fixture) : Except FixtureError (Option File) :=
  x.expected disk (.empty x.location)

/-- What a fixture comes to below others, whose file at its location gives it the spelling. -/
def expectedBelow (disk : Disk) (above : List Fixture) (x : Fixture) :
    Except FixtureError (Option File) := do
  let p ← Program.ofFixtures disk above
  x.expected disk (.empty (p.file x.location).location)

end Fixture

/--
Collecting fixtures fails as the first one of them that fails, or has at every location what the
last fixture there comes to, and nothing elsewhere. Every fixture then comes to what it does with an
empty file, spelled as its location is by then. That is what it does by itself, if its location is
spelled as the fixtures above spell it; and it is that up to spelling, errors included, for edits
that ignore spelling. Fixtures at different locations can be collected in any order.
-/
theorem ofFixtures_collects (disk : Disk) (xs : List Fixture) :
    Collects Eq Eq (Fixture.expectedBelow disk) xs (Program.ofFixtures disk xs) ∧
    (SpellsAlike id xs →
      Collects Eq Eq (fun _ => Fixture.expectedAlone disk) xs (Program.ofFixtures disk xs)) ∧
    ((∀ x ∈ xs, ∀ edit ∈ x.edits, File.IgnoresSpelling edit) →
      Collects FixtureError.Respells File.Respells (fun _ => Fixture.expectedAlone disk) xs
        (Program.ofFixtures disk xs)) ∧
    (xs.Pairwise (fun x y => x.location.parts ≠ y.location.parts) → ∀ ys, xs.Perm ys →
      (∃ e e', Program.ofFixtures disk xs = .error e ∧ Program.ofFixtures disk ys = .error e') ∨
        ∃ p, Program.ofFixtures disk xs = .ok p ∧ Program.ofFixtures disk ys = .ok p) := by
  have hsame : ∀ result : Except FixtureError (Option File),
      ResultRel Eq (Option.Rel Eq) result result := fun result =>
    .refl (fun _ => rfl) (fun file => by cases file <;> constructor; rfl) result
  refine ⟨Program.collects_ofFixtures fun above x below p hxs hp => ?_, fun h =>
    Program.collects_ofFixtures fun above x below p hxs hp => ?_, fun h =>
    Program.collects_ofFixtures fun above x below p hxs hp => ?_, fun h ys hperm =>
    toOption_eq_iff.mp (Program.toOption_ofFixtures_of_perm h hperm)⟩
  · rw [Fixture.expectedBelow, hp]
    exact hsame _
  · have hspelled : (p.file x.location).location = x.location :=
      Program.location_file_of_spellsAlike hp (hxs ▸ h).before
    have halone : x.expected disk (p.file x.location) = x.expectedAlone disk :=
      congrArg (fun location => x.expected disk (.empty location)) hspelled
    rw [halone]
    exact hsame _
  · have hspelled : (p.file x.location).location.parts = x.location.parts :=
      Program.location_file_of_spellsAlike hp (hxs ▸ spellsAlike_of_ignoresSpelling h).before
    exact Fixture.respells_expected (h x (by simp [hxs])) disk hspelled

section

private def sampleAt (path : Path) (h : path.staysBelow = true)
    (edits : List (File → Except Missing (Option File))) : Fixture where
  root := ⟨"r".toList⟩
  path
  below := h
  edits

/-- A disk after the same text was written to two files. -/
private def sampleDisk : Disk :=
  let write (path : Path) (h : path.staysBelow = true) (disk : Disk) : Disk :=
    (((sampleAt path h []).write "x\n# ^ NOTE[n] ^ b".toList).run.run disk).2
  write ⟨"b".toList⟩ (by decide) (write ⟨"a".toList⟩ (by decide) .empty)

theorem ofFixtures_collects_samples :
    let first := sampleAt ⟨"a".toList⟩ (by decide) []
    let noted := sampleAt ⟨"./a".toList⟩ (by decide)
      [fun f => some <$> f.expect "n".toList (.notes ["c".toList] true) false]
    let removed := sampleAt ⟨"a".toList⟩ (by decide) [fun _ => pure none]
    let other := sampleAt ⟨"b".toList⟩ (by decide) []
    Collects FixtureError.Respells File.Respells (fun _ => Fixture.expectedAlone sampleDisk)
        [first, noted] (Program.ofFixtures sampleDisk [first, noted]) ∧
      SpellsAlike id [first, removed] ∧
      Collects Eq Eq (fun _ => Fixture.expectedAlone sampleDisk) [first, removed]
        (Program.ofFixtures sampleDisk [first, removed]) ∧
      Program.ofFixtures sampleDisk [first, removed] = .ok .empty ∧
      ∃ p, Program.ofFixtures sampleDisk [first, other] = .ok p ∧
        Program.ofFixtures sampleDisk [other, first] = .ok p := by
  intro first noted removed other
  obtain ⟨-, -, hignores, -⟩ := ofFixtures_collects sampleDisk [first, noted]
  obtain ⟨-, hspelled, -, -⟩ := ofFixtures_collects sampleDisk [first, removed]
  obtain ⟨-, -, -, hreorder⟩ := ofFixtures_collects sampleDisk [first, other]
  have halike : SpellsAlike id [first, removed] :=
    List.pairwise_pair.mpr fun _ => ⟨rfl, nofun⟩
  refine ⟨hignores fun x hx edit hedit => ?_, halike, hspelled halike, rfl, ?_⟩
  · rcases List.mem_pair.mp hx with rfl | rfl
    · cases hedit
    · rw [List.mem_singleton.mp hedit]
      exact File.ignoresSpelling_expect _ _ _
  · rcases hreorder (List.pairwise_pair.mpr (by decide)) [other, first] (.swap other first []) with
      ⟨e, -, hfails, -⟩ | hboth
    · cases hfails
    · exact hboth

/-- A repeated location that is spelled differently shows in an error, and to an edit that looks. -/
theorem ofFixtures_shows_spelling :
    let first := sampleAt ⟨"a".toList⟩ (by decide) []
    let missing := sampleAt ⟨"./a".toList⟩ (by decide)
      [fun f => some <$> f.expect "m".toList (.notes ["c".toList] true) false]
    let looking := sampleAt ⟨"./a".toList⟩ (by decide)
      [fun f => if f.location = ⟨"r/./a".toList⟩ then pure (some f)
        else throw (.file f.location)]
    (∃ f, first.expectedAlone sampleDisk = .ok f) ∧
      (∃ e e', missing.expectedAlone sampleDisk = .error e ∧
        Program.ofFixtures sampleDisk [first, missing] = .error e' ∧ e.message ≠ e'.message) ∧
      (∃ f, looking.expectedAlone sampleDisk = .ok f) ∧
      ∃ e, Program.ofFixtures sampleDisk [first, looking] = .error e :=
  ⟨⟨_, rfl⟩, ⟨_, _, rfl, rfl, by decide⟩, ⟨_, rfl⟩, _, rfl⟩

end

end NoticeCheck
