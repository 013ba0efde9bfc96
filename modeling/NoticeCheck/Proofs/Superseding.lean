import NoticeCheck.Proofs.Linewise
import NoticeCheck.Proofs.Operation

/-!
Expectations that replace earlier ones. Adding one again drops what it added before and adds it
anew, as long as that is of the kind that it drops.
-/
namespace NoticeCheck

theorem Line.holding?_inj {location : Path} {number : Nat} {notices others : List Notice} :
    holding? location number notices = holding? location number others ↔ notices = others := by
  constructor
  · intro h
    have hline := congrArg (Option.getD · (empty location number)) h
    simp only [getD_holding?] at hline
    exact congrArg Line.notices hline
  · rintro rfl
    rfl

namespace Expectation

variable {e : Expectation}

theorem made_congr {l m : Line} (hlocation : l.location = m.location)
    (hnumber : l.number = m.number) : e.made l = e.made m := by
  cases e <;> simp only [made, Line.notice, hlocation, hnumber]

theorem length_made (l m : Line) : (e.made l).length = (e.made m).length := by
  cases e <;> simp [made]

/-- The notices of a line once the expectation is there in place of what it supersedes. -/
def replaced (e : Expectation) (l : Line) : List Notice :=
  l.notices.filter (fun n => !e.supersedes n) ++ e.made l

theorem edit_replacing (l : Line) :
    e.edit true l = .ok (Line.holding? l.location l.number (e.replaced l)) := by
  have hmade : (e.made (l.retain fun n => !e.supersedes n)) = e.made l := made_congr rfl rfl
  unfold edit
  simp only [if_true, Line.append?_eq_holding?, hmade, Line.reduceOption_map_some]
  rfl

/-- Of what was added to a line, all that is not dropped is there twice when it is added again. -/
theorem replaced_again {l m : Line} (hm : m.notices = e.replaced l) (hmade : e.made m = e.made l) :
    e.replaced m = e.replaced l ↔ ∀ n ∈ e.made l, e.supersedes n = true := by
  have hagain : e.replaced m = l.notices.filter (fun n => !e.supersedes n) ++
      ((e.made l).filter (fun n => !e.supersedes n) ++ e.made l) := by
    rw [replaced, hm, hmade, replaced, List.filter_append, List.filter_filter, List.append_assoc]
    simp only [Bool.and_self]
  have hdropped : (e.made l).filter (fun n => !e.supersedes n) = [] ↔
      ∀ n ∈ e.made l, e.supersedes n = true := by
    simp [List.filter_eq_nil_iff]
  rw [hagain, replaced, List.append_cancel_left_eq, List.append_left_eq_self, hdropped]

/-- As `replaced_again`, for the line as it is stored: one without notices is stored as none. -/
theorem holding?_replaced_again (l : Line) (location : Path) (number : Nat) :
    let stored := Line.holding? l.location l.number (e.replaced l)
    let m := stored.getD (.empty location number)
    Line.holding? m.location m.number (e.replaced m) = stored ↔
      ∀ n ∈ e.made l, e.supersedes n = true := by
  intro stored m
  have hlength : (e.made m).length = (e.made l).length := length_made m l
  cases hreplaced : e.replaced l with
  | nil =>
    -- nothing was added, and nothing is added to the line that is gone
    have hstored : stored = none := by
      change Line.holding? _ _ (e.replaced l) = none
      rw [hreplaced]
      rfl
    have hm : m = .empty location number := by
      change stored.getD _ = _
      rw [hstored]
      rfl
    have hnone : e.made l = [] := (List.append_eq_nil_iff.mp hreplaced).2
    have hmade : e.made m = e.made l := by
      rw [hnone, List.length_nil, List.length_eq_zero_iff] at hlength
      rw [hlength, hnone]
    have hnotices : m.notices = e.replaced l := by
      rw [hm, hreplaced]
      rfl
    rw [← replaced_again hnotices hmade, hreplaced, hstored]
    cases e.replaced m <;> simp [Line.holding?]
  | cons first rest =>
    have hm : m = ⟨l.location, l.number, e.replaced l⟩ := by
      change (Line.holding? _ _ (e.replaced l)).getD _ = _
      rw [hreplaced]
      rfl
    have hmade : e.made m = e.made l := by
      rw [hm]
      exact made_congr rfl rfl
    have hnotices : m.notices = e.replaced l := by rw [hm]
    rw [← replaced_again hnotices hmade, ← Line.holding?_inj, hm]

theorem startsWith_revealMessages {types : List Text} (h : types ≠ []) :
    (Text.ofRows (types.map Notice.revealMessage)).startsWith Notice.revealStart = true := by
  obtain ⟨first, rest, rfl⟩ := List.exists_cons_of_ne_nil h
  have hfirst : Notice.revealMessage first = Notice.revealStart ++ (first ++ ['"']) := by
    simp [Notice.revealMessage]
  rw [Text.startsWith_iff, List.map_cons, hfirst]
  cases rest with
  | nil => exact ⟨_, rfl⟩
  | cons next rest => exact ⟨_, List.append_assoc _ _ _⟩

/-- An expectation drops what it adds, unless it adds a note that passes for a kept reveal. -/
theorem supersedes_made_iff (he : e ≠ .reveals []) (l : Line) :
    (∀ n ∈ e.made l, e.supersedes n = true) ↔
      ∀ texts, e = .notes texts true →
        (Text.ofRows texts).startsWith Notice.revealStart = false := by
  cases e with
  | reveals types =>
    have hne : types ≠ [] := fun hnil => he (hnil ▸ rfl)
    refine iff_of_true (fun n hn => ?_) nofun
    obtain rfl := List.mem_singleton.mp hn
    exact startsWith_revealMessages hne
  | errors pairs =>
    refine iff_of_true (fun n hn => ?_) nofun
    obtain ⟨pair, -, rfl⟩ := List.mem_map.mp hn
    rfl
  | notes texts keepReveals =>
    cases keepReveals with
    | false =>
      refine iff_of_true (fun n hn => ?_) nofun
      obtain rfl := List.mem_singleton.mp hn
      rfl
    | true => simp [made, supersedes, Line.notice, Notice.isReveal, Severity.isNote]

end Expectation

namespace File

variable {f g : File} {name : Text} {e : Expectation}

/-- A line that is stored again changes nothing exactly when it is the one that is there. -/
theorem setLine_again_eq_iff (f : File) (number : Nat) (line again : Option Line) :
    (f.setLine number line).setLine number again = f.setLine number line ↔ again = line := by
  constructor
  · intro h
    have hline := congrArg (line? · number) h
    simpa only [line?_setLine, if_true] using hline
  · rintro rfl
    have hlines : ∀ k, ((f.setLine number again).setLine number again).line? k =
        (f.setLine number again).line? k := by
      intro k
      rw [line?_setLine, line?_setLine]
      split <;> rfl
    exact ext_line? rfl hlines fun _ => rfl

theorem expect_eq_editLine (f : File) (name : Text) (e : Expectation) (replacing : Bool) :
    f.expect name e replacing =
      f.editLine (.name name) { line := false } (e.edit replacing) := rfl

theorem expect_fails_iff (replacing : Bool) :
    (∃ m, f.expect name e replacing = .error m) ↔ f.names.get? name = none := by
  have hedit : ∀ l m, e.edit replacing l ≠ .error m := nofun
  rw [expect_eq_editLine, editLine_name_fails_iff]
  simp [hedit]

theorem expect_replacing {number : Nat} (h : f.lineNumber? (.name name) = some number) :
    f.expect name e true = .ok (f.setLine number
      (Line.holding? (f.line number).location (f.line number).number
        (e.replaced (f.line number)))) := by
  rw [expect_eq_editLine, editLine_of_known h, if_neg (by simp), Expectation.edit_replacing]
  rfl

/-- Adding an expectation again changes nothing exactly when it drops all that it adds. -/
theorem expect_again_eq_iff {number : Nat} (h : f.lineNumber? (.name name) = some number)
    (hg : f.expect name e true = .ok g) :
    g.expect name e true = .ok g ↔ ∀ n ∈ e.made (f.line number), e.supersedes n = true := by
  have hnumber : g.lineNumber? (.name name) = some number := by
    obtain ⟨_, -, hreplaces⟩ := (replacesLine_of_editLine hg).1 number h
    exact (congrArg (SortedMap.get? · name) hreplaces.names).trans h
  rw [expect_replacing h] at hg
  obtain rfl := Except.ok.inj hg
  rw [expect_replacing hnumber, Except.ok.injEq, setLine_again_eq_iff, line_setLine, if_pos rfl]
  exact Expectation.holding?_replaced_again (f.line number) f.location number

/--
An expectation that replaces earlier ones can be added exactly when the name is there. What it
supersedes then goes and what it adds comes at the end of the line, and adding it again changes
nothing exactly when it is not a note with the beginning of a reveal that comes with
`keepReveals`: such a note is a reveal that is kept. Without types the note for reveals is no
reveal.
-/
theorem expect_settles_iff (f : File) (name : Text) (e : Expectation) :
    ((∃ m, f.expect name e true = .error m) ↔ f.names.get? name = none) ∧
    ∀ g, f.expect name e true = .ok g →
      (∃ number, f.names.get? name = some number ∧
        f.ReplacesLine g number (Line.holding? (f.line number).location (f.line number).number
          ((f.line number).notices.filter (fun n => !e.supersedes n) ++ e.made (f.line number)))) ∧
      (e ≠ .reveals [] → (g.expect name e true = .ok g ↔
        ∀ texts, e = .notes texts true →
          (Text.ofRows texts).startsWith Notice.revealStart = false)) := by
  refine ⟨expect_fails_iff true, fun g hg => ?_⟩
  have hedit := hg
  rw [expect_eq_editLine] at hedit
  obtain ⟨number, line, hnumber, hline, hset⟩ := eq_of_editLine_name hedit
  constructor
  · rw [Expectation.edit_replacing] at hline
    obtain rfl := Except.ok.inj hline
    rw [hset]
    exact ⟨number, hnumber, f.replacesLine_setLine number _⟩
  · intro he
    rw [expect_again_eq_iff hnumber hg]
    exact Expectation.supersedes_made_iff he (f.line number)

/-- A reveal is kept and a note goes; the note that joins two comes once. -/
theorem expect_settles_kept_reveal :
    let file : Path := ⟨"/r/m.py".toList⟩
    let reveal : Notice := ⟨file, 2, none, .note, Notice.revealMessage "int".toList⟩
    let note : Notice := ⟨file, 2, none, .note, ['n']⟩
    let f := ((File.empty file).setName ['a'] 2).record reveal |>.record note
    let e := Expectation.notes [['x'], ['y']] true
    ∃ g, f.expect ['a'] e true = .ok g ∧ g.expect ['a'] e true = .ok g ∧
      g.line? 2 = some ⟨file, 2, [reveal, ⟨file, 2, none, .note, "x\ny".toList⟩]⟩ := by
  intro file reveal note f e
  have hadded : f.expect ['a'] e true = .ok ((f.expect ['a'] e true).toOption.getD f) := rfl
  obtain ⟨⟨number, hnumber, hline⟩, hagain⟩ := (expect_settles_iff f ['a'] e).2 _ hadded
  have hplain : ∀ texts, e = .notes texts true →
      (Text.ofRows texts).startsWith Notice.revealStart = false := by
    intro texts he
    obtain ⟨rfl, -⟩ := Expectation.notes.inj he
    decide
  refine ⟨_, hadded, (hagain nofun).mpr hplain, ?_⟩
  obtain rfl := Option.some.inj (hnumber.symm.trans (rfl : _ = some 2))
  exact hline.line

/-- A note that passes for a reveal is kept, so that adding it again adds another one. -/
theorem expect_grows_by_revealing_note :
    let f := (File.empty ⟨"/r/m.py".toList⟩).setName ['a'] 1
    let e := Expectation.notes [Notice.revealMessage "int".toList] true
    ∃ g h, f.expect ['a'] e true = .ok g ∧ g.expect ['a'] e true = .ok h ∧
      (g.line 1).notices.length = 1 ∧ (h.line 1).notices.length = 2 :=
  ⟨_, _, rfl, rfl, rfl, rfl⟩

end File

end NoticeCheck
