import NoticeCheck.Proofs.Operation
import NoticeCheck.Proofs.Text

/-!
Removing a fragment of text from the reveals on a line. All of their messages is searched, what they
begin with included.
-/
namespace NoticeCheck

namespace Text

variable {fragment start rest left t : Text} {c : Char}

/-- What is left of a text when a fragment is removed wherever it is met from left to right. -/
inductive Erased (fragment : Text) : Text → Text → Prop where
  | nil : Erased fragment [] []
  | occurrence {rest left : Text} (hne : fragment ≠ []) (h : Erased fragment rest left) :
    Erased fragment (fragment ++ rest) left
  | other {c : Char} {rest left : Text} (hno : fragment = [] ∨ ¬ fragment <+: c :: rest)
    (h : Erased fragment rest left) : Erased fragment (c :: rest) (c :: left)

/-- No occurrence of the fragment in `start ++ rest` begins before `rest`. -/
def Spares (fragment start rest : Text) : Prop :=
  fragment = [] ∨
    ∀ before after, start ++ rest = before ++ (fragment ++ after) → start.length ≤ before.length

theorem eraseFrom_append (fragment skipped rest : Text) :
    eraseFrom fragment skipped.length (skipped ++ rest) = eraseFrom fragment 0 rest := by
  induction skipped with
  | nil => rfl
  | cons c skipped ih => exact ih

theorem eraseAll_nil (fragment : Text) : eraseAll [] fragment = [] := by
  unfold eraseAll
  split <;> rfl

theorem eraseAll_append (hne : fragment ≠ []) (rest : Text) :
    (fragment ++ rest).eraseAll fragment = rest.eraseAll fragment := by
  have hstarts : startsWith (fragment ++ rest) fragment = true := startsWith_iff.mpr ⟨rest, rfl⟩
  unfold eraseAll
  rw [if_neg hne, if_neg hne]
  obtain ⟨c, more, rfl⟩ := List.exists_cons_of_ne_nil hne
  rw [List.cons_append] at hstarts ⊢
  rw [eraseFrom, if_pos hstarts]
  exact eraseFrom_append _ more rest

theorem eraseAll_cons (hno : fragment = [] ∨ ¬ fragment <+: c :: rest) :
    eraseAll (c :: rest) fragment = c :: rest.eraseAll fragment := by
  unfold eraseAll
  split
  · rfl
  · next hne =>
    have hstarts : ¬ startsWith (c :: rest) fragment = true := by
      rw [startsWith_iff_isPrefixOf]
      exact hno.resolve_left hne
    rw [eraseFrom, if_neg hstarts]

/-- There is one way to remove a fragment, and it is what `eraseAll` does. -/
theorem erased_iff : Erased fragment t left ↔ t.eraseAll fragment = left := by
  constructor
  · intro h
    induction h with
    | nil => exact eraseAll_nil fragment
    | occurrence hne _ ih => rw [eraseAll_append hne, ih]
    | other hno _ ih => rw [eraseAll_cons hno, ih]
  · rintro rfl
    induction hlength : t.length using Nat.strongRecOn generalizing t with
    | ind length ih =>
      subst hlength
      by_cases hmet : fragment ≠ [] ∧ fragment <+: t
      · obtain ⟨hne, rest, rfl⟩ := hmet
        have hshorter : rest.length < (fragment ++ rest).length := by
          have hpos := List.length_pos_iff.mpr hne
          rw [List.length_append]
          omega
        rw [eraseAll_append hne]
        exact .occurrence hne (ih _ hshorter rfl)
      · cases t with
        | nil =>
          rw [eraseAll_nil]
          exact .nil
        | cons c t =>
          have hno : fragment = [] ∨ ¬ fragment <+: c :: t := by
            by_cases hempty : fragment = []
            · exact .inl hempty
            · exact .inr fun hmeets => hmet ⟨hempty, hmeets⟩
          rw [eraseAll_cons hno]
          exact .other hno (ih _ (Nat.lt_succ_self _) rfl)

/-- A text without the fragment stays as it is. -/
theorem erased_of_not_contains (h : t.contains fragment = false) : Erased fragment t t := by
  induction t with
  | nil => exact .nil
  | cons c t ih =>
    rw [contains, Bool.or_eq_false_iff] at h
    refine .other (.inr ?_) (ih h.2)
    rw [← startsWith_iff_isPrefixOf, h.1]
    exact Bool.false_ne_true

theorem Spares.tail (h : Spares fragment (c :: start) rest) : Spares fragment start rest := by
  refine h.imp_right fun hspares before after heq => ?_
  have hlength := hspares (c :: before) after (congrArg (c :: ·) heq)
  exact Nat.le_of_succ_le_succ hlength

/-- A fragment that begins with a character the start has not is met in the rest only. -/
theorem spares_of_not_mem (hc : c ∉ start) (more rest : Text) :
    Spares (c :: more) start rest := by
  refine .inr fun before after heq => ?_
  rcases List.append_eq_append_iff.mp heq with ⟨inner, rfl, -⟩ | ⟨inner, hstart, hinner⟩
  · rw [List.length_append]
    omega
  · cases inner with
    | nil => simp [hstart]
    | cons d inner =>
      obtain ⟨rfl, -⟩ := List.cons.inj hinner
      exact absurd (by simp [hstart]) hc

/-- Where no occurrence begins in the start of a text, the start stays and the rest is searched. -/
theorem Erased.append (hspares : Spares fragment start rest) (h : Erased fragment rest left) :
    Erased fragment (start ++ rest) (start ++ left) := by
  induction start with
  | nil => exact h
  | cons c start ih =>
    refine .other (hspares.imp_right fun hlater => ?_) (ih hspares.tail)
    rintro ⟨after, hafter⟩
    exact Nat.not_succ_le_zero _ (hlater [] after hafter.symm)

end Text

namespace Notice

/-- A reveal loses the fragment, anything else stays. -/
def erase (fragment : Text) (n : Notice) : Notice :=
  if n.isReveal && n.message.contains fragment then
    { n with message := n.message.eraseAll fragment }
  else n

/--
What is left of a notice when a fragment is removed from reveals. It is removed from all of the
message; when no occurrence begins before the type, what is left is a reveal of the type without the
fragment.
-/
structure Erased (fragment : Text) (n m : Notice) : Prop where
  fields : m = { n with message := m.message }
  other : n.isReveal = false → m = n
  reveal : n.isReveal = true → Text.Erased fragment n.message m.message
  shown : ∀ type, n.isReveal = true → n.message = revealStart ++ type →
    fragment.Spares revealStart type →
    m.isReveal = true ∧ ∃ left, m.message = revealStart ++ left ∧ Text.Erased fragment type left

theorem erased_erase (fragment : Text) (n : Notice) : n.Erased fragment (n.erase fragment) := by
  have hfields : n.erase fragment = { n with message := (n.erase fragment).message } := by
    unfold erase
    split <;> rfl
  have hreveal : n.isReveal = true → Text.Erased fragment n.message (n.erase fragment).message := by
    intro hn
    unfold erase
    split
    · exact Text.erased_iff.mpr rfl
    · next h =>
      rw [hn, Bool.true_and, Bool.not_eq_true] at h
      exact Text.erased_of_not_contains h
  refine ⟨hfields, fun hn => ?_, hreveal, fun type hn hmessage hspares => ?_⟩
  · unfold erase
    rw [hn]
    rfl
  · have htype : Text.Erased fragment type (type.eraseAll fragment) := Text.erased_iff.mpr rfl
    have hleft : (n.erase fragment).message = revealStart ++ type.eraseAll fragment := by
      have herased := Text.erased_iff.mp (hreveal hn)
      rw [← herased, hmessage]
      exact Text.erased_iff.mp (htype.append hspares)
    refine ⟨?_, _, hleft, htype⟩
    rw [isReveal, Bool.and_eq_true] at hn ⊢
    refine ⟨?_, ?_⟩
    · rw [hfields]
      exact hn.1
    · rw [hleft]
      exact Text.startsWith_iff.mpr ⟨_, rfl⟩

end Notice

namespace Line

theorem erase_eq (name fragment : Text) (mustExist : Bool) (l : Line) :
    l.erase name fragment mustExist =
      if mustExist = true ∧ ∀ n ∈ l.notices, n.isReveal = true → n.message.contains fragment = false
      then .error (.atTarget l.location (.name name) (some l.number))
      else .ok (holding? l.location l.number (l.notices.map (Notice.erase fragment))) := by
  have hmap : (l.notices.map fun n => some (if n.isReveal && n.message.contains fragment then
      { n with message := n.message.eraseAll fragment } else n)) =
      (l.notices.map (Notice.erase fragment)).map some := by
    rw [List.map_map]
    rfl
  have hnone : (mustExist && !l.notices.any fun n => n.isReveal && n.message.contains fragment) =
      true ↔ mustExist = true ∧
        ∀ n ∈ l.notices, n.isReveal = true → n.message.contains fragment = false := by
    simp
  unfold erase
  simp only [hnone, hmap, withNotices?_eq_holding?, reduceOption_map_some]
  rfl

theorem notices_holding? (location : Path) (number : Nat) (notices : List Notice) {e : Line}
    (he : e.notices = []) : ((holding? location number notices).getD e).notices = notices := by
  cases notices with
  | nil => exact he
  | cons first rest => rfl

end Line

namespace File

variable {f g : File} {name fragment : Text} {mustExist : Bool}

theorem eraseFromReveals_eq_editLine (f : File) (name fragment : Text) (mustExist : Bool) :
    f.eraseFromReveals name fragment mustExist =
      f.editLine (.name name) { line := false } (Line.erase name fragment mustExist) := rfl

/-- When a fragment cannot be removed: there is no such name, or a reveal with it has to exist. -/
theorem eraseFromReveals_fails_iff :
    (∃ m, f.eraseFromReveals name fragment mustExist = .error m) ↔
      f.names.get? name = none ∨ ∃ number, f.names.get? name = some number ∧ mustExist = true ∧
        ∀ n ∈ (f.line number).notices, n.isReveal = true → n.message.contains fragment = false := by
  have hline : ∀ l : Line, (∃ m, l.erase name fragment mustExist = .error m) ↔ mustExist = true ∧
      ∀ n ∈ l.notices, n.isReveal = true → n.message.contains fragment = false := by
    intro l
    rw [l.erase_eq]
    split
    · next h => exact iff_of_true ⟨_, rfl⟩ h
    · next h => exact iff_of_false nofun h
  rw [eraseFromReveals_eq_editLine, editLine_name_fails_iff]
  simp only [hline]

/--
Removing a fragment from reveals changes no more than the reveals of one line: what is not a reveal
there stays where it is, and a reveal is replaced by what is left of it without the fragment.
-/
theorem eraseFromReveals_reveals_only
    (h : f.eraseFromReveals name fragment mustExist = .ok g) :
    ∃ number, f.names.get? name = some number ∧ f.ReplacesLine g number (g.line? number) ∧
      List.Forall₂ (Notice.Erased fragment) (f.line number).notices (g.line number).notices := by
  rw [eraseFromReveals_eq_editLine] at h
  obtain ⟨number, line, hnumber, hline, rfl⟩ := eq_of_editLine_name h
  have hnotices : ((f.setLine number line).line number).notices =
      (f.line number).notices.map (Notice.erase fragment) := by
    rw [Line.erase_eq] at hline
    split at hline
    · cases hline
    · obtain rfl := Except.ok.inj hline
      rw [line_setLine, if_pos rfl]
      exact Line.notices_holding? _ _ _ rfl
  refine ⟨number, hnumber, ?_, ?_⟩
  · rw [line?_setLine, if_pos rfl]
    exact f.replacesLine_setLine number line
  · rw [hnotices, List.forall₂_map_right_iff, List.forall₂_same]
    exact fun n _ => n.erased_erase fragment

/-- A question mark goes from a revealed type and stays in a note. -/
theorem eraseFromReveals_reveals_only_marked :
    let file : Path := ⟨"/r/m.py".toList⟩
    let reveal (type : Text) : Notice := ⟨file, 2, some 4, .note, Notice.revealMessage type⟩
    let note : Notice := ⟨file, 2, none, .note, "why?".toList⟩
    let f := ((File.empty file).setName ['a'] 2).setLine 2
      (some ⟨file, 2, [note, reveal "int?".toList]⟩)
    ∃ g, f.eraseFromReveals ['a'] ['?'] true = .ok g ∧
      f.ReplacesLine g 2 (some ⟨file, 2, [note, reveal "int".toList]⟩) ∧
      ∃ left, (reveal "int".toList).message = Notice.revealStart ++ left ∧
        Text.Erased ['?'] "int?\"".toList left := by
  intro file reveal note f
  have hremoved : f.eraseFromReveals ['a'] ['?'] true =
      .ok (f.setLine 2 (some ⟨file, 2, [note, reveal "int".toList]⟩)) := rfl
  obtain ⟨number, hnumber, hline, hnotices⟩ := eraseFromReveals_reveals_only hremoved
  obtain rfl := Option.some.inj (hnumber.symm.trans (rfl : _ = some 2))
  have hlast : (reveal "int?".toList).Erased ['?'] (reveal "int".toList) :=
    (List.forall₂_cons.mp (List.forall₂_cons.mp hnotices).2).1
  have hspares : Text.Spares ['?'] Notice.revealStart "int?\"".toList :=
    Text.spares_of_not_mem (by decide) _ _
  exact ⟨_, hremoved, hline, (hlast.shown _ rfl rfl hspares).2⟩

/-- The word before the type is removed like the type, so that the note is no reveal any more. -/
theorem eraseFromReveals_spoils_reveal :
    let file : Path := ⟨"/r/m.py".toList⟩
    let f := ((File.empty file).setName ['a'] 1).setLine 1
      (some ⟨file, 1, [⟨file, 1, none, .note, Notice.revealMessage "type".toList⟩]⟩)
    ∃ g, f.eraseFromReveals ['a'] "type".toList true = .ok g ∧
      (f.line 1).notices.map Notice.isReveal = [true] ∧
      (g.line 1).notices.map Notice.message = ["Revealed  is \"\"".toList] ∧
      (g.line 1).notices.map Notice.isReveal = [false] :=
  ⟨_, rfl, rfl, rfl, rfl⟩

end File

end NoticeCheck
