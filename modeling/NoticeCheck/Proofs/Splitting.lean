import NoticeCheck.Program
import NoticeCheck.Proofs.Text

/-!
The rows of notices, told by their properties: joined by line feeds, the messages of the rows are
the message they come from, none of them has a line feed, and all else is as it was.
-/
namespace NoticeCheck

theorem Text.glue_eq_intercalate (sep : Char) (pieces : List Text) :
    glue sep pieces = [sep].intercalate pieces := by
  induction pieces with
  | nil => exact List.intercalate_nil.symm
  | cons piece more ih =>
    cases more with
    | nil => exact List.intercalate_singleton.symm
    | cons next more =>
      rw [List.intercalate_cons_cons, ← ih, List.append_assoc]
      rfl

/-- The lines of a text: joined by line feeds they are the text, and none of them has one. -/
structure Text.HasLines (t : Text) (lines : List Text) : Prop where
  ne_nil : lines ≠ []
  joined : ['\n'].intercalate lines = t
  unbroken : ∀ line ∈ lines, '\n' ∉ line

theorem Text.hasLines_iff {t : Text} {lines : List Text} : t.HasLines lines ↔ lines = t.rows := by
  constructor
  · intro h
    have hjoined : ofRows lines = t := by
      rw [ofRows, glue_eq_intercalate]
      exact h.joined
    rw [← hjoined, rows_ofRows h.ne_nil h.unbroken]
  · rintro rfl
    constructor
    · exact cut_ne_nil '\n' t
    · rw [← glue_eq_intercalate]
      exact glue_cut '\n' t
    · exact fun _ hline => not_mem_of_mem_rows hline

namespace Notice

variable {n : Notice} {notices rows : List Notice}

/-- `rows` have the lines of the message of `n`, one each and in order, and all else from `n`. -/
structure SplitsInto (n : Notice) (rows : List Notice) : Prop where
  lines : n.message.HasLines (rows.map message)
  kept : ∀ row ∈ rows, row = { n with message := row.message }

theorem splitsInto_iff : n.SplitsInto rows ↔ rows = n.splitRows := by
  constructor
  · intro h
    calc rows = rows.map fun row => { n with message := row.message } :=
          (List.map_id rows).symm.trans (List.map_congr_left h.kept)
      _ = (rows.map message).map fun line => { n with message := line } := by
          rw [List.map_map]
          rfl
      _ = n.splitRows := by rw [Text.hasLines_iff.mp h.lines, splitRows]
  · rintro rfl
    constructor
    · rw [Text.hasLines_iff, splitRows, List.map_map]
      exact List.map_id _
    · intro row hrow
      obtain ⟨line, -, rfl⟩ := List.mem_map.mp hrow
      rfl

example : (⟨⟨"m.py".toList⟩, 2, some 4, .note, "a\n\nb".toList⟩ : Notice).splitRows =
    [⟨⟨"m.py".toList⟩, 2, some 4, .note, ['a']⟩, ⟨⟨"m.py".toList⟩, 2, some 4, .note, []⟩,
      ⟨⟨"m.py".toList⟩, 2, some 4, .note, ['b']⟩] := by decide

/-- `rows` are the rows of `notices`, those of each notice together and in its place. -/
inductive AllSplitInto : (notices rows : List Notice) → Prop
  | nil : AllSplitInto [] []
  | cons {n : Notice} {notices rows more : List Notice} (first : n.SplitsInto rows)
      (rest : AllSplitInto notices more) : AllSplitInto (n :: notices) (rows ++ more)

theorem allSplitInto_iff : AllSplitInto notices rows ↔ rows = notices.flatMap splitRows := by
  constructor
  · intro h
    induction h with
    | nil => rfl
    | cons first _ ih => rw [List.flatMap_cons, splitsInto_iff.mp first, ih]
  · rintro rfl
    induction notices with
    | nil => exact .nil
    | cons n notices ih =>
      rw [List.flatMap_cons]
      exact .cons (splitsInto_iff.mpr rfl) ih

end Notice

/-- `rows` are the rows of all notices of a program, each as often as it is there, in any order. -/
def Program.HasRows (p : Program) (rows : List Notice) : Prop :=
  ∃ inOrder, Notice.AllSplitInto p.notices inOrder ∧ rows.Perm inOrder

theorem Program.hasRows_iff {p : Program} {rows : List Notice} :
    p.HasRows rows ↔ rows.Perm (p.notices.flatMap Notice.splitRows) := by
  simp only [HasRows, Notice.allSplitInto_iff, exists_eq_left]

end NoticeCheck
