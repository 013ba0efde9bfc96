import NoticeCheck.Text.Basic

/-! Cutting a text at a separator, its rows, and the lines of a stream. Gluing undoes cutting. -/
namespace NoticeCheck.Text

/-- Cut at every `sep`; there is always one piece more than there are separators. -/
def cut (sep : Char) : Text → List Text
  | [] => [[]]
  | c :: t =>
    if c = sep then [] :: cut sep t
    else match cut sep t with
      | [] => [[c]]
      | piece :: more => (c :: piece) :: more

def glue (sep : Char) : List Text → Text
  | [] => []
  | [piece] => piece
  | piece :: more => piece ++ sep :: glue sep more

def rows (t : Text) : List Text :=
  cut '\n' t

def ofRows (rows : List Text) : Text :=
  glue '\n' rows

/-- Drop a carriage return at the very end. -/
def dropReturn (row : Text) : Text :=
  if row.getLast? = some '\r' then row.dropLast else row

/--
The lines of a stream: each ends in a line feed, or in a carriage return and a line feed; what
follows the last line feed is a line of its own unless it is empty, and keeps its carriage return.
-/
def streamLines (t : Text) : List Text :=
  let last := (rows t).getLast?.getD []
  (rows t).dropLast.map dropReturn ++ if last = [] then [] else [last]

theorem cut_ne_nil (sep : Char) (t : Text) : cut sep t ≠ [] := by
  cases t with
  | nil => simp [cut]
  | cons c t =>
    rw [cut]
    split
    · simp
    · split <;> simp

@[simp] theorem glue_cut (sep : Char) (t : Text) : glue sep (cut sep t) = t := by
  induction t with
  | nil => rfl
  | cons c t ih =>
    obtain ⟨piece, more, h⟩ := List.exists_cons_of_ne_nil (cut_ne_nil sep t)
    rw [cut]
    split
    · next hc => rw [h, glue, List.nil_append, ← h, ih, hc]; simp
    · rw [h] at ih ⊢
      cases more <;> simp_all [glue]

@[simp] theorem ofRows_rows (t : Text) : ofRows (rows t) = t :=
  glue_cut '\n' t

end NoticeCheck.Text
