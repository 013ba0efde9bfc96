import NoticeCheck.Notice

/-!
Layouts: the rows of a source text with replacements and insertions planned against them. Slots
name rows before their final numbers are known.
-/
namespace NoticeCheck

inductive Slot where
  /-- A row of the source, counted from zero. -/
  | source (index : Nat)
  /-- A planned insertion, in order of creation. -/
  | inserted (index : Nat)
  deriving DecidableEq

structure SourceRow where
  written : Text
  replacement : Option Text := none
  deriving DecidableEq

def SourceRow.text (r : SourceRow) : Text :=
  r.replacement.getD r.written

structure Insertion where
  /-- The source row that the inserted row follows. -/
  anchor : Nat
  text : Text
  deriving DecidableEq

structure Layout where
  rows : List SourceRow
  insertions : List Insertion
  deriving DecidableEq

namespace Layout

def ofText (t : Text) : Layout :=
  ⟨t.rows.map fun row => { written := row }, []⟩

def text? (l : Layout) : Slot → Option Text
  | .source i => l.rows[i]?.map SourceRow.text
  | .inserted i => l.insertions[i]?.map Insertion.text

/-- Replace the text at a slot that exists. -/
def replace? (l : Layout) (slot : Slot) (text : Text) : Option Layout :=
  match slot with
  | .source i =>
    l.rows[i]?.map fun row =>
      { l with rows := l.rows.set i { row with replacement := some text } }
  | .inserted i =>
    l.insertions[i]?.map fun insertion =>
      { l with insertions := l.insertions.set i { insertion with text } }

/-- The source row behind a slot; the index of a source slot is taken as it is. -/
def anchor? (l : Layout) : Slot → Option Nat
  | .source i => some i
  | .inserted i => l.insertions[i]?.map Insertion.anchor

/-- Insert a row below a slot and name its slot. -/
def insertBelow? (l : Layout) (slot : Slot) (text : Text) : Option (Layout × Slot) :=
  (l.anchor? slot).map fun anchor =>
    ({ l with insertions := l.insertions ++ [⟨anchor, text⟩] }, .inserted l.insertions.length)

/-- Whether nothing is planned. -/
def isEmpty (l : Layout) : Bool :=
  l.insertions.isEmpty && l.rows.all fun row => row.replacement.isNone

/-- The insertions anchored at a source row, in order of creation. -/
def anchored (l : Layout) (i : Nat) : List (Slot × Text) :=
  l.insertions.zipIdx.filterMap fun (insertion, j) =>
    if insertion.anchor = i then some (.inserted j, insertion.text) else none

/-- The final rows: each source row and then what is anchored at it. -/
def finalRows (l : Layout) : List (Slot × Text) :=
  l.rows.zipIdx.flatMap fun (row, i) => (.source i, row.text) :: l.anchored i

/-- A text laid out, with the slots of its rows in order. -/
structure Result where
  text : Text
  slots : List Slot
  deriving DecidableEq

/-- Lay out all rows; none when an insertion is anchored at no row. -/
def result? (l : Layout) : Option Result :=
  if l.insertions.all fun insertion => insertion.anchor < l.rows.length then
    some ⟨.ofRows (l.finalRows.map Prod.snd), l.finalRows.map Prod.fst⟩
  else none

/-- Row numbers count from one; those past the last line number all take that number. -/
def Result.number? (r : Result) (slot : Slot) : Option Nat :=
  if slot ∈ r.slots then some (min (r.slots.idxOf slot + 1) (Notice.numberLimit - 1)) else none

end Layout

end NoticeCheck
