import NoticeCheck.Comparison

/-! Reports of comparisons. The left side is what was reported, the right side what was expected. -/
namespace NoticeCheck

inductive ColorMode where
  | auto
  | always
  | never
  deriving DecidableEq

/-- Whether to colour; only `auto` asks for the terminal. -/
def ColorMode.colored (mode : ColorMode) (isTerminal : Bool) : Bool :=
  match mode with
  | auto => isTerminal
  | always => true
  | never => false

structure Report where
  text : Text
  isDifferent : Bool
  deriving DecidableEq

namespace Report

/-- A tick, bold green if coloured, or a cross, bold red. -/
def mark (colored same : Bool) : Text :=
  let symbol := if same then '✓' else '✘'
  let color := if same then "\x1b[1;32m".toList else "\x1b[1;31m".toList
  if colored then color ++ symbol :: "\x1b[0m".toList else [symbol]

def shown (n : Option Notice) : Text :=
  n.elim "<NONE>".toList Notice.display

def pairRows (colored : Bool) : Pair → List Text
  | .same n => ["  | ".toList ++ mark colored true ++ ' ' :: n.display]
  | .different left right =>
    ["  | ".toList ++ mark colored false ++ " !! GOT  !! ".toList ++ shown left,
      "  |   !! WANT !! ".toList ++ shown right]

/-- A line with one agreeing pair takes one row; others have a heading. -/
def lineRows (colored : Bool) (number : Nat) (pairs : List Pair) : List Text :=
  let heading := "  | ".toList ++ mark colored (pairs.all Pair.isSame) ++ ' ' ::
    Text.ofNat number ++ [':']
  match pairs with
  | [.same n] => [heading ++ ' ' :: n.display]
  | _ => heading :: pairs.flatMap (pairRows colored)

/-- The rows written so far, and whether a line among them has a difference. -/
structure Draft where
  rows : List Text := []
  isDifferent : Bool := false

namespace Draft

def addLine (colored : Bool) (d : Draft) (number : Nat) (pairs : List Pair) : Draft where
  rows := d.rows ++ lineRows colored number pairs
  isDifferent := d.isDifferent || !pairs.all Pair.isSame

def addFile (colored : Bool) (d : Draft) (path : Text) (lines : SortedMap Nat Sides) : Draft :=
  lines.entries.foldl (fun d (number, sides) => d.addLine colored number sides.pairs)
    { d with rows := d.rows ++ ["> ".toList ++ path] }

end Draft

def ofComparison (colored : Bool) (c : Comparison) : Report :=
  let d : Draft := c.files.entries.foldl (fun d (path, lines) => d.addFile colored path lines) {}
  ⟨.ofRows d.rows, d.isDifferent⟩

/-- Steps that each note a difference or none note whether there is one at all. -/
theorem isDifferent_foldl {α : Type} {f : Draft → α → Draft} {same : α → Bool}
    (h : ∀ d a, (f d a).isDifferent = (d.isDifferent || !same a)) (as : List α) (d : Draft) :
    (as.foldl f d).isDifferent = (d.isDifferent || !as.all same) := by
  induction as generalizing d with
  | nil => simp
  | cons a as ih => rw [List.foldl_cons, ih, h, List.all_cons, Bool.not_and, Bool.or_assoc]

/-- The differences noted while the rows are written are those of the comparison. -/
theorem isDifferent_ofComparison (colored : Bool) (c : Comparison) :
    (ofComparison colored c).isDifferent = !c.isMatch := by
  have hfile : ∀ (d : Draft) (file : Text × SortedMap Nat Sides),
      (d.addFile colored file.1 file.2).isDifferent =
        (d.isDifferent || !file.2.values.all fun sides => sides.pairs.all Pair.isSame) := by
    intro d file
    rw [Draft.addFile, isDifferent_foldl (fun _ _ => rfl), SortedMap.values, List.all_map]
    rfl
  rw [ofComparison, isDifferent_foldl hfile, Comparison.isMatch, SortedMap.values, List.all_map,
    Bool.false_or]
  rfl

end Report

/-- What was reported is not what was expected. -/
structure Mismatch where
  report : Text
  deriving DecidableEq

def Mismatch.message (m : Mismatch) : Text :=
  '\n' :: m.report

/-- Fail with the whole report when anything differs. -/
def Report.require (r : Report) : Except Mismatch Unit :=
  if r.isDifferent then throw ⟨r.text⟩ else pure ()

/-- Fail with the plain report unless the comparison is a match. -/
def Comparison.require (c : Comparison) : Except Mismatch Unit :=
  (Report.ofComparison (ColorMode.never.colored false) c).require

end NoticeCheck
