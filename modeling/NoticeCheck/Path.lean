import NoticeCheck.Text.Cut

/-!
Paths keep their spelling and are compared by their parts: repeated and trailing slashes and any
`.` but a leading one do not count.
-/
namespace NoticeCheck

structure Path where
  spelling : Text
  deriving DecidableEq, Inhabited

namespace Path

/-- One step of a path. A leading `.` is `here`; `..` is a step like any other. -/
inductive Part where
  | root
  | here
  | up
  | name (text : Text)
  deriving DecidableEq

namespace Part

def rank : Part → Nat
  | root => 0
  | here => 1
  | up => 2
  | name _ => 3

def text : Part → Text
  | name t => t
  | _ => []

/-- The root first, then `.`, then `..`, then names by code point. -/
instance : Ord Part :=
  ⟨compareLex (compareOn rank) (compareOn text)⟩

instance : Std.TransOrd Part :=
  inferInstanceAs (Std.TransCmp (compareLex (compareOn rank) (compareOn text)))

instance : Std.LawfulEqOrd Part where
  eq_of_compare {a b} h := by
    have h' : compareLex (compareOn rank) (compareOn text) a b = .eq := h
    simp only [compareLex_eq_eq, compareOn, Std.LawfulEqOrd.compare_eq_iff_eq] at h'
    cases a <;> cases b <;> simp_all [rank, text]

end Part

/-- The mark at the front of a path, if any, and the text behind it. -/
def anchor (p : Path) : Option Part × Text :=
  match p.spelling with
  | '/' :: rest => (some .root, rest)
  | ['.'] => (some .here, [])
  | '.' :: '/' :: rest => (some .here, '/' :: rest)
  | t => (none, t)

theorem anchor_suffix (p : Path) : p.anchor.2 <:+ p.spelling := by
  rw [anchor]
  split
  · next h => rw [h]; exact List.suffix_cons _ _
  · exact List.nil_suffix
  · next h => rw [h]; exact List.suffix_cons _ _
  · exact List.suffix_rfl

/-- Segments that are no step: empty ones and `.`. -/
def isIdle (segment : Text) : Bool :=
  segment == [] || segment == ['.']

def partOf? (segment : Text) : Option Part :=
  if isIdle segment then none else if segment = ['.', '.'] then some .up else some (.name segment)

def segments (p : Path) : List Text :=
  p.anchor.2.cut '/'

def parts (p : Path) : List Part :=
  p.anchor.1.toList ++ p.segments.filterMap partOf?

instance : Ord Path :=
  ⟨compareOn parts⟩

instance : Std.TransOrd Path :=
  inferInstanceAs (Std.TransCmp (compareOn parts))

/-- Whether two spellings name the same file. -/
def same (p q : Path) : Bool :=
  p.parts == q.parts

theorem same_iff {p q : Path} : p.same q = true ↔ p.parts = q.parts :=
  beq_iff_eq

theorem same_refl (p : Path) : p.same p = true :=
  beq_self_eq_true p.parts

theorem same_symm {p q : Path} (h : p.same q = true) : q.same p = true :=
  same_iff.mpr (same_iff.mp h).symm

theorem same_trans {p q r : Path} (h : p.same q = true) (h' : q.same r = true) :
    p.same r = true :=
  same_iff.mpr ((same_iff.mp h).trans (same_iff.mp h'))

theorem compare_eq_iff {p q : Path} : compare p q = .eq ↔ p.same q = true := by
  change compare p.parts q.parts = .eq ↔ _
  rw [same_iff, Std.LawfulEqOrd.compare_eq_iff_eq]

def isAbsolute (p : Path) : Bool :=
  p.anchor.1 == some .root

/-- `child` seen from `p`: an absolute child stands for itself. -/
def join (p child : Path) : Path :=
  if child.isAbsolute then child
  else if p.spelling = [] ∨ p.spelling.getLast? = some '/' then ⟨p.spelling ++ child.spelling⟩
  else ⟨p.spelling ++ '/' :: child.spelling⟩

def dropTrailingIdle (segments : List Text) : List Text :=
  (segments.reverse.dropWhile isIdle).reverse

def anchorText (p : Path) : Text :=
  match p.anchor.1 with
  | some .root => ['/']
  | some .here => ['.']
  | _ => []

/-- What is above the last step, without trailing slashes; none for the root and the empty path. -/
def parent? (p : Path) : Option Path :=
  match (dropTrailingIdle p.segments).reverse with
  | _ :: above => some ⟨p.anchorText ++ Text.glue '/' (dropTrailingIdle above.reverse)⟩
  | [] => if p.anchor.1 = some .here then some ⟨[]⟩ else none

def dropSteps : Nat → List Text → List Text
  | _, [] => []
  | 0, segments => segments
  | n + 1, segment :: segments =>
    if isIdle segment then dropSteps (n + 1) segments else dropSteps n segments

/-- What is left of `p` below `root`, as spelled, when the parts of `root` begin those of `p`. -/
def below? (root p : Path) : Option Path :=
  if root.parts = [] then some ⟨p.anchorText ++ Text.glue '/' (dropTrailingIdle p.segments)⟩
  else if root.parts.isPrefixOf p.parts then
    let steps := root.parts.length - p.anchor.1.toList.length
    some ⟨Text.glue '/' (dropTrailingIdle ((dropSteps steps p.segments).dropWhile isIdle))⟩
  else none

/-- The depth below the start after following the parts; none if they ever lead above it. -/
def depth? : List Part → Nat → Option Nat
  | [], depth => some depth
  | .root :: _, _ => none
  | .here :: parts, depth => depth? parts depth
  | .up :: _, 0 => none
  | .up :: parts, depth + 1 => depth? parts depth
  | .name _ :: parts, depth => depth? parts (depth + 1)

/-- A path that never leads above where it starts, and ends below it. -/
def staysBelow (p : Path) : Bool :=
  (depth? p.parts 0).any (0 < ·)

/-- How `p` is shown in a comparison under `root`: relative to it, or in full when outside. -/
def shown (root p : Path) : Text :=
  ((below? root p).getD p).spelling

end Path

end NoticeCheck
