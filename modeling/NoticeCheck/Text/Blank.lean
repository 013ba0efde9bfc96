import NoticeCheck.Text.Basic

/-! Blank characters, those of the Unicode property White_Space, and trimming. -/
namespace NoticeCheck

/-- The 25 code points of White_Space, as ranges. -/
def blankRanges : List (Nat × Nat) :=
  [(0x09, 0x0D), (0x20, 0x20), (0x85, 0x85), (0xA0, 0xA0), (0x1680, 0x1680), (0x2000, 0x200A),
    (0x2028, 0x2029), (0x202F, 0x202F), (0x205F, 0x205F), (0x3000, 0x3000)]

def isBlank (c : Char) : Bool :=
  blankRanges.any fun r => decide (r.1 ≤ c.toNat ∧ c.toNat ≤ r.2)

namespace Text

def skipBlanks (t : Text) : Text :=
  t.dropWhile isBlank

def dropTrailingBlanks (t : Text) : Text :=
  (t.reverse.dropWhile isBlank).reverse

def trim (t : Text) : Text :=
  t.skipBlanks.dropTrailingBlanks

/-- A text of blanks only, the empty text included. -/
def isVoid (t : Text) : Bool :=
  t.all isBlank

end Text

end NoticeCheck
