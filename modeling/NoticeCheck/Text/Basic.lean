/-!
Texts are lists of characters, so that grammars over them are structural. Searching, cutting off a
fixed beginning, removing a fragment, and decimal numerals.
-/
namespace NoticeCheck

abbrev Text := List Char

namespace Text

/-- The rest of `t` after `start`, when `t` begins with it. -/
def after? : (t start : Text) → Option Text
  | t, [] => some t
  | [], _ :: _ => none
  | c :: t, s :: start => if s = c then after? t start else none

def startsWith (t start : Text) : Bool :=
  (t.after? start).isSome

def contains : (t fragment : Text) → Bool
  | [], fragment => fragment.isEmpty
  | c :: t, fragment => startsWith (c :: t) fragment || contains t fragment

/-- Drop `skip` characters, then remove the occurrences of `fragment` met from left to right. -/
def eraseFrom (fragment : Text) : (skip : Nat) → Text → Text
  | _, [] => []
  | skip + 1, _ :: t => eraseFrom fragment skip t
  | 0, c :: t =>
    if startsWith (c :: t) fragment then eraseFrom fragment (fragment.length - 1) t
    else c :: eraseFrom fragment 0 t

/-- Remove all non-overlapping occurrences of `fragment`; an empty fragment removes nothing. -/
def eraseAll (t fragment : Text) : Text :=
  if fragment = [] then t else eraseFrom fragment 0 t

def ofNat (n : Nat) : Text :=
  Nat.toDigits 10 n

/-- The number written by a non-empty list of digits. -/
def toNat? (digits : Text) : Option Nat :=
  if digits ≠ [] ∧ digits.all Char.isDigit then some (Nat.ofDigitChars 10 digits 0) else none

@[simp] theorem after?_append (start t : Text) : after? (start ++ t) start = some t := by
  induction start with
  | nil => simp [after?]
  | cons s start ih => simp [after?, ih]

theorem after?_eq_some {t start rest : Text} :
    after? t start = some rest ↔ t = start ++ rest := by
  induction start generalizing t with
  | nil => simp [after?]
  | cons s start ih =>
    cases t with
    | nil => simp [after?]
    | cons c t =>
      by_cases h : s = c
      · simp [after?, h, ih]
      · simp [after?, h, Ne.symm h]

theorem startsWith_iff {t start : Text} :
    startsWith t start = true ↔ ∃ rest, t = start ++ rest := by
  simp [startsWith, Option.isSome_iff_exists, after?_eq_some]

theorem toNat?_ofNat (n : Nat) : toNat? (ofNat n) = some n := by
  have hdigit : (ofNat n).all Char.isDigit = true :=
    List.all_eq_true.mpr fun c hc => Nat.isDigit_of_mem_toDigits (by decide) (by decide) hc
  have hne : ofNat n ≠ [] := Nat.toDigits_ne_nil
  rw [toNat?, if_pos ⟨hne, hdigit⟩, ofNat, Nat.ofDigitChars_ten_toDigits]

end Text

end NoticeCheck
