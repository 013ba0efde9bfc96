import NoticeCheck.Notice
import NoticeCheck.Text.Blank

/-!
Notices as a checker prints them, one on a line: `path:line:column: severity: message  [subtype]`,
where the column and the subtype in brackets may be left out.
-/
namespace NoticeCheck

/-- A printed notice; its path is relative to the directory the checker ran in. -/
structure PrintedNotice where
  path : Path
  line : Nat
  column : Option Nat
  severity : Severity
  message : Text
  deriving DecidableEq

namespace PrintedNotice

inductive Fault where
  | malformed
  | unknownSeverity (written : Text)
  deriving DecidableEq

/-- A line or column number; those past the limit are none. -/
def number? (digits : Text) : Option Nat :=
  (Text.toNat? digits).filter (· < Notice.numberLimit)

/-- The subtype in ` [subtype]`, if the whole text has that form. -/
def tag? (t : Text) : Option Text := do
  guard (t.head?.any isBlank)
  let inner ← t.skipBlanks.after? ['[']
  let tag := inner.takeWhile (· != ']')
  guard (tag ≠ [] ∧ inner.dropWhile (· != ']') = [']'])
  return tag

/-- The shortest message, of one character at least, that leaves nothing or a tag. -/
def splitTag? : Text → Option (Text × Text)
  | [] => none
  | c :: t =>
    if c = '\n' then none
    else match tag? t with
      | some tag => some ([c], tag)
      | none =>
        if t = [] then some ([c], [])
        else (splitTag? t).map fun (message, tag) => (c :: message, tag)

/-- The pieces of a printed line as they are written. -/
structure Shape where
  path : Text
  line : Text
  column : Option Text
  severity : Text
  message : Text
  tag : Text

/-- A non-empty text up to the first colon, and what follows that colon. -/
def field? (t : Text) : Option (Text × Text) :=
  match t.takeWhile (· != ':'), t.dropWhile (· != ':') with
  | c :: field, _ :: rest => some (c :: field, rest)
  | _, _ => none

def Shape.read? (t : Text) : Option Shape := do
  let (path, t) ← field? t
  let line := t.takeWhile Char.isDigit
  guard (line ≠ [])
  let t : Text := t.dropWhile Char.isDigit
  let column := ((t.after? [':']).getD []).takeWhile Char.isDigit
  let t : Text := if column = [] then t else t.drop (column.length + 1)
  let (severity, t) ← field? (← t.after? ": ".toList)
  let (message, tag) ← splitTag? (← t.after? [' '])
  return ⟨path, line, if column = [] then none else some column, severity, message, tag⟩

def severity? (written tag : Text) : Option Severity :=
  if written = "error".toList then some (.error tag)
  else if written = "note".toList then some .note
  else if written = "warning".toList then some .warning
  else none

/-- Read a printed line; its numbers are checked before its severity. -/
def parse (printed : Text) : Except Fault PrintedNotice :=
  match Shape.read? printed.trim with
  | none => throw .malformed
  | some s =>
    match number? s.line, s.column.map number? with
    | none, _ | _, some none => throw .malformed
    | some line, column =>
      match severity? s.severity s.tag with
      | none => throw (.unknownSeverity s.severity)
      | some severity => pure ⟨⟨s.path⟩, line, column.join, severity, s.message.trim⟩

end PrintedNotice

end NoticeCheck
