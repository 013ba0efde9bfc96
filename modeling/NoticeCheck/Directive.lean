import NoticeCheck.Text.Blank

/-!
Directives: comment lines of a fixture that say what to expect of the line they describe, such as
`# ^ ERROR(subtype)[name] ^ message`.
-/
namespace NoticeCheck

inductive Instruction where
  | name
  | reveal
  | error (subtype : Text)
  | note
  deriving DecidableEq

structure Directive where
  /-- The blanks before `#`. -/
  indent : Text
  instruction : Instruction
  /-- A name to register for the described line. -/
  name : Option Text
  /-- What follows the closing caret, trimmed. -/
  payload : Text
  deriving DecidableEq

namespace Directive

/-- What is wrong with a line that begins like a directive. -/
inductive Fault where
  | malformed
  | subtypeOnNonError
  | subtypeMissing
  | nameMissing
  deriving DecidableEq

def Fault.message : Fault → Text
  | malformed =>
    "Looks like line is trying to be an expectation but it didn't pass the regex for one".toList
  | subtypeOnNonError =>
    "Only Error instructions should be of the form 'INSTRUCTION(error_type)'".toList
  | subtypeMissing => "Must use `# ^ ERROR(error-type) ^` with the ERROR instruction".toList
  | nameMissing => "Must use `# ^ NAME[name] ^` with the NAME instruction".toList

inductive Keyword where
  | name
  | reveal
  | error
  | note
  deriving DecidableEq

def Keyword.text : Keyword → Text
  | name => "NAME".toList
  | reveal => "REVEAL".toList
  | error => "ERROR".toList
  | note => "NOTE".toList

/-- The keyword at the front and what follows it; no keyword begins another. -/
def Keyword.read? (t : Text) : Option (Keyword × Text) :=
  [name, reveal, error, note].findSome? fun k => (t.after? k.text).map fun rest => (k, rest)

/-- Whether a line begins like a directive, or like one that lost its first caret. -/
def isAttempt (line : Text) : Bool :=
  match line.skipBlanks.after? ['#'] with
  | none => false
  | some t =>
    let word := t.skipBlanks.takeWhile Char.isAlpha
    let rest : Text := t.skipBlanks.dropWhile Char.isAlpha
    if word = [] then rest.startsWith ['^']
    else rest.head?.any isBlank && rest.skipBlanks.startsWith ['^']

/-- The text between `opening` at the front and the next `closing`, if both are there. -/
def bracketed (opening closing : Char) (t : Text) : Option Text × Text :=
  match t.after? [opening] with
  | none => (none, t)
  | some inner =>
    match inner.dropWhile (· != closing) with
    | [] => (none, t)
    | _ :: rest => (some (inner.takeWhile (· != closing)), rest)

/-- The pieces of a directive line before they are checked against each other. -/
structure Shape where
  indent : Text
  keyword : Keyword
  subtype : Text
  name : Option Text
  payload : Text

def Shape.read? (line : Text) : Option Shape := do
  let t ← line.skipBlanks.after? ['#']
  let t ← t.skipBlanks.after? ['^']
  let (keyword, t) ← Keyword.read? t.skipBlanks
  let (subtype, t) := bracketed '(' ')' t
  let (name, t) := bracketed '[' ']' t
  let t ← t.skipBlanks.after? ['^']
  let payload := t.skipBlanks
  guard ('\n' ∉ payload)
  return ⟨line.takeWhile isBlank, keyword, (subtype.getD []).trim, name.filter (· ≠ []),
    payload.trim⟩

/-- Only errors have a subtype, and must; a line that is just named needs a name. -/
def ofShape (s : Shape) : Except Fault Directive :=
  if s.subtype ≠ [] ∧ s.keyword ≠ .error then throw .subtypeOnNonError
  else match s.keyword with
    | .error =>
      if s.subtype = [] then throw .subtypeMissing
      else pure ⟨s.indent, .error s.subtype, s.name, s.payload⟩
    | .name =>
      if s.name = none then throw .nameMissing else pure ⟨s.indent, .name, s.name, s.payload⟩
    | .reveal => pure ⟨s.indent, .reveal, s.name, s.payload⟩
    | .note => pure ⟨s.indent, .note, s.name, s.payload⟩

/-- The directive on a line, if it is one; an attempt at one has to succeed. -/
def parse (line : Text) : Except Fault (Option Directive) :=
  if isAttempt line then
    match Shape.read? line with
    | some s => some <$> ofShape s
    | none => throw .malformed
  else pure none

end Directive

end NoticeCheck
