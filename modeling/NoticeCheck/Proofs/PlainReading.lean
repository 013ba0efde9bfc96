import NoticeCheck.Proofs.Revision

/-! Reading a text plainly: one pass over its rows that plans nothing and changes no row. -/
namespace NoticeCheck

/-- Do what a directive asks for at the line it describes. -/
def Directive.apply (d : Directive) (number : Nat) (f : File) : File :=
  let noticed := match d.instruction with
    | .name => f
    | .reveal =>
      f.changeLine number fun l => l.appended .note (Notice.revealMessage d.payload)
    | .error subtype => f.changeLine number fun l => l.appended (.error subtype) d.payload
    | .note => f.changeLine number fun l => l.noted d.payload
  match d.name with
  | some name => noticed.setName name number
  | none => noticed

/-- The number of the described line, and the file as read so far. -/
structure PlainReading where
  described : Option Nat
  file : File

namespace PlainReading

def addRow (r : PlainReading) (row : Text) (number : Nat) : Option PlainReading :=
  match Directive.parse row with
  | .error _ => none
  | .ok none => some { r with described := some number }
  | .ok (some d) =>
    r.described.map fun described => { r with file := d.apply described r.file }

def addRows (r : PlainReading) : (number : Nat) → List Text → Option PlainReading
  | _, [] => some r
  | number, row :: rows => (r.addRow row number).bind fun r => r.addRows (number + 1) rows

/-- The file that a text describes, its rows counted from one. -/
def ofText (location : Path) (t : Text) : Option File :=
  (addRows ⟨none, .empty location⟩ 1 t.rows).map file

end PlainReading

namespace Reading

end Reading

end NoticeCheck
