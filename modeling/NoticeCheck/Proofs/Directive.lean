import NoticeCheck.Directive
import NoticeCheck.Proofs.Text

/-!
What a line gives when it is read as a directive. A line has a shape exactly when it is spelled as a
directive with that shape.
-/
namespace NoticeCheck.Directive

/-- A line that does not start with a number sign is no directive. -/
theorem parse_of_head {line : Text} (h : ∀ c ∈ line.skipBlanks.head?, c ≠ '#') :
    parse line = .ok none := by
  have hattempt : isAttempt line = false := by
    rw [isAttempt]
    cases hline : line.skipBlanks with
    | nil => rfl
    | cons c rest =>
      have hc : '#' ≠ c := (h c (by simp [hline])).symm
      simp [Text.after?, hc]
  rw [parse, hattempt]
  rfl

def keyword (d : Directive) : Keyword :=
  match d.instruction with
  | .name => .name
  | .reveal => .reveal
  | .error _ => .error
  | .note => .note

/-- Empty for all but errors. -/
def subtype (d : Directive) : Text :=
  match d.instruction with
  | .error subtype => subtype
  | _ => []

def shape (d : Directive) : Shape :=
  ⟨d.indent, d.keyword, d.subtype, d.name, d.payload⟩

theorem exists_shape {line : Text} {d : Directive} (h : parse line = .ok (some d)) :
    ∃ s, Shape.read? line = some s ∧ ofShape s = .ok d := by
  rw [parse] at h
  split at h
  · cases hshape : Shape.read? line with
    | none =>
      rw [hshape] at h
      cases h
    | some s =>
      refine ⟨s, rfl, ?_⟩
      rw [hshape] at h
      cases hd : ofShape s with
      | error fault => simp [hd] at h
      | ok d' => simpa [hd] using h
  · cases h

/--
A shape is accepted exactly when an error, and nothing else, has a subtype, and a line that is just
named has a name.
-/
theorem ofShape_eq_ok_iff {s : Shape} {d : Directive} :
    ofShape s = .ok d ↔ d.shape = s ∧ (s.subtype ≠ [] ↔ s.keyword = .error) ∧
      (s.keyword = .name → s.name ≠ none) := by
  obtain ⟨indent, k, t, name, payload⟩ := s
  obtain ⟨indent', instruction, name', payload'⟩ := d
  -- What `ofShape` tests is known in each of the cases.
  by_cases ht : t = [] <;> cases k <;> cases name <;> cases instruction <;>
    simp_all [ofShape, shape, keyword, subtype, pure, Except.pure, throw, throwThe,
      MonadExceptOf.throw, eq_comm]

/-- Text between two brackets, or nothing. -/
def bracketText (opening closing : Char) (inner : Option Text) : Text :=
  inner.elim [] fun t => opening :: (t ++ [closing])

theorem bracketed_append {opening closing : Char} {inner : Option Text} {rest : Text}
    (hinner : ∀ t ∈ inner, closing ∉ t) (hrest : ∀ c ∈ rest.head?, c ≠ opening) :
    bracketed opening closing (bracketText opening closing inner ++ rest) = (inner, rest) := by
  cases inner with
  | none =>
    have hafter : rest.after? [opening] = none := by
      cases hopen : rest.after? [opening] with
      | none => rfl
      | some more =>
        rw [Text.after?_eq_some] at hopen
        exact absurd rfl (hrest opening (by rw [hopen]; rfl))
    change bracketed opening closing rest = _
    rw [bracketed, hafter]
  | some t =>
    have hafter : Text.after? (opening :: (t ++ closing :: rest)) [opening] =
        some (t ++ closing :: rest) := Text.after?_append [opening] _
    obtain ⟨htake, hdrop⟩ := Text.takeWhile_dropWhile_stop (hinner t rfl) rest
    have htext : bracketText opening closing (some t) ++ rest =
        opening :: (t ++ closing :: rest) := by
      simp [bracketText]
    rw [htext, bracketed, hafter]
    simp only [htake, hdrop]

theorem eq_of_bracketed {opening closing : Char} {t rest : Text} {inner : Option Text}
    (h : bracketed opening closing t = (inner, rest)) :
    t = bracketText opening closing inner ++ rest ∧ ∀ s ∈ inner, closing ∉ s := by
  rw [bracketed] at h
  split at h
  · obtain ⟨rfl, rfl⟩ := Prod.mk.inj h
    exact ⟨rfl, nofun⟩
  · next after hafter =>
    rw [Text.after?_eq_some] at hafter
    split at h
    · obtain ⟨rfl, rfl⟩ := Prod.mk.inj h
      exact ⟨rfl, nofun⟩
    · next c more hdrop =>
      obtain ⟨rfl, rfl⟩ := Prod.mk.inj h
      have hc : c = closing := by
        have hstop := List.head?_dropWhile_not (· != closing) after
        simpa [hdrop] using hstop
      have hsplit : after.takeWhile (· != closing) ++ after.dropWhile (· != closing) = after :=
        List.takeWhile_append_dropWhile
      rw [hdrop, hc] at hsplit
      refine ⟨?_, fun s hs hmem => ?_⟩
      · calc t = [opening] ++ after := hafter
          _ = [opening] ++ (after.takeWhile (· != closing) ++ closing :: more) := by rw [hsplit]
          _ = _ := by simp [bracketText]
      · obtain rfl := Option.some.inj hs
        simpa using List.mem_takeWhile_imp hmem

theorem Keyword.read?_append (k : Keyword) (rest : Text) :
    read? (k.text ++ rest) = some (k, rest) := by
  -- Spelled out, since `simp` is slow to unfold the literals behind `text`.
  have hname : name.text = ['N', 'A', 'M', 'E'] := by decide
  have hreveal : reveal.text = ['R', 'E', 'V', 'E', 'A', 'L'] := by decide
  have herror : error.text = ['E', 'R', 'R', 'O', 'R'] := by decide
  have hnote : note.text = ['N', 'O', 'T', 'E'] := by decide
  cases k <;> simp [read?, hname, hreveal, herror, hnote, Text.after?]

theorem Keyword.eq_of_read? {t rest : Text} {k : Keyword} (h : read? t = some (k, rest)) :
    t = k.text ++ rest := by
  obtain ⟨k', -, hk'⟩ := List.exists_of_findSome?_eq_some h
  obtain ⟨rest', hrest', heq⟩ := Option.map_eq_some_iff.mp hk'
  obtain ⟨rfl, rfl⟩ := Prod.mk.inj heq
  exact Text.after?_eq_some.mp hrest'

theorem Keyword.skipBlanks_text_append (k : Keyword) (rest : Text) :
    (k.text ++ rest).skipBlanks = k.text ++ rest := by
  apply Text.skipBlanks_eq_self
  intro c hc
  cases k <;> obtain rfl := Option.some.inj hc <;> decide

/-- The pieces of a line that has the form of a directive. -/
structure Spelling where
  indent : Text
  beforeCaret : Text
  afterCaret : Text
  keyword : Keyword
  subtype : Option Text
  name : Option Text
  beforeClosing : Text
  afterClosing : Text
  payload : Text
  blank : ∀ gap ∈ [indent, beforeCaret, afterCaret, beforeClosing, afterClosing],
    ∀ c ∈ gap, isBlank c = true
  subtypeClosed : ∀ t ∈ subtype, ')' ∉ t
  nameClosed : ∀ t ∈ name, ']' ∉ t
  oneRow : '\n' ∉ payload

namespace Spelling

def closing (s : Spelling) : Text :=
  s.beforeClosing ++ '^' :: (s.afterClosing ++ s.payload)

/-- What follows the keyword. -/
def tail (s : Spelling) : Text :=
  bracketText '(' ')' s.subtype ++ (bracketText '[' ']' s.name ++ s.closing)

def afterSign (s : Spelling) : Text :=
  s.beforeCaret ++ '^' :: (s.afterCaret ++ (s.keyword.text ++ s.tail))

def line (s : Spelling) : Text :=
  s.indent ++ '#' :: s.afterSign

def shape (s : Spelling) : Shape :=
  ⟨s.indent, s.keyword, (s.subtype.getD []).trim, s.name.filter (· ≠ []), s.payload.trim⟩

theorem head?_closing (s : Spelling) :
    ∀ c ∈ s.closing.head?, isBlank c = true ∨ c = '^' := by
  intro c hc
  rw [closing] at hc
  cases hgap : s.beforeClosing with
  | nil =>
    rw [hgap] at hc
    exact .inr (Option.some.inj hc).symm
  | cons d gap =>
    rw [hgap] at hc
    obtain rfl := Option.some.inj hc
    exact .inl (s.blank s.beforeClosing (by simp) d (by simp [hgap]))

theorem bracketed_closing (s : Spelling) :
    bracketed '[' ']' (bracketText '[' ']' s.name ++ s.closing) = (s.name, s.closing) := by
  apply bracketed_append s.nameClosed
  rintro c hc rfl
  have hhead := s.head?_closing '[' hc
  exact absurd hhead (by decide)

theorem bracketed_tail (s : Spelling) :
    bracketed '(' ')' s.tail = (s.subtype, bracketText '[' ']' s.name ++ s.closing) := by
  apply bracketed_append s.subtypeClosed
  rintro c hc rfl
  cases hname : s.name with
  | none =>
    rw [hname] at hc
    have hhead := s.head?_closing '(' hc
    exact absurd hhead (by decide)
  | some name =>
    rw [hname] at hc
    have hhead : '[' = '(' := Option.some.inj hc
    exact absurd hhead (by decide)

theorem takeWhile_line (s : Spelling) : s.line.takeWhile isBlank = s.indent := by
  have hsign : isBlank '#' = false := by decide
  exact (Text.takeWhile_dropWhile_append (s.blank _ (by simp)) (by simpa using hsign)).1

theorem read?_line (s : Spelling) : Shape.read? s.line = some s.shape := by
  have hsign : isBlank '#' = false := by decide
  have hcaret : isBlank '^' = false := by decide
  have h₁ : s.line.skipBlanks.after? ['#'] = some s.afterSign :=
    (Text.after?_skipBlanks_eq_some hsign).mpr ⟨s.indent, s.blank _ (by simp), rfl⟩
  have h₂ : s.afterSign.skipBlanks.after? ['^'] =
      some (s.afterCaret ++ (s.keyword.text ++ s.tail)) :=
    (Text.after?_skipBlanks_eq_some hcaret).mpr ⟨s.beforeCaret, s.blank _ (by simp), rfl⟩
  have h₃ : Keyword.read? (s.afterCaret ++ (s.keyword.text ++ s.tail)).skipBlanks =
      some (s.keyword, s.tail) := by
    rw [Text.skipBlanks_append (s.blank _ (by simp)), Keyword.skipBlanks_text_append,
      Keyword.read?_append]
  have h₄ : s.closing.skipBlanks.after? ['^'] = some (s.afterClosing ++ s.payload) :=
    (Text.after?_skipBlanks_eq_some hcaret).mpr ⟨s.beforeClosing, s.blank _ (by simp), rfl⟩
  have hpayload : (s.afterClosing ++ s.payload).trim = s.payload.trim :=
    Text.trim_append (s.blank _ (by simp)) _
  have hrow : '\n' ∉ (s.afterClosing ++ s.payload).skipBlanks := by
    rw [Text.skipBlanks_append (s.blank _ (by simp))]
    exact fun hmem => s.oneRow (Text.mem_of_mem_skipBlanks hmem)
  rw [Shape.read?, s.takeWhile_line, h₁]
  simp only [Option.bind_eq_bind, Option.bind_some, h₂, h₃, s.bracketed_tail,
    s.bracketed_closing, h₄, Text.trim_skipBlanks, hpayload, guard, if_pos hrow, Option.pure_def]
  rfl

end Spelling

theorem exists_spelling {line : Text} {shape : Shape} (h : Shape.read? line = some shape) :
    ∃ s : Spelling, s.line = line ∧ s.shape = shape := by
  have hshape := h
  simp only [Shape.read?, Option.bind_eq_bind, Option.bind_eq_some_iff, Option.guard_eq_some'] at h
  obtain ⟨t₁, h₁, t₂, h₂, ⟨k, t₃⟩, h₃, t₆, h₆, _, hrow, -⟩ := h
  obtain ⟨subtype, t₄, hsubtype⟩ : ∃ subtype t₄, bracketed '(' ')' t₃ = (subtype, t₄) :=
    ⟨_, _, rfl⟩
  obtain ⟨name, t₅, hname⟩ : ∃ name t₅, bracketed '[' ']' t₄ = (name, t₅) := ⟨_, _, rfl⟩
  simp only [hsubtype, hname] at h₆
  obtain ⟨indent, hindent, rfl⟩ := (Text.after?_skipBlanks_eq_some (by decide)).mp h₁
  obtain ⟨beforeCaret, hbefore, rfl⟩ := (Text.after?_skipBlanks_eq_some (by decide)).mp h₂
  obtain ⟨beforeClosing, hclosing, rfl⟩ := (Text.after?_skipBlanks_eq_some (by decide)).mp h₆
  obtain ⟨rfl, hsubtypeClosed⟩ := eq_of_bracketed hsubtype
  obtain ⟨rfl, hnameClosed⟩ := eq_of_bracketed hname
  have hafter : t₂.takeWhile isBlank ++ t₂.skipBlanks = t₂ := List.takeWhile_append_dropWhile
  have hpayload : t₆.takeWhile isBlank ++ t₆.skipBlanks = t₆ := List.takeWhile_append_dropWhile
  rw [Keyword.eq_of_read? h₃] at hafter
  let s : Spelling :=
    { indent, beforeCaret, afterCaret := t₂.takeWhile isBlank, keyword := k, subtype, name,
      beforeClosing, afterClosing := t₆.takeWhile isBlank, payload := t₆.skipBlanks,
      blank := by
        simp only [List.mem_cons, List.not_mem_nil, or_false, forall_eq_or_imp, forall_eq]
        exact ⟨hindent, hbefore, fun c hc => List.mem_takeWhile_imp hc, hclosing,
          fun c hc => List.mem_takeWhile_imp hc⟩
      subtypeClosed := hsubtypeClosed, nameClosed := hnameClosed, oneRow := hrow }
  have hline : s.line = indent ++ '#' :: (beforeCaret ++ '^' :: t₂) := by
    rw [← hafter]
    simp only [s, Spelling.line, Spelling.afterSign, Spelling.tail, Spelling.closing, hpayload]
  refine ⟨s, hline, ?_⟩
  -- Both shapes are read from the one line.
  rw [← hline, s.read?_line] at hshape
  exact Option.some.inj hshape

/-- A line has a shape exactly when it is spelled as a directive with that shape. -/
theorem Shape.read?_eq_some_iff {line : Text} {shape : Shape} :
    Shape.read? line = some shape ↔ ∃ s : Spelling, s.line = line ∧ s.shape = shape := by
  constructor
  · exact exists_spelling
  · rintro ⟨s, rfl, rfl⟩
    exact s.read?_line

/-- What a directive takes from its line. -/
structure FromLine (d : Directive) (line : Text) : Prop where
  indent : d.indent = line.takeWhile isBlank
  trimmed : d.payload.IsTrimmed
  oneRow : '\n' ∉ d.payload
  subtype : ∀ subtype, d.instruction = .error subtype → subtype ≠ [] ∧ ∀ c ∈ subtype, c ∈ line

theorem fromLine_of_parse {line : Text} {d : Directive} (h : parse line = .ok (some d)) :
    d.FromLine line := by
  obtain ⟨shape, hshape, hd⟩ := exists_shape h
  obtain ⟨s, rfl, rfl⟩ := Shape.read?_eq_some_iff.mp hshape
  obtain ⟨hs, herror, -⟩ := ofShape_eq_ok_iff.mp hd
  have hindent : d.indent = s.indent := congrArg Shape.indent hs
  have hsubtype : d.subtype = (s.subtype.getD []).trim := congrArg Shape.subtype hs
  have hpayload : d.payload = s.payload.trim := congrArg Shape.payload hs
  rw [← hs] at herror
  refine ⟨hindent.trans s.takeWhile_line.symm, hpayload ▸ Text.isTrimmed_trim _,
    fun hmem => s.oneRow (Text.mem_of_mem_trim (hpayload ▸ hmem)), fun t ht => ?_⟩
  have hd : d.subtype = t ∧ d.keyword = .error := by simp [subtype, keyword, ht]
  rw [← hd.1]
  refine ⟨herror.mpr hd.2, fun c hc => ?_⟩
  rw [hsubtype] at hc
  have hmem := Text.mem_of_mem_trim hc
  cases ht : s.subtype with
  | none => simp [ht] at hmem
  | some t =>
    have hc : c ∈ t := by simpa [ht] using hmem
    simp [Spelling.line, Spelling.afterSign, Spelling.tail, bracketText, ht, hc]

end NoticeCheck.Directive
