import NoticeCheck.Proofs.Directive

/-!
The lines that are read as directives. Each directive has a canonical line it is read back from, and
every line that begins like a directive is either read as one or refused.
-/
namespace NoticeCheck.Directive

/--
Blanks, a number sign, blanks, and then either a caret or a word of letters with blanks and a caret
behind it.
-/
def BeginsLikeDirective (line : Text) : Prop :=
  ∃ indent gap rest : Text, (∀ c ∈ indent, isBlank c = true) ∧ (∀ c ∈ gap, isBlank c = true) ∧
    (line = indent ++ '#' :: (gap ++ '^' :: rest) ∨
      ∃ word blanks : Text, word ≠ [] ∧ (∀ c ∈ word, c.isAlpha = true) ∧ blanks ≠ [] ∧
        (∀ c ∈ blanks, isBlank c = true) ∧
        line = indent ++ '#' :: (gap ++ (word ++ (blanks ++ '^' :: rest))))

theorem beginsLikeDirective_of_isAttempt {line : Text} (h : isAttempt line = true) :
    BeginsLikeDirective line := by
  rw [isAttempt] at h
  cases hsign : line.skipBlanks.after? ['#'] with
  | none =>
    rw [hsign] at h
    cases h
  | some t =>
    rw [hsign] at h
    obtain ⟨indent, hindent, rfl⟩ := (Text.after?_skipBlanks_eq_some (by decide)).mp hsign
    have hword : t.skipBlanks.takeWhile Char.isAlpha ++ t.skipBlanks.dropWhile Char.isAlpha =
        t.skipBlanks := List.takeWhile_append_dropWhile
    simp only at h
    split at h
    · next hnil =>
      rw [hnil, List.nil_append] at hword
      rw [hword] at h
      obtain ⟨rest, hrest⟩ := Option.isSome_iff_exists.mp h
      obtain ⟨gap, hgap, rfl⟩ := (Text.after?_skipBlanks_eq_some (by decide)).mp hrest
      exact ⟨indent, gap, rest, hindent, hgap, .inl rfl⟩
    · next hne =>
      have hgap : t.takeWhile isBlank ++ t.skipBlanks = t := List.takeWhile_append_dropWhile
      obtain ⟨hhead, hcaret⟩ := Bool.and_eq_true_iff.mp h
      obtain ⟨rest, hrest⟩ := Option.isSome_iff_exists.mp hcaret
      obtain ⟨blanks, hblanks, hmore⟩ := (Text.after?_skipBlanks_eq_some (by decide)).mp hrest
      refine ⟨indent, t.takeWhile isBlank, rest, hindent, fun c hc => List.mem_takeWhile_imp hc,
        .inr ⟨t.skipBlanks.takeWhile Char.isAlpha, blanks, hne, ?_, ?_, hblanks, ?_⟩⟩
      · exact fun c hc => List.mem_takeWhile_imp hc
      · rintro rfl
        rw [hmore] at hhead
        have hcaret : isBlank '^' = true := hhead
        exact absurd hcaret (by decide)
      · rw [← hmore, hword, hgap]

theorem isAttempt_of_beginsLikeDirective {line : Text} (h : BeginsLikeDirective line) :
    isAttempt line = true := by
  obtain ⟨indent, gap, rest, hindent, hgap, hline⟩ := h
  have hcaret : isBlank '^' = false := by decide
  rcases hline with rfl | ⟨word, blanks, hne, hword, hblanksNe, hblanks, rfl⟩
  · have hskip : Text.skipBlanks (gap ++ '^' :: rest) = '^' :: rest := by
      rw [Text.skipBlanks_append hgap, Text.skipBlanks_eq_self (by simpa using hcaret)]
    have htake : List.takeWhile Char.isAlpha ('^' :: rest) = [] := rfl
    have hdrop : List.dropWhile Char.isAlpha ('^' :: rest) = '^' :: rest := rfl
    rw [isAttempt, (Text.after?_skipBlanks_eq_some (by decide)).mpr ⟨indent, hindent, rfl⟩]
    simp only [hskip, htake, hdrop, if_true]
    exact Text.startsWith_iff.mpr ⟨rest, rfl⟩
  · obtain ⟨c, word, rfl⟩ := List.exists_cons_of_ne_nil hne
    obtain ⟨b, blanks, rfl⟩ := List.exists_cons_of_ne_nil hblanksNe
    have hb : isBlank b = true := hblanks b List.mem_cons_self
    have hskip : Text.skipBlanks (gap ++ (c :: word ++ (b :: blanks ++ '^' :: rest))) =
        c :: word ++ (b :: blanks ++ '^' :: rest) := by
      have hc : isBlank c = false := isBlank_eq_false_of_isAlpha (hword c List.mem_cons_self)
      rw [Text.skipBlanks_append hgap, Text.skipBlanks_eq_self (by simpa using hc)]
    have hstop : ∀ d ∈ (b :: blanks ++ '^' :: rest).head?, d.isAlpha = false := by
      intro d hd
      obtain rfl : b = d := Option.some.inj hd
      by_contra halpha
      rw [isBlank_eq_false_of_isAlpha (by simpa using halpha)] at hb
      cases hb
    obtain ⟨htake, hdrop⟩ := Text.takeWhile_dropWhile_append hword hstop
    rw [isAttempt, (Text.after?_skipBlanks_eq_some (by decide)).mpr ⟨indent, hindent, rfl⟩]
    simp only [hskip, htake, hdrop, if_neg hne, Bool.and_eq_true]
    refine ⟨hb, ?_⟩
    rw [Text.skipBlanks_append hblanks, Text.skipBlanks_eq_self (by simpa using hcaret)]
    exact Text.startsWith_iff.mpr ⟨rest, rfl⟩

theorem isAttempt_iff {line : Text} : isAttempt line = true ↔ BeginsLikeDirective line :=
  ⟨beginsLikeDirective_of_isAttempt, isAttempt_of_beginsLikeDirective⟩

theorem parse_eq_none_iff {line : Text} :
    parse line = .ok none ↔ ¬BeginsLikeDirective line := by
  rw [← isAttempt_iff, parse]
  cases hattempt : isAttempt line with
  | false => simp [pure, Except.pure]
  | true =>
    cases hshape : Shape.read? line with
    | none => simp [throw, throwThe, MonadExceptOf.throw]
    | some s => cases hd : ofShape s <;> simp [hd]

/-- What is true of a directive that a line can spell. -/
structure IsValid (d : Directive) : Prop where
  indent : ∀ c ∈ d.indent, isBlank c = true
  trimmedSubtype : d.subtype.IsTrimmed
  closedSubtype : ')' ∉ d.subtype
  hasSubtype : d.subtype ≠ [] ↔ d.keyword = .error
  closedName : ∀ name ∈ d.name, name ≠ [] ∧ ']' ∉ name
  hasName : d.keyword = .name → d.name ≠ none
  trimmed : d.payload.IsTrimmed
  oneRow : '\n' ∉ d.payload

/-- The one line a directive is written as. -/
def canonicalLine (d : Directive) : Text :=
  d.indent ++ ("# ^ ".toList ++ (d.keyword.text ++
    ((if d.subtype = [] then [] else '(' :: (d.subtype ++ [')'])) ++
      (d.name.elim [] (fun name => '[' :: (name ++ [']'])) ++ (" ^ ".toList ++ d.payload)))))

def spelling (d : Directive) (h : d.IsValid) : Spelling where
  indent := d.indent
  beforeCaret := [' ']
  afterCaret := [' ']
  keyword := d.keyword
  subtype := if d.subtype = [] then none else some d.subtype
  name := d.name
  beforeClosing := [' ']
  afterClosing := [' ']
  payload := d.payload
  blank := by
    have hspace : isBlank ' ' = true := by decide
    simpa [hspace] using h.indent
  subtypeClosed := by
    intro t ht
    split at ht
    · cases ht
    · obtain rfl := Option.some.inj ht
      exact h.closedSubtype
  nameClosed name hname := (h.closedName name hname).2
  oneRow := h.oneRow

theorem line_spelling {d : Directive} (h : d.IsValid) : (d.spelling h).line = d.canonicalLine := by
  by_cases hsubtype : d.subtype = [] <;>
    simp [spelling, canonicalLine, Spelling.line, Spelling.afterSign, Spelling.tail,
      Spelling.closing, bracketText, hsubtype]

theorem shape_spelling {d : Directive} (h : d.IsValid) : (d.spelling h).shape = d.shape := by
  have hsubtype : ((if d.subtype = [] then none else some d.subtype).getD []).trim = d.subtype := by
    split
    · next hnil => rw [hnil]; rfl
    · exact Text.trim_eq_self h.trimmedSubtype
  have hname : d.name.filter (· ≠ []) = d.name := by
    cases hname : d.name with
    | none => rfl
    | some name => simp [(h.closedName name hname).1]
  simp only [Spelling.shape, spelling, shape, hsubtype, hname, Text.trim_eq_self h.trimmed]

theorem Spelling.beginsLikeDirective_line (s : Spelling) : BeginsLikeDirective s.line :=
  ⟨s.indent, s.beforeCaret, s.afterCaret ++ (s.keyword.text ++ s.tail), s.blank _ (by simp),
    s.blank _ (by simp), .inl rfl⟩

theorem parse_line_of_shape {s : Spelling} {d : Directive} (h : ofShape s.shape = .ok d) :
    parse s.line = .ok (some d) := by
  rw [parse, if_pos (isAttempt_iff.mpr s.beginsLikeDirective_line), s.read?_line]
  simp only [h]
  rfl

theorem parse_canonicalLine {d : Directive} (h : d.IsValid) :
    parse d.canonicalLine = .ok (some d) := by
  rw [← line_spelling h]
  apply parse_line_of_shape
  rw [shape_spelling h, ofShape_eq_ok_iff]
  exact ⟨rfl, h.hasSubtype, h.hasName⟩

theorem isValid_of_parse {line : Text} {d : Directive} (h : parse line = .ok (some d)) :
    d.IsValid := by
  obtain ⟨shape, hshape, hd⟩ := exists_shape h
  obtain ⟨s, -, rfl⟩ := Shape.read?_eq_some_iff.mp hshape
  obtain ⟨hs, herror, hnamed⟩ := ofShape_eq_ok_iff.mp hd
  have hindent : d.indent = s.indent := congrArg Shape.indent hs
  have hsubtype : d.subtype = (s.subtype.getD []).trim := congrArg Shape.subtype hs
  have hname : d.name = s.name.filter (· ≠ []) := congrArg Shape.name hs
  have hpayload : d.payload = s.payload.trim := congrArg Shape.payload hs
  rw [← hs] at herror hnamed
  constructor
  case indent => exact hindent ▸ s.blank s.indent (by simp)
  case trimmedSubtype => exact hsubtype ▸ Text.isTrimmed_trim _
  case closedSubtype =>
    intro hmem
    rw [hsubtype] at hmem
    have hmem := Text.mem_of_mem_trim hmem
    cases ht : s.subtype with
    | none => simp [ht] at hmem
    | some t => exact s.subtypeClosed t ht (by simpa [ht] using hmem)
  case hasSubtype => exact herror
  case closedName =>
    intro name hmem
    rw [hname] at hmem
    obtain ⟨hmem, hne⟩ := Option.mem_filter_iff.mp hmem
    exact ⟨by simpa using hne, s.nameClosed name hmem⟩
  case hasName => exact hnamed
  case trimmed => exact hpayload ▸ Text.isTrimmed_trim _
  case oneRow => exact fun hmem => s.oneRow (Text.mem_of_mem_trim (hpayload ▸ hmem))

/--
What is read from a line is a valid directive, and it is read again from its canonical line; every
valid directive is read from its canonical line; only a line that does not begin like a directive
is none, so that no line spelled as one is passed over.
-/
theorem parse_canonical :
    (∀ line d, parse line = .ok (some d) → d.IsValid ∧ parse d.canonicalLine = .ok (some d)) ∧
    (∀ d : Directive, d.IsValid → parse d.canonicalLine = .ok (some d)) ∧
    (∀ line, parse line = .ok none ↔ ¬BeginsLikeDirective line) ∧
    ∀ s : Spelling, parse s.line ≠ .ok none := by
  refine ⟨?_, fun d => parse_canonicalLine, fun line => parse_eq_none_iff, ?_⟩
  · intro line d hparse
    have hvalid := isValid_of_parse hparse
    exact ⟨hvalid, parse_canonicalLine hvalid⟩
  · intro s
    rw [Ne, parse_eq_none_iff, not_not]
    exact s.beginsLikeDirective_line

/-- An error with brackets and a caret in its payload, spelled loosely and as it is kept. -/
theorem parse_canonical_error :
    let line := "  #^ERROR( arg-type )[here]^ got [1] ^ (2) ".toList
    let d : Directive :=
      ⟨"  ".toList, .error "arg-type".toList, some "here".toList, "got [1] ^ (2)".toList⟩
    d.canonicalLine = "  # ^ ERROR(arg-type)[here] ^ got [1] ^ (2)".toList ∧
      parse line = .ok (some d) ∧ d.IsValid ∧ parse d.canonicalLine = .ok (some d) ∧
      parse "x = 1  # ^ NOTE ^ y".toList = .ok none := by
  intro line d
  have hparse : parse line = .ok (some d) := by decide
  obtain ⟨hvalid, -⟩ := parse_canonical.1 line d hparse
  refine ⟨by decide, hparse, hvalid, parse_canonical.2.1 d hvalid, ?_⟩
  rw [parse_canonical.2.2.1]
  rintro ⟨indent, gap, rest, hindent, -, hline⟩
  obtain ⟨more, hmore⟩ : ∃ more, "x = 1  # ^ NOTE ^ y".toList = indent ++ '#' :: more := by
    rcases hline with hline | ⟨word, blanks, -, -, -, -, hline⟩
    · exact ⟨_, hline⟩
    · exact ⟨_, hline⟩
  cases indent with
  | nil => cases hmore
  | cons c indent =>
    obtain ⟨rfl, -⟩ := List.cons.inj hmore
    exact absurd (hindent 'x' List.mem_cons_self) (by decide)

end NoticeCheck.Directive
