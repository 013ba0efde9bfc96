import NoticeCheck.PrintedNotice
import NoticeCheck.Proofs.Text

/-! Notices as they are printed. Reading a printed notice gives it back. -/
namespace NoticeCheck

namespace PrintedNotice

def severityText : Severity → Text
  | .note => "note".toList
  | .warning => "warning".toList
  | .error _ => "error".toList

theorem severityText_ne_nil (s : Severity) : severityText s ≠ [] := by
  cases s with
  | note => exact List.cons_ne_nil 'n' _
  | warning => exact List.cons_ne_nil 'w' _
  | error _ => exact List.cons_ne_nil 'e' _

theorem isAlpha_of_mem_severityText {s : Severity} {c : Char} (h : c ∈ severityText s) :
    c.isAlpha = true := by
  cases s with
  | note => exact List.all_eq_true.mp (by decide : "note".toList.all Char.isAlpha = true) c h
  | warning => exact List.all_eq_true.mp (by decide : "warning".toList.all Char.isAlpha = true) c h
  | error _ => exact List.all_eq_true.mp (by decide : "error".toList.all Char.isAlpha = true) c h

theorem notMem_severityText {c : Char} (h : c.isAlpha = false) (s : Severity) :
    c ∉ severityText s := fun hmem => by
  rw [isAlpha_of_mem_severityText hmem] at h
  exact Bool.noConfusion h

def subtype : Severity → Text
  | .error s => s
  | _ => []

/-- What stands between the line number and the severity. -/
def columnText (n : PrintedNotice) : Text :=
  n.column.elim [] fun c => ':' :: Text.ofNat c

def tagText (n : PrintedNotice) : Text :=
  if subtype n.severity = [] then [] else "  [".toList ++ subtype n.severity ++ [']']

/-- The line that prints a notice. -/
def text (n : PrintedNotice) : Text :=
  n.path.spelling ++ ':' :: (Text.ofNat n.line ++ (columnText n ++ (": ".toList ++
    (severityText n.severity ++ ':' :: ' ' :: (n.message ++ tagText n)))))

/-- A notice that is printed on one line, of which the path and the numbers can be read back. -/
structure IsPrintable (n : PrintedNotice) : Prop where
  path : n.path.spelling ≠ []
  start : ∀ c ∈ n.path.spelling.head?, isBlank c = false
  noColon : ':' ∉ n.path.spelling
  line : n.line < Notice.numberLimit
  column : ∀ c ∈ n.column, c < Notice.numberLimit
  message : n.message ≠ []
  trimmed : n.message.IsTrimmed
  oneRow : '\n' ∉ n.message

/-- A notice that can be told from the line that prints it. -/
structure IsPlain (n : PrintedNotice) : Prop where
  path : n.path.spelling ≠ []
  pathChars : ∀ c ∈ n.path.spelling, c ≠ ':' ∧ isBlank c = false
  line : n.line < Notice.numberLimit
  column : ∀ c ∈ n.column, c < Notice.numberLimit
  message : n.message ≠ []
  trimmed : n.message.IsTrimmed
  oneRow : '\n' ∉ n.message
  untagged : '[' ∉ n.message
  subtype : ']' ∉ subtype n.severity

theorem IsPlain.isPrintable {n : PrintedNotice} (h : n.IsPlain) : n.IsPrintable where
  path := h.path
  start c hc := (h.pathChars c (List.mem_of_mem_head? hc)).2
  noColon hmem := (h.pathChars ':' hmem).1 rfl
  line := h.line
  column := h.column
  message := h.message
  trimmed := h.trimmed
  oneRow := h.oneRow

theorem number?_ofNat {n : Nat} (h : n < Notice.numberLimit) :
    number? (Text.ofNat n) = some n := by
  rw [number?, Text.toNat?_ofNat]
  simpa using h

theorem field?_append {field : Text} (hne : field ≠ []) (h : ':' ∉ field) (rest : Text) :
    field? (field ++ ':' :: rest) = some (field, rest) := by
  obtain ⟨htake, hdrop⟩ := Text.takeWhile_dropWhile_stop h rest
  obtain ⟨c, field, rfl⟩ := List.exists_cons_of_ne_nil hne
  rw [field?, htake, hdrop]

/-- A text that is a tag: blanks, and then the tag in brackets. -/
structure IsTag (t tag : Text) : Prop where
  exists_blanks : ∃ blanks, blanks ≠ [] ∧ (∀ c ∈ blanks, isBlank c = true) ∧
    t = blanks ++ '[' :: (tag ++ [']'])
  nonempty : tag ≠ []
  unclosed : ']' ∉ tag

theorem isTag_of_tag? {t tag : Text} (h : tag? t = some tag) : IsTag t tag := by
  simp only [tag?, Option.bind_eq_bind, Option.bind_eq_some_iff, Option.guard_eq_some'] at h
  obtain ⟨_, hhead, inner, hinner, _, ⟨hne, hclosing⟩, htag⟩ := h
  obtain rfl := Option.some.inj htag
  have hskip : t.skipBlanks = '[' :: inner := Text.after?_eq_some.mp hinner
  have hcut : inner = inner.takeWhile (· != ']') ++ [']'] := by
    rw [← hclosing, List.takeWhile_append_dropWhile]
  refine ⟨⟨t.takeWhile isBlank, ?_, fun c hc => List.mem_takeWhile_imp hc, ?_⟩, hne, fun hmem => ?_⟩
  · cases t with
    | nil => cases hhead
    | cons c t =>
      have hc : isBlank c = true := by simpa using hhead
      simp [hc]
  · rw [← hcut, ← hskip]
    exact List.takeWhile_append_dropWhile.symm
  · have := List.mem_takeWhile_imp hmem
    exact absurd this (by decide)

theorem IsTag.tag? {t tag : Text} (h : IsTag t tag) : tag? t = some tag := by
  obtain ⟨⟨blanks, hblanks, hall, rfl⟩, hne, hclosed⟩ := h
  obtain ⟨htake, hdrop⟩ := Text.takeWhile_dropWhile_stop hclosed []
  have hhead : (blanks ++ '[' :: (tag ++ [']'])).head?.any isBlank = true := by
    obtain ⟨c, rest, rfl⟩ := List.exists_cons_of_ne_nil hblanks
    exact hall c List.mem_cons_self
  have hskip : Text.skipBlanks (blanks ++ '[' :: (tag ++ [']'])) = ['['] ++ (tag ++ [']']) :=
    Text.skipBlanks_append hall _
  unfold PrintedNotice.tag?
  rw [hskip, Text.after?_append, hhead]
  simp only [guard, if_true, Option.bind_eq_bind, Option.pure_def, Option.bind_some, htake, hdrop,
    ne_eq, hne, not_false_eq_true, and_self]

/-- No tag begins within a text that has no bracket and does not end in a blank. -/
theorem tag?_append {t : Text} (hne : t ≠ []) (hlast : ∀ c ∈ t.getLast?, isBlank c = false)
    (h : '[' ∉ t) (rest : Text) : tag? (t ++ rest) = none := by
  have hfirst : (Text.skipBlanks (t ++ rest)).after? ['['] = none := by
    cases hafter : (Text.skipBlanks (t ++ rest)).after? ['['] with
    | none => rfl
    | some inner =>
      have hmem := Text.mem_of_head?_skipBlanks_append
        ⟨t.getLast hne, List.getLast_mem hne, hlast _ (List.getLast?_eq_some_getLast hne)⟩ rest '['
        (by rw [Text.after?_eq_some.mp hafter]; rfl)
      exact absurd hmem h
  rw [tag?, hfirst]
  cases t.head?.any isBlank <;> simp [guard]

theorem isTag_brackets {s : Text} (hne : s ≠ []) (h : ']' ∉ s) :
    IsTag ("  [".toList ++ s ++ [']']) s := by
  have hblanks : "  ".toList.all isBlank = true := by decide
  exact ⟨⟨"  ".toList, List.cons_ne_nil ' ' _, List.all_eq_true.mp hblanks, rfl⟩, hne, h⟩

/-- The message ends where no tag begins earlier. -/
theorem splitTag?_of_no_earlier {message rest tag : Text} (hne : message ≠ [])
    (hrow : '\n' ∉ message) (hrest : rest = [] ∧ tag = [] ∨ tag? rest = some tag)
    (hearlier : ∀ shorter more, message = shorter ++ more → shorter ≠ [] → more ≠ [] →
      tag? (more ++ rest) = none) :
    splitTag? (message ++ rest) = some (message, tag) := by
  obtain ⟨c, message, rfl⟩ := List.exists_cons_of_ne_nil hne
  induction message generalizing c with
  | nil =>
    have hc : c ≠ '\n' := fun hc => hrow (by simp [hc])
    rcases hrest with ⟨rfl, rfl⟩ | htag
    · have hnone : tag? [] = none := rfl
      simp [splitTag?, hnone, hc]
    · simp [splitTag?, htag, hc]
  | cons d message ih =>
    have hc : c ≠ '\n' := fun hc => hrow (by simp [hc])
    have hnone : tag? (d :: message ++ rest) = none :=
      hearlier [c] (d :: message) rfl (by simp) (by simp)
    have hmore := ih d (by simp) (fun h => hrow (List.mem_cons_of_mem _ h))
      fun shorter more hd _ => hearlier (c :: shorter) more (congrArg (c :: ·) hd) (by simp)
    rw [List.cons_append, splitTag?, if_neg hc, hnone, hmore]
    simp

theorem splitTag?_append {message rest tag : Text} (hne : message ≠ [])
    (hlast : ∀ c ∈ message.getLast?, isBlank c = false) (hrow : '\n' ∉ message)
    (hbracket : '[' ∉ message) (hrest : rest = [] ∧ tag = [] ∨ tag? rest = some tag) :
    splitTag? (message ++ rest) = some (message, tag) := by
  refine splitTag?_of_no_earlier hne hrow hrest fun shorter more hmessage _ hmore => ?_
  subst hmessage
  refine tag?_append hmore (fun c hc => hlast c ?_) (fun h => hbracket (by simp [h])) rest
  rw [List.getLast?_append, Option.mem_def.mp hc]
  rfl

/-- The digits before the column end where the column does. -/
private theorem isDigit_head?_columnText (n : PrintedNotice) (rest : Text) :
    ∀ c ∈ (columnText n ++ (": ".toList ++ rest)).head?, c.isDigit = false := by
  intro c hc
  obtain rfl : ':' = c := by
    cases hcolumn : n.column <;> simpa [columnText, hcolumn] using hc
  rfl

private theorem takeWhile_columnText (n : PrintedNotice) (rest : Text) :
    ((Text.after? (columnText n ++ (": ".toList ++ rest)) [':']).getD []).takeWhile
        Char.isDigit = n.column.elim [] Text.ofNat := by
  cases hcolumn : n.column with
  | none => simp [columnText, hcolumn, Text.after?]
  | some c =>
    have hafter : Text.after? (columnText n ++ (": ".toList ++ rest)) [':'] =
        some (Text.ofNat c ++ (": ".toList ++ rest)) := by
      simp [columnText, hcolumn, Text.after?]
    rw [hafter]
    exact (Text.takeWhile_dropWhile_append (fun _ => Text.isDigit_of_mem_ofNat)
      (fun d hd => by cases hd; rfl)).1

private theorem drop_columnText (n : PrintedNotice) (rest : Text) :
    (if n.column.elim [] Text.ofNat = [] then columnText n ++ rest
      else (columnText n ++ rest).drop ((n.column.elim [] Text.ofNat).length + 1)) = rest := by
  cases hc : n.column <;> simp [columnText, hc, Text.ofNat_ne_nil]

private theorem column_written (n : PrintedNotice) :
    (if n.column.elim [] Text.ofNat = [] then none
      else some (n.column.elim [] Text.ofNat)) = n.column.map Text.ofNat := by
  cases n.column <;> simp [Text.ofNat_ne_nil]

private theorem splitTag?_message {n : PrintedNotice} (h : n.IsPlain) :
    splitTag? (n.message ++ tagText n) = some (n.message, PrintedNotice.subtype n.severity) := by
  refine splitTag?_append h.message h.trimmed.2 h.oneRow h.untagged ?_
  by_cases hs : PrintedNotice.subtype n.severity = []
  · exact .inl ⟨if_pos hs, hs⟩
  · rw [tagText, if_neg hs]
    exact .inr (isTag_brackets hs h.subtype).tag?

/-- A printed notice is cut where it was put together, but for its message and its tag. -/
theorem read?_text_of_splitTag? {n : PrintedNotice} (h : n.IsPrintable) {message tag : Text}
    (hsplit : splitTag? (n.message ++ tagText n) = some (message, tag)) :
    Shape.read? n.text = some ⟨n.path.spelling, Text.ofNat n.line, n.column.map Text.ofNat,
      severityText n.severity, message, tag⟩ := by
  have hword := field?_append (severityText_ne_nil n.severity)
    (notMem_severityText rfl n.severity) (' ' :: (n.message ++ tagText n))
  have hspace : Text.after? (' ' :: (n.message ++ tagText n)) [' '] =
      some (n.message ++ tagText n) := Text.after?_append [' '] _
  obtain ⟨hline, hafterLine⟩ := Text.takeWhile_dropWhile_append
    (fun _ => Text.isDigit_of_mem_ofNat (n := n.line)) (isDigit_head?_columnText n
      (severityText n.severity ++ ':' :: ' ' :: (n.message ++ tagText n)))
  rw [Shape.read?, text, field?_append h.path h.noColon]
  simp only [Option.bind_eq_bind, Option.bind_some]
  rw [hline, hafterLine, takeWhile_columnText, guard, if_pos (Text.ofNat_ne_nil n.line)]
  simp only [Option.pure_def, Option.bind_some]
  rw [drop_columnText, column_written, Text.after?_append, Option.bind_some, hword,
    Option.bind_some, hspace, Option.bind_some, hsplit, Option.bind_some]

theorem isTrimmed_text {n : PrintedNotice} (h : n.IsPrintable) : Text.IsTrimmed n.text := by
  constructor
  · intro c hc
    refine h.start c ?_
    obtain ⟨d, path, hpath⟩ := List.exists_cons_of_ne_nil h.path
    rw [hpath]
    simpa [text, hpath] using hc
  · intro c hc
    have htext : n.text = (n.path.spelling ++ ':' :: (Text.ofNat n.line ++ (columnText n ++
        (": ".toList ++ (severityText n.severity ++ [':', ' ']))))) ++
          (n.message ++ tagText n) := by
      simp [text]
    have hne : n.message ++ tagText n ≠ [] := by
      simp [h.message]
    rw [htext, List.getLast?_append, List.getLast?_eq_some_getLast hne, Option.some_or,
      ← List.getLast?_eq_some_getLast hne] at hc
    by_cases hs : PrintedNotice.subtype n.severity = []
    · rw [tagText, if_pos hs, List.append_nil] at hc
      exact h.trimmed.2 c hc
    · rw [tagText, if_neg hs, ← List.append_assoc, List.getLast?_concat] at hc
      obtain rfl := Option.some.inj hc
      decide

/-- Only errors take up a tag. -/
def retag : Severity → Text → Severity
  | .error _, tag => .error tag
  | severity, _ => severity

theorem severity?_severityText (s : Severity) (tag : Text) :
    severity? (severityText s) tag = some (retag s tag) := by
  cases s <;> rfl

theorem retag_subtype (s : Severity) : retag s (PrintedNotice.subtype s) = s := by
  cases s <;> rfl

/-- A printed notice is read with the message and the tag that its last part is cut into. -/
theorem parse_text_of_splitTag? {n : PrintedNotice} (h : n.IsPrintable) {message tag : Text}
    (hsplit : splitTag? (n.message ++ tagText n) = some (message, tag)) :
    parse n.text = .ok ⟨n.path, n.line, n.column, retag n.severity tag, message.trim⟩ := by
  have hcolumn : (n.column.map Text.ofNat).map number? = n.column.map some := by
    cases hc : n.column with
    | none => rfl
    | some c => simp [number?_ofNat (h.column c hc)]
  rw [parse, Text.trim_eq_self (isTrimmed_text h), read?_text_of_splitTag? h hsplit]
  simp only [number?_ofNat h.line, hcolumn, severity?_severityText]
  cases n.column <;> rfl

/-- Reading a printed notice gives it back. -/
theorem parse_text {n : PrintedNotice} (h : n.IsPlain) : parse n.text = .ok n := by
  rw [parse_text_of_splitTag? h.isPrintable (splitTag?_message h), retag_subtype,
    Text.trim_eq_self h.trimmed]

end PrintedNotice

end NoticeCheck
