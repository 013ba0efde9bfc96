import Mathlib.Data.List.DropRight
import Mathlib.Data.List.TakeWhile
import Mathlib.Data.Option.Basic
import NoticeCheck.Text.Blank
import NoticeCheck.Text.Cut

/-! Trimmed texts, and texts made of rows. -/
namespace NoticeCheck

theorem isBlank_eq_false_of_isAlpha {c : Char} (h : c.isAlpha = true) : isBlank c = false := by
  have hletter : (65 ≤ c.toNat ∧ c.toNat ≤ 90) ∨ (97 ≤ c.toNat ∧ c.toNat ≤ 122) := by
    rcases Bool.or_eq_true_iff.mp h with hupper | hlower
    · have hrange : 'A'.val ≤ c.val ∧ c.val ≤ 'Z'.val := of_decide_eq_true hupper
      exact .inl ⟨UInt32.le_iff_toNat_le.mp hrange.1, UInt32.le_iff_toNat_le.mp hrange.2⟩
    · obtain ⟨hfrom, hto⟩ := Bool.and_eq_true_iff.mp hlower
      have hrange : 'a'.val ≤ c.val ∧ c.val ≤ 'z'.val :=
        ⟨of_decide_eq_true hfrom, of_decide_eq_true hto⟩
      exact .inr ⟨UInt32.le_iff_toNat_le.mp hrange.1, UInt32.le_iff_toNat_le.mp hrange.2⟩
  rw [isBlank, List.any_eq_false]
  intro range hrange
  simp only [blankRanges, List.mem_cons, List.not_mem_nil, or_false] at hrange
  simp only [decide_eq_true_eq]
  rcases hrange with rfl | rfl | rfl | rfl | rfl | rfl | rfl | rfl | rfl | rfl <;> omega

namespace Text

/-- No blank at either end. -/
def IsTrimmed (t : Text) : Prop :=
  (∀ c ∈ t.head?, isBlank c = false) ∧ ∀ c ∈ t.getLast?, isBlank c = false

theorem startsWith_iff_isPrefixOf {t start : Text} : startsWith t start = true ↔ start <+: t :=
  startsWith_iff.trans (exists_congr fun _ => eq_comm)

theorem skipBlanks_append {blanks : Text} (h : ∀ c ∈ blanks, isBlank c = true) (t : Text) :
    skipBlanks (blanks ++ t) = skipBlanks t :=
  List.dropWhile_append_of_pos h

theorem skipBlanks_eq_self {t : Text} (h : ∀ c ∈ t.head?, isBlank c = false) :
    skipBlanks t = t := by
  cases t with
  | nil => rfl
  | cons c t => rw [skipBlanks, List.dropWhile_cons_of_neg (by simp [h c rfl])]

theorem dropTrailingBlanks_eq_self {t : Text} (h : ∀ c ∈ t.getLast?, isBlank c = false) :
    dropTrailingBlanks t = t := by
  rw [← List.head?_reverse] at h
  have : t.reverse.dropWhile isBlank = t.reverse := skipBlanks_eq_self h
  rw [dropTrailingBlanks, this, List.reverse_reverse]

theorem trim_eq_self {t : Text} (h : t.IsTrimmed) : t.trim = t := by
  rw [trim, skipBlanks_eq_self h.1, dropTrailingBlanks_eq_self h.2]

theorem trim_append {blanks : Text} (h : ∀ c ∈ blanks, isBlank c = true) (t : Text) :
    trim (blanks ++ t) = trim t := by
  rw [trim, skipBlanks_append h, trim]

theorem head?_dropWhile {α : Type*} (p : α → Bool) (l : List α) :
    ∀ a ∈ (l.dropWhile p).head?, p a = false := by
  intro a ha
  have hstop := List.head?_dropWhile_not p l
  rw [Option.mem_def.mp ha] at hstop
  simpa using hstop

theorem head?_skipBlanks (t : Text) : ∀ c ∈ (skipBlanks t).head?, isBlank c = false :=
  head?_dropWhile isBlank t

theorem trim_skipBlanks (t : Text) : t.skipBlanks.trim = t.trim := by
  rw [trim, skipBlanks_eq_self (head?_skipBlanks t), trim]

/-- The first character that is not blank comes from the part that has one. -/
theorem mem_of_head?_skipBlanks_append {t : Text} (h : ∃ c ∈ t, isBlank c = false) (more : Text) :
    ∀ c ∈ (skipBlanks (t ++ more)).head?, c ∈ t := by
  intro c hc
  have hne : t.skipBlanks ≠ [] := by
    obtain ⟨d, hd, hblank⟩ := h
    intro hnil
    have := List.dropWhile_eq_nil_iff.mp hnil d hd
    rw [hblank] at this
    cases this
  have hskip : skipBlanks (t ++ more) = t.skipBlanks ++ more := by
    rw [skipBlanks, List.dropWhile_append]
    exact if_neg fun hempty => hne (List.isEmpty_iff.mp hempty)
  obtain ⟨d, rest, hd⟩ := List.exists_cons_of_ne_nil hne
  rw [hskip, hd] at hc
  obtain rfl : d = c := by simpa using hc
  have hmem : d ∈ t.skipBlanks := by simp [hd]
  exact (List.dropWhile_sublist isBlank).mem hmem

theorem prefix_dropTrailingBlanks (t : Text) : dropTrailingBlanks t <+: t :=
  List.rdropWhile_prefix isBlank t

theorem isTrimmed_trim (t : Text) : t.trim.IsTrimmed := by
  constructor
  · intro c hc
    obtain ⟨rest, hrest⟩ := prefix_dropTrailingBlanks t.skipBlanks
    have hhead : t.skipBlanks.dropTrailingBlanks.head? = some c := hc
    refine head?_skipBlanks t c ?_
    rw [← hrest, List.head?_append, hhead]
    rfl
  · rw [trim, dropTrailingBlanks, List.getLast?_reverse]
    exact head?_skipBlanks _

theorem takeWhile_dropWhile_append {α : Type*} {p : α → Bool} {t rest : List α}
    (ht : ∀ c ∈ t, p c = true) (hrest : ∀ c ∈ rest.head?, p c = false) :
    (t ++ rest).takeWhile p = t ∧ (t ++ rest).dropWhile p = rest := by
  rw [List.takeWhile_append_of_pos ht, List.dropWhile_append_of_pos ht]
  cases rest with
  | nil => simp
  | cons c rest =>
    have hc : p c = false := hrest c rfl
    simp [hc]

theorem takeWhile_dropWhile_stop {stop : Char} {t : Text} (h : stop ∉ t) (rest : Text) :
    (t ++ stop :: rest).takeWhile (· != stop) = t ∧
      (t ++ stop :: rest).dropWhile (· != stop) = stop :: rest := by
  refine takeWhile_dropWhile_append (fun c hc => ?_) fun c hc => ?_
  · simpa using fun hstop : c = stop => h (hstop ▸ hc)
  · obtain rfl : stop = c := by simpa using hc
    simp

/-- Texts that end at the same mark, which is in neither, are equal with all that follows. -/
theorem append_stop_inj {stop : Char} {t u rest rest' : Text} (ht : stop ∉ t) (hu : stop ∉ u)
    (h : t ++ stop :: rest = u ++ stop :: rest') : t = u ∧ rest = rest' := by
  have hleft := takeWhile_dropWhile_stop ht rest
  have hright := takeWhile_dropWhile_stop hu rest'
  rw [h] at hleft
  have hrest : stop :: rest = stop :: rest' := hleft.2.symm.trans hright.2
  exact ⟨hleft.1.symm.trans hright.1, (List.cons.inj hrest).2⟩

/-- The blanks in front of a character that is no blank are skipped, and nothing else. -/
theorem after?_skipBlanks_eq_some {t rest : Text} {c : Char} (hc : isBlank c = false) :
    t.skipBlanks.after? [c] = some rest ↔
      ∃ blanks : Text, (∀ b ∈ blanks, isBlank b = true) ∧ t = blanks ++ c :: rest := by
  rw [after?_eq_some]
  constructor
  · intro hskip
    refine ⟨t.takeWhile isBlank, fun b hb => List.mem_takeWhile_imp hb, ?_⟩
    have hsplit : t.takeWhile isBlank ++ t.skipBlanks = t := List.takeWhile_append_dropWhile
    rw [hskip] at hsplit
    exact hsplit.symm
  · rintro ⟨blanks, hblanks, rfl⟩
    rw [skipBlanks_append hblanks, skipBlanks_eq_self (by simpa using hc)]
    rfl

theorem mem_of_mem_skipBlanks {c : Char} {t : Text} (h : c ∈ t.skipBlanks) : c ∈ t :=
  (List.dropWhile_sublist isBlank).mem h

theorem mem_of_mem_trim {c : Char} {t : Text} (h : c ∈ t.trim) : c ∈ t :=
  mem_of_mem_skipBlanks ((prefix_dropTrailingBlanks _).mem h)

theorem length_trim_le (t : Text) : t.trim.length ≤ t.length :=
  (prefix_dropTrailingBlanks _).length_le.trans (List.dropWhile_suffix isBlank).length_le

theorem trim_eq_nil_iff {t : Text} : t.trim = [] ↔ ∀ c ∈ t, isBlank c = true := by
  rw [trim, dropTrailingBlanks, List.reverse_eq_nil_iff, List.dropWhile_eq_nil_iff]
  simp only [List.mem_reverse]
  constructor
  · intro h c hc
    rw [← List.takeWhile_append_dropWhile (p := isBlank) (l := t)] at hc
    rcases List.mem_append.mp hc with hc | hc
    · exact List.mem_takeWhile_imp hc
    · exact h c hc
  · exact fun h c hc => h c ((List.dropWhile_sublist isBlank).mem hc)

theorem not_mem_of_mem_cut {sep : Char} {t piece : Text} (h : piece ∈ cut sep t) :
    sep ∉ piece := by
  induction t generalizing piece with
  | nil => simp_all [cut]
  | cons c t ih =>
    obtain ⟨first, more, hcut⟩ := List.exists_cons_of_ne_nil (cut_ne_nil sep t)
    rw [cut] at h
    split at h
    · rcases List.mem_cons.mp h with rfl | h
      · exact List.not_mem_nil
      · exact ih h
    · next hc =>
      rw [hcut] at h ih
      rcases List.mem_cons.mp h with rfl | h
      · simp [Ne.symm hc, ih List.mem_cons_self]
      · exact ih (List.mem_cons_of_mem _ h)

theorem not_mem_of_mem_rows {t row : Text} (h : row ∈ rows t) : '\n' ∉ row :=
  not_mem_of_mem_cut h

theorem cut_of_not_mem {sep : Char} {t : Text} (h : sep ∉ t) : cut sep t = [t] := by
  induction t with
  | nil => rfl
  | cons c t ih =>
    obtain ⟨hc, ht⟩ := not_or.mp (List.mem_cons.not.mp h)
    rw [cut, if_neg (Ne.symm hc), ih ht]

theorem cut_append_sep (sep : Char) (first second : Text) :
    cut sep (first ++ sep :: second) = cut sep first ++ cut sep second := by
  induction first with
  | nil => simp [cut]
  | cons c first ih =>
    obtain ⟨piece, more, h⟩ := List.exists_cons_of_ne_nil (cut_ne_nil sep first)
    rw [List.cons_append, cut, ih, cut, h]
    split <;> rfl

theorem rows_append_cons (t more : Text) : rows (t ++ '\n' :: more) = rows t ++ rows more :=
  cut_append_sep '\n' t more

theorem cut_append_cons {sep : Char} {piece : Text} (h : sep ∉ piece) (t : Text) :
    cut sep (piece ++ sep :: t) = piece :: cut sep t := by
  rw [cut_append_sep, cut_of_not_mem h, List.singleton_append]

theorem streamLines_append_cons {line : Text} (h : '\n' ∉ line) (stream : Text) :
    streamLines (line ++ '\n' :: stream) = dropReturn line :: streamLines stream := by
  obtain ⟨row, more, hstream⟩ := List.exists_cons_of_ne_nil (cut_ne_nil '\n' stream)
  have hrows : rows (line ++ '\n' :: stream) = line :: row :: more := by
    rw [rows, cut_append_cons h, hstream]
  rw [streamLines, streamLines, hrows, rows, hstream]
  rfl

theorem dropReturn_eq_self {line : Text} (h : line.getLast? ≠ some '\r') :
    dropReturn line = line :=
  if_neg h

theorem isDigit_of_mem_ofNat {n : Nat} {c : Char} (h : c ∈ ofNat n) : c.isDigit = true :=
  Nat.isDigit_of_mem_toDigits (by decide) (by decide) h

theorem not_mem_ofNat {c : Char} (hc : c.isDigit = false) (n : Nat) : c ∉ ofNat n := fun h => by
  rw [isDigit_of_mem_ofNat h] at hc
  cases hc

theorem ofNat_ne_nil (n : Nat) : ofNat n ≠ [] :=
  Nat.toDigits_ne_nil

theorem ofNat_injective : Function.Injective ofNat := by
  intro m n h
  have hread := congrArg toNat? h
  rw [toNat?_ofNat, toNat?_ofNat] at hread
  exact Option.some.inj hread

/-- Pieces without the separator are found again in the text they are glued to. -/
theorem cut_glue {sep : Char} {pieces : List Text} (hne : pieces ≠ [])
    (h : ∀ piece ∈ pieces, sep ∉ piece) : cut sep (glue sep pieces) = pieces := by
  induction pieces with
  | nil => exact absurd rfl hne
  | cons piece more ih =>
    have hpiece := h piece List.mem_cons_self
    cases more with
    | nil => exact cut_of_not_mem hpiece
    | cons next more =>
      have hmore := ih (by simp) fun p hp => h p (List.mem_cons_of_mem _ hp)
      change cut sep (piece ++ sep :: glue sep (next :: more)) = _
      rw [cut_append_cons hpiece, hmore]

theorem rows_ofRows {rs : List Text} (hne : rs ≠ []) (h : ∀ row ∈ rs, '\n' ∉ row) :
    rows (ofRows rs) = rs :=
  cut_glue hne h

theorem mem_glue_iff {sep c : Char} (hc : c ≠ sep) {pieces : List Text} :
    c ∈ glue sep pieces ↔ ∃ piece ∈ pieces, c ∈ piece := by
  induction pieces with
  | nil => simp [glue]
  | cons piece more ih =>
    cases more with
    | nil => simp [glue]
    | cons next more =>
      change c ∈ piece ++ sep :: glue sep (next :: more) ↔ _
      rw [List.mem_append, List.mem_cons, ih, or_iff_right hc]
      simp

/-- Rows without line feeds are told apart by their text, but for one empty row. -/
theorem eq_of_ofRows_eq {rs rs' : List Text} (hrs : rs ≠ [[]]) (hrs' : rs' ≠ [[]])
    (h : ∀ row ∈ rs, '\n' ∉ row) (h' : ∀ row ∈ rs', '\n' ∉ row) (heq : ofRows rs = ofRows rs') :
    rs = rs' := by
  -- the empty text is that of no rows and that of one empty row
  have hempty : ∀ {rs : List Text}, rs ≠ [] → (∀ row ∈ rs, '\n' ∉ row) → ofRows rs = [] →
      rs = [[]] := fun hne hrows hnil => by
    rw [← rows_ofRows hne hrows, hnil]
    rfl
  by_cases hne : rs = []
  · by_contra hdiff
    rw [hne] at heq hdiff
    exact hrs' (hempty (Ne.symm hdiff) h' heq.symm)
  · by_cases hne' : rs' = []
    · rw [hne'] at heq
      exact absurd (hempty hne h heq) hrs
    · rw [← rows_ofRows hne h, heq, rows_ofRows hne' h']

end Text

end NoticeCheck
