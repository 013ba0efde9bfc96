import NoticeCheck.Proofs.PrintedNotice

/-!
Where the message of a printed notice ends and its tag begins. The message is the shortest one that
leaves nothing or a tag, so a bracket in it can be taken for the tag.
-/
namespace NoticeCheck.PrintedNotice

private theorem not_split_singleton {c : Char} {shorter more : Text}
    (h : [c] = shorter ++ more) (hshorter : shorter ≠ []) (hmore : more ≠ []) : False := by
  have hlength := congrArg List.length h
  have hs := List.length_pos_iff.mpr hshorter
  have hm := List.length_pos_iff.mpr hmore
  rw [List.length_append, List.length_singleton] at hlength
  omega

/-- No tag begins before the message ends. -/
theorem tag?_of_splitTag? {t message tag : Text} (h : splitTag? t = some (message, tag)) :
    ∃ rest, t = message ++ rest ∧ ∀ shorter more, message = shorter ++ more → shorter ≠ [] →
      more ≠ [] → tag? (more ++ rest) = none := by
  induction t generalizing message with
  | nil => cases h
  | cons c t ih =>
    unfold splitTag? at h
    split at h
    · cases h
    · split at h
      · obtain ⟨rfl, -⟩ := Prod.mk.inj (Option.some.inj h)
        exact ⟨t, rfl, fun _ _ hc hs hm => (not_split_singleton hc hs hm).elim⟩
      · next hnone =>
        split at h
        · obtain ⟨rfl, -⟩ := Prod.mk.inj (Option.some.inj h)
          exact ⟨t, rfl, fun _ _ hc hs hm => (not_split_singleton hc hs hm).elim⟩
        · obtain ⟨⟨message', tag'⟩, hsplit, heq⟩ := Option.map_eq_some_iff.mp h
          obtain ⟨rfl, rfl⟩ := Prod.mk.inj heq
          obtain ⟨rest, rfl, hearlier⟩ := ih hsplit
          refine ⟨rest, rfl, fun shorter more hmessage hshorter hmore => ?_⟩
          obtain ⟨d, shorter, rfl⟩ := List.exists_cons_of_ne_nil hshorter
          have hrest : message' = shorter ++ more := (List.cons.inj hmessage).2
          by_cases hs : shorter = []
          · subst hs
            rw [List.nil_append] at hrest
            rwa [← hrest]
          · exact hearlier shorter more hrest hs hmore

/-- What is printed behind a message is never read as a part of it. -/
theorem exists_splitTag?_append {message rest tag : Text} (hne : message ≠ [])
    (hrow : '\n' ∉ message) (hrest : rest = [] ∧ tag = [] ∨ tag? rest = some tag) :
    ∃ message' tag', splitTag? (message ++ rest) = some (message', tag') ∧
      message' <+: message := by
  obtain ⟨c, message, rfl⟩ := List.exists_cons_of_ne_nil hne
  induction message generalizing c with
  | nil =>
    have hsplit : splitTag? ([c] ++ rest) = some ([c], tag) :=
      splitTag?_of_no_earlier hne hrow hrest fun _ _ hc hs hm => (not_split_singleton hc hs hm).elim
    exact ⟨[c], tag, hsplit, List.prefix_rfl⟩
  | cons d message ih =>
    have hc : c ≠ '\n' := fun hc => hrow (by simp [hc])
    obtain ⟨message', tag', hsplit, hstart⟩ :=
      ih d (by simp) fun h => hrow (List.mem_cons_of_mem _ h)
    cases htag : tag? (d :: message ++ rest) with
    | some earlier =>
      refine ⟨[c], earlier, ?_, List.prefix_append [c] _⟩
      rw [List.cons_append, splitTag?, if_neg hc, htag]
    | none =>
      refine ⟨c :: message', tag', ?_, List.cons_prefix_cons.mpr ⟨rfl, hstart⟩⟩
      rw [List.cons_append, splitTag?, if_neg hc, htag, hsplit]
      simp

/--
A tag that begins within a trimmed text begins at a bracket in it that stands behind a blank, and
goes on through all that follows.
-/
theorem exists_tag?_iff {message : Text} (h : message.IsTrimmed) (rest : Text) :
    (∃ shorter more, message = shorter ++ more ∧ shorter ≠ [] ∧ more ≠ [] ∧
        tag? (more ++ rest) ≠ none) ↔
      ∃ before blank after tag, message = before ++ blank :: '[' :: after ∧ isBlank blank = true ∧
        tag ≠ [] ∧ ']' ∉ tag ∧ after ++ rest = tag ++ [']'] := by
  constructor
  · rintro ⟨shorter, more, rfl, -, hmore, htag⟩
    obtain ⟨tag, htag⟩ := Option.ne_none_iff_exists'.mp htag
    obtain ⟨⟨blanks, hblanks, hall, hsplit⟩, hne, hclosed⟩ := isTag_of_tag? htag
    -- the blanks end within the text, because its last character is none
    have hlong : ¬more <+: blanks := by
      intro hstart
      have hlast := List.getLast?_eq_some_getLast hmore
      have hblank := hall _ (hstart.sublist.mem (List.getLast_mem hmore))
      have hnot := h.2 _ (by rw [List.getLast?_append, hlast]; rfl)
      rw [hblank] at hnot
      cases hnot
    obtain ⟨inner, rfl, hinner⟩ : ∃ inner, more = blanks ++ inner ∧
        '[' :: (tag ++ [']']) = inner ++ rest := by
      rcases List.append_eq_append_iff.mp hsplit with ⟨longer, hlonger, -⟩ | ⟨inner, hmore, hinner⟩
      · exact absurd ⟨longer, hlonger.symm⟩ hlong
      · exact ⟨inner, hmore, hinner⟩
    obtain ⟨after, rfl⟩ : ∃ after, inner = '[' :: after := by
      cases inner with
      | nil => exact absurd ⟨[], by simp⟩ hlong
      | cons c after => exact ⟨after, by rw [(List.cons.inj hinner).1]⟩
    obtain ⟨blanks, blank, rfl⟩ := (List.eq_nil_or_concat blanks).resolve_left hblanks
    refine ⟨shorter ++ blanks, blank, after, tag, by simp, hall blank (by simp), hne, hclosed, ?_⟩
    exact (List.cons.inj hinner).2.symm
  · rintro ⟨before, blank, after, tag, rfl, hblank, hne, hclosed, hrest⟩
    have hbefore : before ≠ [] := by
      rintro rfl
      have hstart := h.1 blank rfl
      rw [hblank] at hstart
      cases hstart
    have htag : IsTag (blank :: '[' :: after ++ rest) tag := by
      refine ⟨⟨[blank], by simp, by simpa using hblank, ?_⟩, hne, hclosed⟩
      simp [hrest]
    refine ⟨before, blank :: '[' :: after, rfl, hbefore, by simp, ?_⟩
    rw [htag.tag?]
    exact Option.some_ne_none tag

/-- A printed notice is given back unless a tag begins within its message. -/
theorem parse_text_iff_no_earlier {n : PrintedNotice} (h : n.IsPrintable)
    (hsubtype : ']' ∉ subtype n.severity) :
    parse n.text = .ok n ↔ ¬∃ shorter more, n.message = shorter ++ more ∧ shorter ≠ [] ∧
      more ≠ [] ∧ tag? (more ++ tagText n) ≠ none := by
  have hrest : tagText n = [] ∧ subtype n.severity = [] ∨
      tag? (tagText n) = some (subtype n.severity) := by
    by_cases hs : subtype n.severity = []
    · exact .inl ⟨if_pos hs, hs⟩
    · rw [tagText, if_neg hs]
      exact .inr (isTag_brackets hs hsubtype).tag?
  constructor
  · rintro hparse ⟨shorter, more, hmessage, hshorter, hmore, htag⟩
    obtain ⟨message, tag, hsplit, hstart⟩ := exists_splitTag?_append h.message h.oneRow hrest
    rw [parse_text_of_splitTag? h hsplit] at hparse
    have htrim : message.trim = n.message := congrArg PrintedNotice.message (Except.ok.inj hparse)
    have hlength : n.message.length ≤ message.length := htrim ▸ message.length_trim_le
    obtain rfl := hstart.eq_of_length_le hlength
    obtain ⟨rest, hsame, hearlier⟩ := tag?_of_splitTag? hsplit
    rw [List.append_cancel_left hsame] at htag
    exact htag (hearlier shorter more hmessage hshorter hmore)
  · intro hearlier
    have hsplit : splitTag? (n.message ++ tagText n) = some (n.message, subtype n.severity) := by
      refine splitTag?_of_no_earlier h.message h.oneRow hrest fun shorter more hm hs hmore => ?_
      by_contra htag
      exact hearlier ⟨shorter, more, hm, hs, hmore, htag⟩
    rw [parse_text_of_splitTag? h hsplit, retag_subtype, Text.trim_eq_self h.trimmed]

/--
A printed notice is read back exactly when its message cannot be cut short. With a tag behind it,
every bracket behind a blank has to be closed in the message; without one, the message must not end
in what looks like a tag.
-/
theorem parse_text_eq_iff {n : PrintedNotice} (h : n.IsPrintable) :
    (∀ tag, n.severity = .error tag → tag ≠ [] → ']' ∉ tag →
      (parse n.text = .ok n ↔ ∀ before blank after, n.message = before ++ blank :: '[' :: after →
        isBlank blank = true → ']' ∈ after)) ∧
    (n.severity ∈ [.error [], .note, .warning] →
      (parse n.text = .ok n ↔ ¬∃ before blank tag,
        n.message = before ++ blank :: '[' :: (tag ++ [']']) ∧ isBlank blank = true ∧
          tag ≠ [] ∧ ']' ∉ tag)) := by
  constructor
  · intro tag hseverity hne hclosed
    have hsubtype : subtype n.severity = tag := by rw [hseverity]; rfl
    rw [parse_text_iff_no_earlier h (hsubtype ▸ hclosed), exists_tag?_iff h.trimmed, tagText,
      hsubtype, if_neg hne]
    constructor
    · intro hnone before blank after hmessage hblank
      by_contra hopen
      refine hnone
        ⟨before, blank, after, after ++ "  [".toList ++ tag, hmessage, hblank, ?_, ?_, ?_⟩
      · simp
      · simp [hopen, hclosed]
      · simp
    · rintro hall ⟨before, blank, after, other, hmessage, hblank, -, hother, hrest⟩
      have hafter : (after ++ ("  [".toList ++ tag)) ++ [']'] = other ++ [']'] := by
        rw [← hrest]
        simp
      rw [← List.append_cancel_right hafter] at hother
      exact hother (List.mem_append_left _ (hall before blank after hmessage hblank))
  · intro hseverity
    have hsubtype : subtype n.severity = [] := by
      simp only [List.mem_cons, List.not_mem_nil, or_false] at hseverity
      rcases hseverity with hs | hs | hs <;> rw [hs] <;> rfl
    rw [parse_text_iff_no_earlier h (by simp [hsubtype]), exists_tag?_iff h.trimmed, tagText,
      hsubtype, if_pos rfl]
    refine not_congr ⟨?_, ?_⟩
    · rintro ⟨before, blank, after, tag, hmessage, hblank, hne, hclosed, hrest⟩
      rw [List.append_nil] at hrest
      exact ⟨before, blank, tag, hrest ▸ hmessage, hblank, hne, hclosed⟩
    · rintro ⟨before, blank, tag, hmessage, hblank, hne, hclosed⟩
      exact ⟨before, blank, tag ++ [']'], tag, hmessage, hblank, hne, hclosed, List.append_nil _⟩

/-- A closed bracket, one that takes the tag with it, and one that is taken for a tag. -/
theorem parse_text_eq_iff_brackets :
    let printed (severity : Severity) (message : Text) : PrintedNotice :=
      ⟨⟨"a b.py".toList⟩, 3, some 7, severity, message⟩
    let closed := printed (.error "call-arg".toList) "got [x] y".toList
    let opened := printed (.error "call-arg".toList) "got [x".toList
    let ending := printed .note "got [x]".toList
    (∀ n ∈ [closed, opened, ending], n.IsPrintable) ∧ parse closed.text = .ok closed ∧
      parse opened.text ≠ .ok opened ∧ parse ending.text ≠ .ok ending := by
  intro printed closed opened ending
  have hprinted : ∀ (severity : Severity) (message : Text) (last : Char),
      message.head? = some 'g' → message.getLast? = some last → isBlank last = false →
      '\n' ∉ message → (printed severity message).IsPrintable := by
    intro severity message last hhead hlast hblank hrow
    have hspelling : "a b.py".toList ≠ [] ∧ ':' ∉ "a b.py".toList := by decide
    have hline : 3 < Notice.numberLimit := by decide
    refine ⟨hspelling.1, ?_, hspelling.2, hline, ?_, ?_, ⟨?_, ?_⟩, hrow⟩
    · intro c hc
      obtain rfl : 'a' = c := Option.some.inj hc
      decide
    · intro c hc
      obtain rfl : 7 = c := Option.some.inj hc
      decide
    · intro hnil
      rw [show message = [] from hnil] at hhead
      cases hhead
    · intro c hc
      rw [show message.head? = some 'g' from hhead] at hc
      obtain rfl : 'g' = c := Option.some.inj hc
      decide
    · intro c hc
      rw [show message.getLast? = some last from hlast] at hc
      obtain rfl : last = c := Option.some.inj hc
      exact hblank
  have hclosed : closed.IsPrintable := hprinted _ _ 'y' rfl rfl rfl (by decide)
  have hopened : opened.IsPrintable := hprinted _ _ 'x' rfl rfl rfl (by decide)
  have hending : ending.IsPrintable := hprinted _ _ ']' rfl rfl rfl (by decide)
  refine ⟨by simp [hclosed, hopened, hending], ?_, ?_, ?_⟩
  · apply ((parse_text_eq_iff hclosed).1 _ rfl (by decide) (by decide)).mpr
    intro before blank after hsplit _
    have hall : ∀ k < 9, closed.message[k + 1]? = some '[' → ']' ∈ closed.message.drop (k + 2) := by
      decide
    have hlength : closed.message.length = 9 := rfl
    have hk : before.length < 9 := by
      rw [hsplit] at hlength
      simp only [List.length_append, List.length_cons] at hlength
      omega
    have hbracket := hall before.length hk (by rw [hsplit]; simp)
    rw [hsplit] at hbracket
    simpa using hbracket
  · rw [Ne, (parse_text_eq_iff hopened).1 _ rfl (by decide) (by decide)]
    intro hall
    exact absurd (hall "got".toList ' ' ['x'] rfl rfl) (by decide)
  · rw [Ne, (parse_text_eq_iff hending).2 (by decide), not_not]
    exact ⟨"got".toList, ' ', ['x'], rfl, rfl, by decide, by decide⟩

end NoticeCheck.PrintedNotice
