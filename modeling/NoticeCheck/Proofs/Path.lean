import NoticeCheck.Path
import NoticeCheck.Proofs.Text

/-!
How paths are spelled, and what is shown of a path under a root: what is spelled above the root is
left out, what is spelled below it is shown as it is.
-/
namespace NoticeCheck.Path

/-- A spelling that begins with a segment other than `.`, and so has no mark. -/
def BeginsName (spelling : Text) : Prop :=
  ∃ c rest, spelling = c :: rest ∧ c ≠ '/' ∧ (c = '.' → ∃ d more, rest = d :: more ∧ d ≠ '/')

theorem spelling_cases (spelling : Text) : spelling = [] ∨ (∃ rest, spelling = '/' :: rest) ∨
    spelling = ['.'] ∨ (∃ rest, spelling = '.' :: '/' :: rest) ∨ BeginsName spelling := by
  cases spelling with
  | nil => exact .inl rfl
  | cons c rest =>
    by_cases hslash : c = '/'
    · exact .inr (.inl ⟨rest, by rw [hslash]⟩)
    by_cases hdot : c = '.'
    · cases rest with
      | nil => exact .inr (.inr (.inl (by rw [hdot])))
      | cons d more =>
        by_cases hd : d = '/'
        · exact .inr (.inr (.inr (.inl ⟨more, by rw [hdot, hd]⟩)))
        · exact .inr (.inr (.inr (.inr ⟨c, d :: more, rfl, hslash, fun _ => ⟨d, more, rfl, hd⟩⟩)))
    · exact .inr (.inr (.inr (.inr ⟨c, rest, rfl, hslash, fun h => absurd h hdot⟩)))

theorem BeginsName.append {spelling : Text} (h : BeginsName spelling) (more : Text) :
    BeginsName (spelling ++ more) := by
  obtain ⟨c, rest, rfl, hslash, hdot⟩ := h
  refine ⟨c, rest ++ more, rfl, hslash, fun hc => ?_⟩
  obtain ⟨d, text, rfl, hd⟩ := hdot hc
  exact ⟨d, text ++ more, rfl, hd⟩

theorem BeginsName.anchor {spelling : Text} (h : BeginsName spelling) :
    anchor ⟨spelling⟩ = (none, spelling) := by
  obtain ⟨c, rest, rfl, hslash, hdot⟩ := h
  rw [Path.anchor]
  split
  · next h => exact absurd (List.cons.inj h).1 hslash
  · next h =>
    obtain ⟨d, more, rfl, -⟩ := hdot (List.cons.inj h).1
    cases h
  · next h =>
    obtain ⟨d, more, rfl, hd⟩ := hdot (List.cons.inj h).1
    exact absurd (List.cons.inj (List.cons.inj h).2).1 hd
  · rfl

theorem BeginsName.exists_cut {spelling : Text} (h : BeginsName spelling) :
    ∃ first more, Text.cut '/' spelling = first :: more ∧ isIdle first = false := by
  obtain ⟨c, rest, rfl, hslash, hdot⟩ := h
  obtain ⟨piece, more, hcut⟩ := List.exists_cons_of_ne_nil (Text.cut_ne_nil '/' rest)
  refine ⟨c :: piece, more, by rw [Text.cut, if_neg hslash, hcut], ?_⟩
  by_contra hidle
  obtain ⟨rfl, rfl⟩ : c = '.' ∧ piece = [] := by simpa [isIdle] using hidle
  obtain ⟨d, text, rfl, hd⟩ := hdot rfl
  rw [Text.cut, if_neg hd] at hcut
  split at hcut <;> cases hcut

/-- The mark of a path stays when text is put behind it that does not change its last segment. -/
theorem anchor_append {above : Path} {more : Text} (hne : above.spelling ≠ [])
    (hmore : above.spelling.getLast? = some '/' ∨ more.head? = some '/') :
    anchor ⟨above.spelling ++ more⟩ = (above.anchor.1, above.anchor.2 ++ more) := by
  obtain ⟨spelling⟩ := above
  rcases spelling_cases spelling with rfl | ⟨rest, rfl⟩ | rfl | ⟨rest, rfl⟩ | hname
  · exact absurd rfl hne
  · rfl
  · obtain ⟨text, rfl⟩ := List.head?_eq_some_iff.mp (hmore.resolve_left (by decide))
    rfl
  · rfl
  · rw [hname.anchor]
    exact (hname.append more).anchor

/-- A relative path put below another one adds its own segments to steps of that one. -/
theorem exists_segments_join {above below : Path} (habove : above.spelling ≠ [])
    (hbelow : below.isAbsolute = false) : ∃ segments,
      (above.join below).anchor.1 = above.anchor.1 ∧
        (above.join below).segments = segments ++ below.spelling.cut '/' ∧
          segments.filterMap partOf? = above.segments.filterMap partOf? := by
  rw [join, if_neg (by simp [hbelow])]
  by_cases hslash : above.spelling.getLast? = some '/'
  · rw [if_pos (.inr hslash), segments, anchor_append habove (.inl hslash)]
    -- the slash at the end of `above` is taken up by the path put behind it
    rcases List.eq_nil_or_concat above.anchor.2 with hnil | ⟨rest, c, hrest⟩
    · refine ⟨[], rfl, by rw [hnil]; rfl, by rw [segments, hnil]; rfl⟩
    · obtain ⟨mark, hmark⟩ := anchor_suffix above
      obtain rfl : c = '/' := by
        rw [← hmark, hrest, List.concat_eq_append, ← List.append_assoc, List.getLast?_concat]
          at hslash
        exact Option.some.inj hslash
      rw [List.concat_eq_append] at hrest
      refine ⟨Text.cut '/' rest, rfl, ?_, ?_⟩
      · change Text.cut '/' (above.anchor.2 ++ below.spelling) = _
        rw [hrest, List.append_assoc]
        exact Text.cut_append_sep '/' _ _
      · rw [segments, hrest, Text.cut_append_sep, List.filterMap_append]
        exact (List.append_nil _).symm
  · rw [if_neg (not_or.mpr ⟨habove, hslash⟩), segments, anchor_append habove (.inr rfl)]
    exact ⟨above.segments, rfl, Text.cut_append_sep '/' _ _, rfl⟩

theorem partOf?_eq_none_iff {segment : Text} : partOf? segment = none ↔ isIdle segment = true := by
  rw [partOf?]
  split
  · next h => simp [h]
  · next h => split <;> simp [h]

theorem not_isIdle_of_partOf? {segment : Text} {part : Part} (h : partOf? segment = some part) :
    ¬isIdle segment = true := fun hidle => by
  rw [partOf?_eq_none_iff.mpr hidle] at h
  cases h

theorem dropSteps_zero (segments : List Text) : dropSteps 0 segments = segments := by
  cases segments <;> rfl

/-- Dropping as many steps as the first segments have leaves the others. -/
theorem dropWhile_dropSteps_append (first second : List Text) :
    (dropSteps (first.filterMap partOf?).length (first ++ second)).dropWhile isIdle =
      second.dropWhile isIdle := by
  induction first with
  | nil => cases second <;> rfl
  | cons segment first ih =>
    cases hpart : partOf? segment with
    | none =>
      have hidle := partOf?_eq_none_iff.mp hpart
      rw [List.filterMap_cons_none hpart, List.cons_append, ← ih]
      cases (first.filterMap partOf?).length with
      | zero => rw [dropSteps_zero, dropSteps_zero, List.dropWhile_cons_of_pos hidle]
      | succ n => rw [dropSteps, if_pos hidle]
    | some part =>
      rw [List.filterMap_cons_some hpart, List.cons_append, List.length_cons, dropSteps,
        if_neg (not_isIdle_of_partOf? hpart), ih]

/-- What is left below the root is spelled as it was put there. -/
theorem below?_join {root above below : Path} (habove : above.parts = root.parts)
    (hroot : root.parts ≠ []) (hbelow : below.isAbsolute = false) :
    below? root (above.join below) = some ⟨Text.glue '/'
      (dropTrailingIdle ((below.spelling.cut '/').dropWhile isIdle))⟩ := by
  have hspelling : above.spelling ≠ [] := fun h =>
    hroot (by rw [← habove, parts, segments, anchor, h]; rfl)
  obtain ⟨segments, hanchor, hsegments, hsteps⟩ := exists_segments_join hspelling hbelow
  have hparts : (above.join below).parts =
      root.parts ++ (below.spelling.cut '/').filterMap partOf? := by
    rw [parts, hanchor, hsegments, List.filterMap_append, hsteps, ← List.append_assoc, ← habove,
      parts]
  have hlength : root.parts.length - (above.join below).anchor.1.toList.length =
      (segments.filterMap partOf?).length := by
    rw [← habove, parts, hanchor, hsteps, List.length_append, Nat.add_sub_cancel_left]
  rw [below?, if_neg hroot, if_pos (List.isPrefixOf_iff_prefix.mpr ⟨_, hparts.symm⟩)]
  dsimp only
  rw [hlength, hsegments, dropWhile_dropSteps_append]

/-- Only the empty text spells a path without parts. -/
theorem spelling_eq_nil_of_parts {p : Path} (h : p.parts = []) : p.spelling = [] := by
  obtain ⟨spelling⟩ := p
  obtain ⟨hanchor, hsegments⟩ := List.append_eq_nil_iff.mp h
  rcases spelling_cases spelling with rfl | ⟨rest, rfl⟩ | rfl | ⟨rest, rfl⟩ | hname
  · rfl
  · cases hanchor
  · cases hanchor
  · cases hanchor
  · obtain ⟨first, more, hcut, hidle⟩ := hname.exists_cut
    rw [segments, hname.anchor, hcut] at hsegments
    have hnone := List.filterMap_eq_nil_iff.mp hsegments first List.mem_cons_self
    rw [partOf?_eq_none_iff, hidle] at hnone
    cases hnone

/-- How the path up to the root is spelled is not shown. -/
theorem shown_join_congr {root above above' : Path} (h : above.parts = root.parts)
    (h' : above'.parts = root.parts) (below : Path) :
    root.shown (above.join below) = root.shown (above'.join below) := by
  cases hbelow : below.isAbsolute with
  | true => rw [join, join, if_pos hbelow, if_pos hbelow]
  | false =>
    by_cases hroot : root.parts = []
    · have hempty : ∀ p : Path, p.parts = root.parts → p = ⟨[]⟩ := fun p hp => by
        cases p
        exact congrArg mk (spelling_eq_nil_of_parts (hp.trans hroot))
      rw [hempty above h, hempty above' h']
    · rw [shown, shown, below?_join h hroot hbelow, below?_join h' hroot hbelow, Option.getD_some,
        Option.getD_some]

theorem prefix_dropTrailingIdle (segments : List Text) :
    dropTrailingIdle segments <+: segments :=
  List.rdropWhile_prefix isIdle segments

theorem dropSteps_sublist (n : Nat) (segments : List Text) :
    (dropSteps n segments).Sublist segments := by
  induction segments generalizing n with
  | nil => exact .slnil
  | cons segment segments ih =>
    cases n with
    | zero => exact .refl _
    | succ n =>
      rw [dropSteps]
      split
      · exact (ih (n + 1)).cons segment
      · exact (ih n).cons segment

/-- A shown path is made of characters of the path, of slashes and of dots. -/
theorem mem_spelling_of_mem_shown {root p : Path} {c : Char} (hslash : c ≠ '/') (hdot : c ≠ '.')
    (h : c ∈ root.shown p) : c ∈ p.spelling := by
  have hsegments : ∀ {segments : List Text}, segments.Sublist p.segments →
      c ∈ Text.glue '/' segments → c ∈ p.spelling := by
    intro segments hsub hc
    obtain ⟨segment, hsegment, hc⟩ := (Text.mem_glue_iff hslash).mp hc
    refine p.anchor_suffix.mem ?_
    rw [← Text.glue_cut '/' p.anchor.2]
    exact (Text.mem_glue_iff hslash).mpr ⟨segment, hsub.mem hsegment, hc⟩
  have hanchor : c ∉ p.anchorText := by
    rw [anchorText]
    split <;> simp [hslash, hdot]
  unfold shown below? at h
  split at h
  · rcases List.mem_append.mp h with hc | hc
    · exact absurd hc hanchor
    · exact hsegments (prefix_dropTrailingIdle _).sublist hc
  · split at h
    · refine hsegments ?_ h
      exact (prefix_dropTrailingIdle _).sublist.trans
        ((List.dropWhile_sublist _).trans (dropSteps_sublist _ _))
    · exact h

theorem filterMap_partOf?_dropWhile (segments : List Text) :
    (segments.dropWhile isIdle).filterMap partOf? = segments.filterMap partOf? := by
  induction segments with
  | nil => rfl
  | cons segment segments ih =>
    cases h : isIdle segment with
    | true =>
      rw [List.dropWhile_cons_of_pos h, List.filterMap_cons_none (partOf?_eq_none_iff.mpr h), ih]
    | false => rw [List.dropWhile_cons_of_neg (by simp [h])]

theorem filterMap_partOf?_dropTrailingIdle (segments : List Text) :
    (dropTrailingIdle segments).filterMap partOf? = segments.filterMap partOf? := by
  rw [dropTrailingIdle, List.filterMap_reverse, filterMap_partOf?_dropWhile,
    ← List.filterMap_reverse, List.reverse_reverse]

/-- Dropping steps drops their parts. -/
theorem filterMap_partOf?_dropSteps (n : Nat) (segments : List Text) :
    (dropSteps n segments).filterMap partOf? = (segments.filterMap partOf?).drop n := by
  induction segments generalizing n with
  | nil => simp [dropSteps]
  | cons segment segments ih =>
    cases n with
    | zero => rw [dropSteps_zero, List.drop_zero]
    | succ n =>
      rw [dropSteps]
      cases hpart : partOf? segment with
      | none =>
        rw [if_pos (partOf?_eq_none_iff.mp hpart), ih, List.filterMap_cons_none hpart]
      | some part =>
        rw [if_neg (not_isIdle_of_partOf? hpart), ih, List.filterMap_cons_some hpart,
          List.drop_succ_cons]

/-- The steps of segments are found again in the text they are glued to. -/
theorem filterMap_partOf?_cut_glue {segments : List Text} (h : ∀ segment ∈ segments, '/' ∉ segment) :
    (Text.cut '/' (Text.glue '/' segments)).filterMap partOf? = segments.filterMap partOf? := by
  by_cases hne : segments = []
  · rw [hne]
    rfl
  · rw [Text.cut_glue hne h]

theorem beginsName_of_isIdle {segment : Text} (hslash : '/' ∉ segment)
    (hidle : isIdle segment = false) : BeginsName segment := by
  cases segment with
  | nil => cases hidle
  | cons c rest =>
    refine ⟨c, rest, rfl, fun h => hslash (by simp [h]), fun hdot => ?_⟩
    cases rest with
    | nil =>
      rw [hdot] at hidle
      cases hidle
    | cons d more => exact ⟨d, more, rfl, fun h => hslash (by simp [h])⟩

/-- A path made of segments, the first of them a step, has no mark. -/
theorem parts_glue {segments : List Text} (hslash : ∀ segment ∈ segments, '/' ∉ segment)
    (hhead : ∀ segment ∈ segments.head?, isIdle segment = false) :
    parts ⟨Text.glue '/' segments⟩ = segments.filterMap partOf? := by
  cases segments with
  | nil => rfl
  | cons first more =>
    have hfirst := beginsName_of_isIdle (hslash first List.mem_cons_self) (hhead first rfl)
    have hname : BeginsName (Text.glue '/' (first :: more)) := by
      cases more with
      | nil => exact hfirst
      | cons next more => exact hfirst.append _
    rw [parts, Path.segments, hname.anchor]
    exact filterMap_partOf?_cut_glue hslash

theorem not_mem_of_mem_segments {p : Path} {segment : Text} (h : segment ∈ p.segments) :
    '/' ∉ segment :=
  Text.not_mem_of_mem_cut h

theorem head?_dropTrailingIdle {segments : List Text}
    (h : ∀ segment ∈ segments.head?, isIdle segment = false) :
    ∀ segment ∈ (dropTrailingIdle segments).head?, isIdle segment = false := by
  intro segment hsegment
  obtain ⟨rest, hrest⟩ := prefix_dropTrailingIdle segments
  apply h
  rw [← hrest, List.head?_append, Option.mem_def.mp hsegment]
  rfl

theorem parts_dot_append {t : Text} (h : t = [] ∨ ∃ more, t = '/' :: more) :
    parts ⟨'.' :: t⟩ = .here :: (Text.cut '/' t).filterMap partOf? := by
  rcases h with rfl | ⟨more, rfl⟩
  · rfl
  · rfl

/-- A path without its trailing slashes has the same parts. -/
theorem parts_dropTrailing (p : Path) :
    parts ⟨p.anchorText ++ Text.glue '/' (dropTrailingIdle p.segments)⟩ = p.parts := by
  have hslash : ∀ segment ∈ dropTrailingIdle p.segments, '/' ∉ segment := fun segment h =>
    not_mem_of_mem_segments ((prefix_dropTrailingIdle _).mem h)
  have hsteps := filterMap_partOf?_cut_glue hslash
  rw [filterMap_partOf?_dropTrailingIdle] at hsteps
  obtain ⟨spelling⟩ := p
  rcases spelling_cases spelling with rfl | ⟨rest, rfl⟩ | rfl | ⟨rest, rfl⟩ | hname
  · rfl
  · exact congrArg (Part.root :: ·) hsteps
  · rfl
  · -- what is left behind the dot is empty or begins with the slash
    have hbehind : Text.glue '/' (dropTrailingIdle (segments ⟨'.' :: '/' :: rest⟩)) = [] ∨
        ∃ more, Text.glue '/' (dropTrailingIdle (segments ⟨'.' :: '/' :: rest⟩)) =
          '/' :: more := by
      obtain ⟨idle, hidle⟩ := prefix_dropTrailingIdle (segments ⟨'.' :: '/' :: rest⟩)
      cases hleft : dropTrailingIdle (segments ⟨'.' :: '/' :: rest⟩) with
      | nil => exact .inl rfl
      | cons first more =>
        rw [hleft] at hidle
        obtain rfl : first = [] := (List.cons.inj hidle).1
        cases more with
        | nil => exact .inl rfl
        | cons next more => exact .inr ⟨_, rfl⟩
    exact (parts_dot_append hbehind).trans (congrArg (Part.here :: ·) hsteps)
  · have hanchor : anchorText ⟨spelling⟩ = [] := by rw [anchorText, hname.anchor]
    obtain ⟨first, more, hcut, hidle⟩ := hname.exists_cut
    have hsegments : segments ⟨spelling⟩ = first :: more := by rw [segments, hname.anchor, hcut]
    rw [hanchor, List.nil_append, parts_glue hslash, filterMap_partOf?_dropTrailingIdle]
    · rw [parts, hname.anchor]
      rfl
    · apply head?_dropTrailingIdle
      rw [hsegments]
      simpa using hidle

/-- A path made of what is left after some steps has the parts left after these steps. -/
theorem parts_dropSteps (n : Nat) {segments : List Text}
    (h : ∀ segment ∈ segments, '/' ∉ segment) :
    parts ⟨Text.glue '/' (dropTrailingIdle ((dropSteps n segments).dropWhile isIdle))⟩ =
      (segments.filterMap partOf?).drop n := by
  have hslash : ∀ segment ∈ dropTrailingIdle ((dropSteps n segments).dropWhile isIdle),
      '/' ∉ segment := by
    intro segment hsegment
    have hsub := (prefix_dropTrailingIdle _).sublist.trans
      ((List.dropWhile_sublist isIdle).trans (dropSteps_sublist n segments))
    exact h segment (hsub.mem hsegment)
  rw [parts_glue hslash (head?_dropTrailingIdle (Text.head?_dropWhile isIdle _)),
    filterMap_partOf?_dropTrailingIdle, filterMap_partOf?_dropWhile, filterMap_partOf?_dropSteps]

/-- What is left of a path below a root leads from the root to the path. -/
theorem parts_of_below? {root p rest : Path} (h : below? root p = some rest) :
    p.parts = root.parts ++ rest.parts := by
  unfold below? at h
  split at h
  · next hroot =>
    obtain rfl := Option.some.inj h
    rw [hroot, List.nil_append, parts_dropTrailing]
  · next hroot =>
    split at h
    · next hprefix =>
      obtain rfl := Option.some.inj h
      obtain ⟨left, hleft⟩ := List.isPrefixOf_iff_prefix.mp hprefix
      have hmark : p.anchor.1.toList.length ≤ root.parts.length := by
        have hpos := List.length_pos_iff.mpr hroot
        cases p.anchor.1 with
        | none => exact Nat.zero_le _
        | some mark => exact hpos
      have hsteps : p.parts.drop root.parts.length = (p.segments.filterMap partOf?).drop
          (root.parts.length - p.anchor.1.toList.length) := by
        have hparts : p.parts = p.anchor.1.toList ++ p.segments.filterMap partOf? := rfl
        rw [hparts, List.drop_append, List.drop_of_length_le hmark, List.nil_append]
      rw [parts_dropSteps _ fun _ => not_mem_of_mem_segments, ← hsteps, ← hleft, List.drop_left]
    · cases h

/-- `shown` leads from a root to a path, or is the path in full when it is outside. -/
structure Shows (root p : Path) (shown : Text) : Prop where
  inside : root.parts <+: p.parts → p.parts = root.parts ++ parts ⟨shown⟩
  outside : ¬root.parts <+: p.parts → shown = p.spelling

theorem below?_eq_none_iff {root p : Path} : below? root p = none ↔ ¬root.parts <+: p.parts := by
  rw [← List.isPrefixOf_iff_prefix]
  unfold below?
  split
  · next hroot => simp [hroot]
  · split <;> simp_all

theorem shows_shown (root p : Path) : root.Shows p (root.shown p) := by
  unfold shown
  cases h : below? root p with
  | none =>
    have houtside := below?_eq_none_iff.mp h
    exact ⟨fun hinside => absurd hinside houtside, fun _ => rfl⟩
  | some rest =>
    have hparts := parts_of_below? h
    exact ⟨fun _ => hparts, fun houtside => absurd ⟨_, hparts.symm⟩ houtside⟩

end NoticeCheck.Path
