import NoticeCheck.Proofs.Linewise
import NoticeCheck.Proofs.Text
import NoticeCheck.Transcript

/-!
Noise in what a checker prints. Blank lines and debug lines may come anywhere and a summary after
the last notice: the lines that print notices are found among them, however lines are ended.
-/
namespace NoticeCheck

namespace Text

/-- Lines as a stream: each is ended, with or without a carriage return, but perhaps the last. -/
inductive Streams : (lines : List Text) → (stream : Text) → Prop
  | nil : Streams [] []
  | unended (line : Text) : Streams [line] line
  | feed {lines stream} (line : Text) (h : Streams lines stream) :
    Streams (line :: lines) (line ++ '\n' :: stream)
  | returnFeed {lines stream} (line : Text) (h : Streams lines stream) :
    Streams (line :: lines) (line ++ '\r' :: '\n' :: stream)

theorem dropReturn_concat (line : Text) : dropReturn (line ++ ['\r']) = line := by
  rw [dropReturn, List.getLast?_concat, if_pos rfl, List.dropLast_concat]

theorem dropReturn_isPrefix (line : Text) : dropReturn line <+: line := by
  rw [dropReturn]
  split
  · exact List.dropLast_prefix line
  · exact List.prefix_rfl

/-- A beginning that does not end in a carriage return is still there without one at the end. -/
theorem prefix_dropReturn {start line : Text} (hstart : start.getLast? ≠ some '\r')
    (h : start <+: line) : start <+: dropReturn line := by
  obtain ⟨rest, rfl⟩ := h
  by_cases hrest : rest = []
  · have hself : dropReturn (start ++ rest) = start := by
      rw [hrest, List.append_nil, dropReturn_eq_self hstart]
    exact hself.symm ▸ List.prefix_rfl
  · rw [dropReturn]
    split
    · rw [List.dropLast_append_of_ne_nil hrest]
      exact List.prefix_append _ _
    · exact List.prefix_append _ _

/-- A line as it is read: perhaps without a carriage return at its end. -/
def ReadsAs (line row : Text) : Prop :=
  row = line ∨ row = dropReturn line

/-- All lines of a stream are read, but for an empty one that is not ended. -/
theorem exists_readsAs_of_streams {lines : List Text} {stream : Text} (h : Streams lines stream)
    (hlines : ∀ line ∈ lines, '\n' ∉ line) :
    ∃ last, (last = [] ∨ last = [[]]) ∧
      List.Forall₂ ReadsAs lines (streamLines stream ++ last) := by
  induction h with
  | nil => exact ⟨[], .inl rfl, .nil⟩
  | unended line =>
    have hrows : rows line = [line] := cut_of_not_mem (hlines line List.mem_cons_self)
    have hstream : streamLines line = if line = [] then [] else [line] := by
      rw [streamLines, hrows]
      rfl
    rw [hstream]
    by_cases hempty : line = []
    · rw [if_pos hempty]
      exact ⟨[[]], .inr rfl, .cons (.inl hempty.symm) .nil⟩
    · rw [if_neg hempty]
      exact ⟨[], .inl rfl, .cons (.inl rfl) .nil⟩
  | feed line h ih =>
    obtain ⟨last, hlast, hread⟩ := ih fun l hl => hlines l (List.mem_cons_of_mem _ hl)
    rw [streamLines_append_cons (hlines line List.mem_cons_self)]
    exact ⟨last, hlast, .cons (.inr rfl) hread⟩
  | @returnFeed lines stream line h ih =>
    obtain ⟨last, hlast, hread⟩ := ih fun l hl => hlines l (List.mem_cons_of_mem _ hl)
    have hreturned : '\n' ∉ line ++ ['\r'] := by
      simpa using hlines line List.mem_cons_self
    have hstream : line ++ '\r' :: '\n' :: stream = (line ++ ['\r']) ++ '\n' :: stream := by simp
    rw [hstream, streamLines_append_cons hreturned, dropReturn_concat]
    exact ⟨last, hlast, .cons (.inl rfl) hread⟩

end Text

namespace Transcript

/-- A line that says nothing about notices: blank, or for debugging. -/
def IsNoise (line : Text) : Prop :=
  (∀ c ∈ line, isBlank c = true) ∨ ":debug:".toList <+: line

def IsSummary (line : Text) : Prop :=
  "Found ".toList <+: line ∨ "Success: no issues".toList <+: line

/-- A line of its own that is no noise. -/
structure IsContent (line : Text) : Prop where
  visible : ∃ c ∈ line, isBlank c = false
  serious : ¬":debug:".toList <+: line
  oneRow : '\n' ∉ line
  unreturned : line.getLast? ≠ some '\r'

/-- A run that has to print `lines`: noise comes anywhere, one summary after the last of them. -/
inductive Prints : (lines printed : List Text) → Prop
  | done : Prints [] []
  | line {lines printed} (line : Text) (h : Prints lines printed) :
    Prints (line :: lines) (line :: printed)
  | noise {lines printed} {line : Text} (hline : IsNoise line) (h : Prints lines printed) :
    Prints lines (line :: printed)
  | summary {line : Text} (hline : IsSummary line) {noise : List Text}
    (hnoise : ∀ line ∈ noise, IsNoise line) : Prints [] (line :: noise)

/-- What a run that has to print `lines` may write in all. -/
def IsOutput (lines : List Text) (stdout : Text) : Prop :=
  ∃ printed, Prints lines printed ∧ (∀ line ∈ printed, '\n' ∉ line) ∧
    Text.Streams printed stdout

theorem isSummary_iff {line : Text} : isSummary line = true ↔ IsSummary line := by
  rw [isSummary, Bool.or_eq_true, Text.startsWith_iff_isPrefixOf, Text.startsWith_iff_isPrefixOf]
  rfl

/-- Lines that are kept when a transcript is read. -/
def isKept (line : Text) : Bool :=
  !line.isVoid && !line.startsWith ":debug:".toList

theorem isKept_eq_false_iff {line : Text} : isKept line = false ↔ IsNoise line := by
  rw [isKept, Bool.and_eq_false_iff, Bool.not_eq_false', Bool.not_eq_false',
    Text.startsWith_iff_isPrefixOf, Text.isVoid, List.all_eq_true]
  rfl

theorem isKept_iff {line : Text} : isKept line = true ↔ ¬IsNoise line := by
  rw [← isKept_eq_false_iff, Bool.not_eq_false]

theorem IsContent.isKept {line : Text} (h : IsContent line) : isKept line = true := by
  rw [isKept_iff]
  rintro (hblank | hdebug)
  · obtain ⟨c, hc, hvisible⟩ := h.visible
    rw [hblank c hc] at hvisible
    cases hvisible
  · exact h.serious hdebug

theorem IsSummary.isKept {line : Text} (h : IsSummary line) : isKept line = true := by
  obtain ⟨c, rest, rfl, hc, hdebug⟩ : ∃ c rest, line = c :: rest ∧ isBlank c = false ∧ c ≠ ':' := by
    rcases h with ⟨rest, rfl⟩ | ⟨rest, rfl⟩ <;> exact ⟨_, _, rfl, by decide, by decide⟩
  rw [isKept_iff]
  rintro (hblank | ⟨more, hmore⟩)
  · rw [hblank c List.mem_cons_self] at hc
    cases hc
  · exact hdebug (List.cons.inj hmore).1.symm

theorem IsNoise.dropReturn {line : Text} (h : IsNoise line) : IsNoise line.dropReturn := by
  rcases h with hblank | hdebug
  · exact .inl fun c hc => hblank c (line.dropReturn_isPrefix.mem hc)
  · exact .inr (Text.prefix_dropReturn (by decide) hdebug)

theorem IsSummary.dropReturn {line : Text} (h : IsSummary line) : IsSummary line.dropReturn := by
  rcases h with hfound | hsuccess
  · exact .inl (Text.prefix_dropReturn (by decide) hfound)
  · exact .inr (Text.prefix_dropReturn (by decide) hsuccess)

theorem IsNoise.of_readsAs {line row : Text} (h : IsNoise line) (hread : line.ReadsAs row) :
    IsNoise row := by
  rcases hread with rfl | rfl
  · exact h
  · exact h.dropReturn

/-- What is read is printed by the same run, since only noise can lose a carriage return. -/
theorem Prints.of_readsAs {lines printed rows : List Text} (h : Prints lines printed)
    (hlines : ∀ line ∈ lines, IsContent line) (hread : List.Forall₂ Text.ReadsAs printed rows) :
    Prints lines rows := by
  induction h generalizing rows with
  | done =>
    cases hread
    exact .done
  | line line h ih =>
    obtain ⟨row, rest, hrow, hrest, rfl⟩ := List.forall₂_cons_left_iff.mp hread
    have hcontent := hlines line List.mem_cons_self
    obtain rfl : row = line := by
      rcases hrow with hrow | hrow
      · exact hrow
      · exact hrow.trans (Text.dropReturn_eq_self hcontent.unreturned)
    exact .line row (ih (fun l hl => hlines l (List.mem_cons_of_mem _ hl)) hrest)
  | noise hline h ih =>
    obtain ⟨row, rest, hrow, hrest, rfl⟩ := List.forall₂_cons_left_iff.mp hread
    exact .noise (hline.of_readsAs hrow) (ih hlines hrest)
  | summary hline hnoise =>
    obtain ⟨row, rest, hrow, hrest, rfl⟩ := List.forall₂_cons_left_iff.mp hread
    refine .summary ?_ fun l hl => ?_
    · rcases hrow with rfl | rfl
      · exact hline
      · exact hline.dropReturn
    · obtain ⟨l', hl', hread'⟩ := exists_mem_of_forall₂ hrest.flip hl
      exact (hnoise l' hl').of_readsAs hread'

/-- Without the noise there are the lines, and perhaps a summary behind them. -/
theorem Prints.filter_isKept {lines printed : List Text} (h : Prints lines printed)
    (hlines : ∀ line ∈ lines, IsContent line) :
    printed.filter Transcript.isKept = lines ∨
      ∃ summary, IsSummary summary ∧ printed.filter Transcript.isKept = lines ++ [summary] := by
  induction h with
  | done => exact .inl rfl
  | line line h ih =>
    rw [List.filter_cons_of_pos (hlines line List.mem_cons_self).isKept]
    refine (ih fun l hl => hlines l (List.mem_cons_of_mem _ hl)).imp ?_ ?_
    · exact congrArg (line :: ·)
    · rintro ⟨summary, hsummary, hrest⟩
      exact ⟨summary, hsummary, congrArg (line :: ·) hrest⟩
  | noise hline h ih =>
    rw [List.filter_cons_of_neg (by rw [isKept_eq_false_iff.mpr hline]; exact Bool.false_ne_true)]
    exact ih hlines
  | @summary line hline noise hnoise =>
    have hrest : noise.filter Transcript.isKept = [] := by
      refine List.filter_eq_nil_iff.mpr fun l hl => ?_
      rw [isKept_eq_false_iff.mpr (hnoise l hl)]
      exact Bool.false_ne_true
    rw [List.filter_cons_of_pos hline.isKept, hrest]
    exact .inr ⟨line, hline, rfl⟩

theorem noticeLines_of_isOutput {lines : List Text} {stdout : Text}
    (hlines : ∀ line ∈ lines, IsContent line) (hlast : ∀ line ∈ lines.getLast?, ¬IsSummary line)
    (h : IsOutput lines stdout) : noticeLines stdout = lines := by
  obtain ⟨printed, hprints, hrows, hstream⟩ := h
  obtain ⟨last, hlast', hread⟩ := Text.exists_readsAs_of_streams hstream hrows
  have hkept : (stdout.streamLines ++ last).filter isKept = stdout.streamLines.filter isKept := by
    rcases hlast' with rfl | rfl <;> simp [isKept, Text.isVoid]
  have hfilter := (hprints.of_readsAs hlines hread).filter_isKept hlines
  rw [hkept] at hfilter
  change (if (stdout.streamLines.filter isKept).getLast?.any isSummary then
    (stdout.streamLines.filter isKept).dropLast else stdout.streamLines.filter isKept) = lines
  rcases hfilter with heq | ⟨summary, hsummary, heq⟩
  · rw [heq, if_neg]
    intro hany
    cases hline : lines.getLast? with
    | none =>
      rw [hline] at hany
      cases hany
    | some line =>
      rw [hline] at hany
      exact hlast line hline (isSummary_iff.mp hany)
  · have hany : (lines ++ [summary]).getLast?.any isSummary = true := by
      rw [List.getLast?_concat]
      exact isSummary_iff.mpr hsummary
    rw [heq, if_pos hany, List.dropLast_concat]

end Transcript

/--
Whatever noise a run writes between its lines, and whether or not it writes a summary behind them,
its lines are those that print notices. So a check comes to the same for all that the run may write.
-/
theorem noticeLines_noisy {lines : List Text} {stdout : Text}
    (hlines : ∀ line ∈ lines, Transcript.IsContent line)
    (hlast : ∀ line ∈ lines.getLast?, ¬Transcript.IsSummary line)
    (h : Transcript.IsOutput lines stdout) :
    Transcript.noticeLines stdout = lines ∧
      ∀ stdout', Transcript.IsOutput lines stdout' → ∀ expected normaliser root,
        checkTranscript expected stdout' normaliser root =
          checkTranscript expected stdout normaliser root := by
  have hread : ∀ {stdout}, Transcript.IsOutput lines stdout →
      Transcript.noticeLines stdout = lines :=
    Transcript.noticeLines_of_isOutput hlines hlast
  refine ⟨hread h, fun stdout' h' expected normaliser root => ?_⟩
  rw [checkTranscript, checkTranscript, hread h', hread h]

/-- A line that looks like a summary stays, as it is not the last; debug lines surround the rest. -/
theorem noticeLines_noisy_summary :
    let first := "Found m.py:1: note: a".toList
    let second := "m.py:2: error: b  [c]".toList
    let stdout :=
      ":debug: on\nFound m.py:1: note: a\r\n \t\r\nm.py:2: error: b  [c]\nFound 2\r\n:debug:"
    let plain := "Found m.py:1: note: a\nm.py:2: error: b  [c]\n"
    Transcript.noticeLines stdout.toList = [first, second] ∧
      ∀ expected normaliser root, checkTranscript expected plain.toList normaliser root =
        checkTranscript expected stdout.toList normaliser root := by
  intro first second stdout plain
  have hlines : ∀ line ∈ [first, second], Transcript.IsContent line := by
    intro line hline
    rcases List.mem_pair.mp hline with rfl | rfl
    · exact ⟨⟨'F', by decide, by decide⟩, by decide, by decide, by decide⟩
    · exact ⟨⟨'m', by decide, by decide⟩, by decide, by decide, by decide⟩
  have hlast : ∀ line ∈ [first, second].getLast?, ¬Transcript.IsSummary line := by
    intro line hline
    obtain rfl : second = line := Option.some.inj hline
    unfold Transcript.IsSummary
    decide
  have hblank : Transcript.IsNoise " \t".toList :=
    .inl (List.all_eq_true.mp (by decide : " \t".toList.all isBlank = true))
  have hnoisy : Transcript.IsOutput [first, second] stdout.toList := by
    refine ⟨[":debug: on".toList, first, " \t".toList, second, "Found 2".toList, ":debug:".toList],
      ?_, by decide, ?_⟩
    · refine .noise (.inr (by decide)) (.line first (.noise hblank (.line second ?_)))
      refine .summary (.inl (by decide)) fun line hline => ?_
      rw [List.mem_singleton.mp hline]
      exact .inr (by decide)
    · have hstream := Text.Streams.feed ":debug: on".toList (.returnFeed first
        (.returnFeed " \t".toList (.feed second
          (.returnFeed "Found 2".toList (.unended ":debug:".toList)))))
      convert hstream using 1
      decide
  have hplain : Transcript.IsOutput [first, second] plain.toList := by
    refine ⟨[first, second], .line first (.line second .done), by decide, ?_⟩
    have hstream := Text.Streams.feed first (.feed second .nil)
    convert hstream using 1
    decide
  obtain ⟨hread, hsame⟩ := noticeLines_noisy hlines hlast hnoisy
  exact ⟨hread, hsame plain.toList hplain⟩

end NoticeCheck
