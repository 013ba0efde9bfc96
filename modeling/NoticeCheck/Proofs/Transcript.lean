import NoticeCheck.Proofs.PrintedNotice
import NoticeCheck.Proofs.Recording

/-! Transcripts of printed notices. What is read back from them is what was printed. -/
namespace NoticeCheck

namespace Text

/-- A stream of lines, each ended by a line feed. -/
def ofLines (lines : List Text) : Text :=
  lines.flatMap fun line => line ++ ['\n']

theorem streamLines_ofLines {lines : List Text} (h : ∀ line ∈ lines, '\n' ∉ line)
    (hreturn : ∀ line ∈ lines, line.getLast? ≠ some '\r') :
    streamLines (ofLines lines) = lines := by
  induction lines with
  | nil => rfl
  | cons line lines ih =>
    have hstream : ofLines (line :: lines) = line ++ '\n' :: ofLines lines := by
      simp [ofLines]
    have hrest := ih (fun l hl => h l (List.mem_cons_of_mem _ hl))
      fun l hl => hreturn l (List.mem_cons_of_mem _ hl)
    rw [hstream, streamLines_append_cons (h line List.mem_cons_self),
      dropReturn_eq_self (hreturn line List.mem_cons_self), hrest]

end Text

namespace PrintedNotice

variable {n : PrintedNotice}

theorem oneRow_text (h : n.IsPlain) (hsubtype : '\n' ∉ PrintedNotice.subtype n.severity) :
    '\n' ∉ n.text := by
  have hdigits : ∀ k, '\n' ∉ Text.ofNat k := Text.not_mem_ofNat rfl
  have hpath : '\n' ∉ n.path.spelling := fun hmem =>
    absurd (h.pathChars _ hmem).2 (by decide)
  have hcolumn : '\n' ∉ columnText n := by
    cases hc : n.column <;> simp [columnText, hc, hdigits]
  have hword : '\n' ∉ severityText n.severity := notMem_severityText rfl n.severity
  have htag : '\n' ∉ tagText n := by
    rw [tagText]
    split <;> simp [hsubtype]
  simp [text, hdigits, hpath, hcolumn, hword, htag, h.oneRow]

theorem isVoid_text (h : n.IsPlain) : Text.isVoid n.text = false := by
  obtain ⟨c, path, hpath⟩ := List.exists_cons_of_ne_nil h.path
  have hc := (h.pathChars c (by simp [hpath])).2
  simp [Text.isVoid, text, hpath, hc]

private theorem span_text (h : n.IsPlain) :
    n.text.takeWhile (· != ':') = n.path.spelling ∧ ∃ c rest,
      n.text.dropWhile (· != ':') = ':' :: c :: rest ∧ c.isDigit = true := by
  have hcolon : ':' ∉ n.path.spelling := fun hmem => (h.pathChars ':' hmem).1 rfl
  obtain ⟨htake, hdrop⟩ := Text.takeWhile_dropWhile_stop hcolon (Text.ofNat n.line ++
    (columnText n ++ (": ".toList ++
      (severityText n.severity ++ ':' :: ' ' :: (n.message ++ tagText n)))))
  obtain ⟨c, digits, hdigits⟩ := List.exists_cons_of_ne_nil (Text.ofNat_ne_nil n.line)
  refine ⟨htake, c, _, hdrop.trans (by rw [hdigits]; rfl), ?_⟩
  exact Text.isDigit_of_mem_ofNat (n := n.line) (by simp [hdigits])

/-- A printed notice does not look like a line to leave out. -/
theorem isNotice_text (h : n.IsPlain) :
    n.text.startsWith ":debug:".toList = false ∧ Transcript.isSummary n.text = false := by
  obtain ⟨htake, c, rest, hdrop, hdigit⟩ := span_text h
  have hdebug : n.text.startsWith ":debug:".toList = false := by
    by_contra hstart
    obtain ⟨more, hmore⟩ := Text.startsWith_iff.mp (Bool.not_eq_false _ ▸ hstart)
    rw [hmore] at htake
    exact h.path htake.symm
  have hfound : n.text.startsWith "Found ".toList = false := by
    by_contra hstart
    obtain ⟨more, hmore⟩ := Text.startsWith_iff.mp (Bool.not_eq_false _ ▸ hstart)
    rw [hmore] at htake
    have hblank : ' ' ∈ n.path.spelling := by
      rw [← htake]
      simp
    exact absurd (h.pathChars _ hblank).2 (by decide)
  have hsuccess : n.text.startsWith "Success: no issues".toList = false := by
    by_contra hstart
    obtain ⟨more, hmore⟩ := Text.startsWith_iff.mp (Bool.not_eq_false _ ▸ hstart)
    rw [hmore] at hdrop
    have hc : c = ' ' := (List.cons.inj (List.cons.inj hdrop).2).1.symm
    rw [hc] at hdigit
    exact absurd hdigit (by decide)
  exact ⟨hdebug, by rw [Transcript.isSummary, hfound, hsuccess]; rfl⟩

/-- The transcript of a checker that prints the notices and nothing else. -/
def transcript (ns : List PrintedNotice) : Text :=
  .ofLines (ns.map text)

theorem noticeLines_transcript {ns : List PrintedNotice} (h : ∀ n ∈ ns, n.IsPlain)
    (hsubtype : ∀ n ∈ ns, '\n' ∉ PrintedNotice.subtype n.severity) :
    Transcript.noticeLines (transcript ns) = ns.map text := by
  have hlines : (transcript ns).streamLines = ns.map text := by
    refine Text.streamLines_ofLines (fun line hline => ?_) fun line hline hlast => ?_
    · obtain ⟨n, hn, rfl⟩ := List.mem_map.mp hline
      exact oneRow_text (h n hn) (hsubtype n hn)
    · obtain ⟨n, hn, rfl⟩ := List.mem_map.mp hline
      exact absurd ((isTrimmed_text (h n hn).isPrintable).2 _ hlast) (by decide)
  have hkept : (ns.map text).filter (fun line =>
      !line.isVoid && !line.startsWith ":debug:".toList) = ns.map text := by
    refine List.filter_eq_self.mpr fun line hline => ?_
    obtain ⟨n, hn, rfl⟩ := List.mem_map.mp hline
    rw [isVoid_text (h n hn), (isNotice_text (h n hn)).1]
    rfl
  have hlast : ((ns.map text).getLast?.any Transcript.isSummary) = false := by
    cases hl : (ns.map text).getLast? with
    | none => rfl
    | some line =>
      obtain ⟨n, hn, rfl⟩ := List.mem_map.mp (List.mem_of_getLast? hl)
      exact (isNotice_text (h n hn)).2
  rw [Transcript.noticeLines, hlines, hkept, hlast]
  rfl

end PrintedNotice

/-- A file after a printed notice, which is recorded on its line. -/
def File.recordPrinted (f : File) (n : PrintedNotice) : File :=
  f.changeLine n.line fun l =>
    l.notices ++ [{ l.notice n.severity n.message with column := n.column }]

theorem File.recordKept_some : recordKept some = recordPrinted := by
  funext f n
  rw [recordKept, Reading.append?_some]
  rfl

namespace Program

/-- A program after a printed notice, which is recorded at its path under `root`. -/
def recordPrinted (root : Path) (p : Program) (n : PrintedNotice) : Program :=
  p.setFile (root.join n.path) (some ((p.file (root.join n.path)).recordPrinted n))

theorem recordKept_some (root : Path) : recordKept some root = recordPrinted root := by
  funext p n
  rw [recordKept, recordPrinted, File.recordKept_some]

/-- Recording the lines that print notices records the notices. -/
theorem addLines_text {ns : List PrintedNotice} (h : ∀ n ∈ ns, n.IsPlain) (root : Path)
    (p : Program) :
    p.addLines (.ofFunction some) root (ns.map PrintedNotice.text) =
      .ok (ns.foldl (recordPrinted root) p) := by
  have hread : (ns.map PrintedNotice.text).mapM Transcript.readLine = .ok ns := by
    refine mapM_eq_ok_of_forall₂ (List.forall₂_map_left_iff.mpr (List.forall₂_same.mpr ?_))
    intro n hn
    rw [Transcript.readLine, PrintedNotice.parse_text (h n hn)]
    rfl
  rw [addLines_ofFunction, hread, recordKept_some]
  rfl

/-- What is read from a transcript of printed notices is what was printed. -/
theorem addLines_transcript {ns : List PrintedNotice} (h : ∀ n ∈ ns, n.IsPlain)
    (hsubtype : ∀ n ∈ ns, '\n' ∉ PrintedNotice.subtype n.severity) (root : Path) (p : Program) :
    p.addLines (.ofFunction some) root (Transcript.noticeLines (PrintedNotice.transcript ns)) =
      .ok (ns.foldl (recordPrinted root) p) := by
  rw [PrintedNotice.noticeLines_transcript h hsubtype]
  exact addLines_text h root p

end Program

end NoticeCheck
