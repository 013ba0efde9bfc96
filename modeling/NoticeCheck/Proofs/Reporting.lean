import NoticeCheck.Proofs.Expected
import NoticeCheck.Proofs.Pairing
import NoticeCheck.Proofs.Transcript

/-!
A checker that prints exactly what a fixture expects, one line for each row of a message. It passes
the check when cutting the sorted messages of each line into rows leaves the rows sorted.
-/
namespace NoticeCheck

/-- A notice as it is printed for a file at `path`. -/
def Notice.printedAt (path : Path) (n : Notice) : PrintedNotice :=
  ⟨path, n.line, n.column, n.severity, n.message⟩

namespace File

/-- What a checker prints to report a file: line by line, one row after the other. -/
def printed (f : File) (path : Path) : List PrintedNotice :=
  (f.notices.flatMap Notice.splitRows).map (Notice.printedAt path)

/-- Recording printed notices puts each one last on its line. -/
theorem foldl_recordPrinted (ns : List PrintedNotice) {f : File} (h : f.IsHomed) :
    (ns.foldl recordPrinted f).IsHomed ∧ (ns.foldl recordPrinted f).location = f.location ∧
      ∀ k, ((ns.foldl recordPrinted f).line k).notices = (f.line k).notices ++
        (ns.filter fun n => n.line == k).map fun n =>
          ⟨f.location, k, n.column, n.severity, n.message⟩ := by
  rw [← recordKept_some]
  have hlocation : (ns.foldl (recordKept some) f).location = f.location :=
    location_foldl_recordKept ns f
  have hline : ∀ k, (ns.foldl (recordKept some) f).line k = ⟨f.location, k, (f.line k).notices ++
      (ns.filter fun n => n.line == k).map fun n =>
        ⟨f.location, k, n.column, n.severity, n.message⟩⟩ := by
    intro k
    rw [line_foldl_recordKept ⟨h.location, h.number⟩, List.filterMap_eq_map']
    congr 2
    refine List.map_congr_left fun n hn => ?_
    rw [PrintedNotice.noticeAt, beq_iff_eq.mp (List.mem_filter.mp hn).2]
  refine ⟨⟨fun k => ?_, fun k => ?_, fun k n hn => ?_⟩, hlocation, fun k => ?_⟩
  · rw [hline, hlocation]
  · rw [hline]
  · rw [hline] at hn
    rw [hlocation]
    rcases List.mem_append.mp hn with hn | hn
    · exact h.notices k n hn
    · obtain ⟨m, -, rfl⟩ := List.mem_map.mp hn
      exact ⟨rfl, rfl⟩
  · rw [hline]

end File

namespace Program

theorem notices_setFile_empty (location : Path) (f : File) :
    (Program.empty.setFile location (some f)).notices = f.notices := by
  simp [notices, setFile, empty, SortedMap.put, SortedMap.insert, SortedMap.insertEntry,
    SortedMap.empty, SortedMap.values]

theorem file_setFile_empty (location : Path) (f : File) :
    (Program.empty.setFile location (some f)).file location = f := by
  simp [file, file?, setFile, SortedMap.put, SortedMap.get?_insert]

/-- Notices printed for one path are recorded in one file. -/
theorem notices_foldl_recordPrinted (root : Path) {path : Path} {ns : List PrintedNotice}
    (h : ∀ n ∈ ns, n.path = path) :
    (ns.foldl (recordPrinted root) .empty).notices =
      (ns.foldl File.recordPrinted (.empty (root.join path))).notices := by
  have hfile : ∀ (ns : List PrintedNotice) (f : File), (∀ n ∈ ns, n.path = path) →
      ns.foldl (recordPrinted root) (Program.empty.setFile (root.join path) (some f)) =
        Program.empty.setFile (root.join path) (some (ns.foldl File.recordPrinted f)) := by
    intro ns
    induction ns with
    | nil => exact fun _ _ => rfl
    | cons n ns ih =>
      intro f h
      rw [List.foldl_cons, List.foldl_cons, recordPrinted, h n List.mem_cons_self,
        file_setFile_empty, setFile_setFile]
      exact ih _ fun m hm => h m (List.mem_cons_of_mem _ hm)
  cases ns with
  | nil => rfl
  | cons n ns =>
    rw [List.foldl_cons, List.foldl_cons, recordPrinted, h n List.mem_cons_self,
      hfile ns _ fun m hm => h m (List.mem_cons_of_mem _ hm), notices_setFile_empty]
    rfl

theorem shownAt_of_isHomed {p : Program} {f : File} (hp : p.notices = f.notices) (hf : f.IsHomed)
    (root : Path) (path : Text) (k : Nat) :
    p.shownAt root path k =
      if root.shown f.location = path then (f.line k).notices else [] := by
  have hshown : ∀ n ∈ f.notices, (root.shown n.location == path && n.line == k) =
      (decide (root.shown f.location = path) && n.line == k) := by
    intro n hn
    rw [(hf.location_of_mem hn).1, beq_eq_decide (root.shown f.location)]
  rw [shownAt, hp, List.filter_congr hshown]
  split
  · next h => simp [h, hf.filter_notices]
  · next h => simp [h]

/-- Programs of one file each, at the same location, match when the files do, line by line. -/
theorem isMatch_iff_of_isHomed {left right : Program} {f g : File}
    (hleft : left.notices = f.notices) (hf : f.IsHomed) (hright : right.notices = g.notices)
    (hg : g.IsHomed) (hlocation : f.location = g.location) (root : Path) :
    (Comparison.ofPrograms root left right).isMatch = true ↔ ∀ k,
      List.Forall₂ (fun got want => want.agrees got = true)
        (Notice.splitAll (f.line k).notices) (Notice.splitAll (g.line k).notices) := by
  have hshown := shownAt_of_isHomed hleft hf root
  rw [hlocation] at hshown
  simp only [Comparison.isMatch_ofPrograms_iff, hshown, shownAt_of_isHomed hright hg root]
  constructor
  · intro hmatch k
    simpa only [if_true] using hmatch (root.shown g.location) k
  · intro hlines shown k
    split
    · exact hlines k
    · exact .nil

end Program

namespace File

variable {f : File}

/-- The rows reported for a line are those of the messages on it. -/
theorem line_foldl_recordPrinted_printed (h : f.IsHomed) (path : Path) (k : Nat) :
    (((f.printed path).foldl recordPrinted (.empty f.location)).line k).notices =
      (f.line k).notices.flatMap Notice.splitRows := by
  rw [(foldl_recordPrinted _ (isHomed_empty f.location)).2.2, line_empty, printed, List.filter_map,
    List.map_map]
  have hline : (f.notices.flatMap Notice.splitRows).filter
      ((fun n : PrintedNotice => n.line == k) ∘ Notice.printedAt path) =
        (f.line k).notices.flatMap Notice.splitRows := by
    rw [← h.filter_notices k]
    exact Notice.filter_flatMap_splitRows (fun _ _ => rfl) f.notices
  rw [hline]
  refine (List.nil_append _).trans ((List.map_congr_left fun row hrow => ?_).trans (List.map_id _))
  obtain ⟨n, hn, hrow⟩ := List.mem_flatMap.mp hrow
  obtain ⟨message, -, rfl⟩ := List.mem_map.mp hrow
  obtain ⟨hlocation, hk⟩ := h.notices k n hn
  simp [Notice.printedAt, ← hlocation, ← hk]

theorem uniform_line (h : f.IsHomed) (hclean : f.IsClean) (k : Nat) :
    Notice.Uniform (f.line k).notices f.location k where
  location n hn := (h.notices k n hn).1
  line n hn := (h.notices k n hn).2
  column n hn := (hclean k n hn).column
  severity n hn := (hclean k n hn).severity.imp_right fun ⟨s, hs, _, _, hrow⟩ =>
    ⟨by rw [hs]; rfl, hrow⟩

/-- The messages of a file can be printed and read back, row by row. -/
theorem isPlain_printed (h : f.IsHomed) (hclean : f.IsClean) {path : Path}
    (hpath : path.spelling ≠ []) (hchars : ∀ c ∈ path.spelling, c ≠ ':' ∧ isBlank c = false)
    (hmessages : ∀ n ∈ f.notices, ∀ row ∈ n.message.rows, row ≠ [] ∧ '[' ∉ row)
    (hsubtypes : ∀ n ∈ f.notices, ']' ∉ PrintedNotice.subtype n.severity) :
    ∀ n ∈ f.printed path, n.IsPlain ∧ '\n' ∉ PrintedNotice.subtype n.severity := by
  intro printed hprinted
  obtain ⟨row, hrow, rfl⟩ := List.mem_map.mp hprinted
  obtain ⟨n, hn, hrow⟩ := List.mem_flatMap.mp hrow
  obtain ⟨message, hmessage, rfl⟩ := List.mem_map.mp hrow
  have hn' := hclean _ n (h.location_of_mem hn).2
  obtain ⟨hne, hbracket⟩ := hmessages n hn message hmessage
  refine ⟨⟨hpath, hchars, hn'.line, fun c hc => ?_, hne, hn'.trimmed message hmessage,
    Text.not_mem_of_mem_rows hmessage, hbracket, hsubtypes n hn⟩, ?_⟩
  · rw [Notice.printedAt, hn'.column] at hc
    cases hc
  · rcases hn'.severity with hs | ⟨s, hs, -, hbreak, -⟩
    · simp [Notice.printedAt, hs, PrintedNotice.subtype]
    · simp only [Notice.printedAt, hs]
      exact hbreak

theorem forall_line_iff {p : List Notice → Prop} (hnil : p []) :
    (∀ k, p (f.line k).notices) ↔ ∀ l ∈ f.lines.values, p l.notices := by
  rw [SortedMap.forall_values_iff]
  constructor
  · intro h k l hl
    have hline : f.line k = l := by simp [line, line?, hl]
    exact hline ▸ h k
  · intro h k
    cases hl : f.lines.get? k with
    | none => simpa [line, line?, hl, Line.empty] using hnil
    | some l => simpa [line, line?, hl] using h k l hl

end File

/--
A checker that prints what a fixture expects passes the check exactly when, on every line, cutting
the sorted messages into rows leaves the rows sorted.
-/
theorem checkTranscript_printed_iff {root path : Path} {probe source t : Text} {known f : File}
    (hpath : path.spelling ≠ []) (hchars : ∀ c ∈ path.spelling, c ≠ ':' ∧ isBlank c = false)
    (hknown : known.location = root.join path) (h : readFixture probe source known = .ok (t, f))
    (hmessages : ∀ n ∈ f.notices, ∀ row ∈ n.message.rows, row ≠ [] ∧ '[' ∉ row)
    (hsubtypes : ∀ n ∈ f.notices, ']' ∉ PrintedNotice.subtype n.severity) :
    checkTranscript (Program.empty.setFile (root.join path) (some f))
        (PrintedNotice.transcript (f.printed path)) (.ofFunction some) root = .ok () ↔
      ∀ l ∈ f.lines.values, (Notice.splitAll l.notices).Pairwise fun a b =>
        (Notice.pairingOrder a b).isLE := by
  obtain ⟨hlocation, hhomed, hclean⟩ := isClean_of_readFixture h
  have hplain := File.isPlain_printed hhomed hclean hpath hchars hmessages hsubtypes
  have hreported := Program.addLines_transcript (fun n hn => (hplain n hn).1)
    (fun n hn => (hplain n hn).2) root .empty
  have hplace : f.location = root.join path := hlocation.trans hknown
  obtain ⟨hhomed', hlocation', -⟩ := File.foldl_recordPrinted (f.printed path)
    (File.isHomed_empty f.location)
  have hpaths : ∀ n ∈ f.printed path, n.path = path := by
    intro n hn
    obtain ⟨row, -, rfl⟩ := List.mem_map.mp hn
    rfl
  have hnotices := Program.notices_foldl_recordPrinted root hpaths
  rw [← hplace] at hnotices
  have hmatch := Program.isMatch_iff_of_isHomed hnotices hhomed'
    (Program.notices_setFile_empty (root.join path) f) hhomed hlocation' root
  rw [checkTranscript_eq_ok_iff, hreported, ← File.forall_line_iff (p := fun notices =>
    (Notice.splitAll notices).Pairwise fun a b => (Notice.pairingOrder a b).isLE) .nil]
  simp only [Except.ok.injEq, exists_eq_left', hmatch,
    File.line_foldl_recordPrinted_printed hhomed]
  constructor
  · intro hagrees k
    exact (Notice.splitAll_rows_agrees_iff (File.uniform_line hhomed hclean k)).mp (hagrees k)
  · intro hsorted k
    exact (Notice.splitAll_rows_agrees_iff (File.uniform_line hhomed hclean k)).mpr (hsorted k)

section

private def shopRoot : Path :=
  ⟨"/shop".toList⟩

private def cartPath : Path :=
  ⟨"cart.py".toList⟩

private def cartNotice (severity : Severity) (message : Text) : Notice :=
  ⟨shopRoot.join cartPath, 1, none, severity, message⟩

private def sortedCart : File :=
  ((File.empty (shopRoot.join cartPath)).record
    (cartNotice (.error "misc".toList) "bad".toList)).record (cartNotice .note "a\nb".toList)

private def unsortedCart : File :=
  (File.empty (shopRoot.join cartPath)).record (cartNotice .note "b\na".toList)

theorem checkTranscript_printed_sorted :
    ∃ t, readFixture defaultProbe
        "x\n# ^ ERROR(misc) ^ bad\n# ^ NOTE ^ a\n# ^ NOTE ^ b".toList
        (.empty (shopRoot.join cartPath)) = .ok (t, sortedCart) ∧
      checkTranscript (Program.empty.setFile (shopRoot.join cartPath) (some sortedCart))
        (PrintedNotice.transcript (sortedCart.printed cartPath)) (.ofFunction some) shopRoot =
          .ok () := by
  have hread : readFixture defaultProbe
      "x\n# ^ ERROR(misc) ^ bad\n# ^ NOTE ^ a\n# ^ NOTE ^ b".toList
      (.empty (shopRoot.join cartPath)) =
        .ok ("x\n# ^ ERROR(misc) ^ bad\n# ^ NOTE ^ a\n# ^ NOTE ^ b".toList, sortedCart) :=
    eq_ok_of_toOption (by decide +kernel)
  have hchars : ∀ c ∈ cartPath.spelling, c ≠ ':' ∧ isBlank c = false := by
    have hall : cartPath.spelling.all (fun c => c ≠ ':' ∧ isBlank c = false) = true := by decide
    exact fun c hc => of_decide_eq_true (List.all_eq_true.mp hall c hc)
  exact ⟨_, hread, (checkTranscript_printed_iff (by decide) hchars rfl hread (by decide)
    (by decide)).mpr (by decide)⟩

theorem checkTranscript_printed_unsorted :
    ∃ t, readFixture defaultProbe "x\n# ^ NOTE ^ b\n# ^ NOTE ^ a".toList
        (.empty (shopRoot.join cartPath)) = .ok (t, unsortedCart) ∧
      (∀ n ∈ unsortedCart.notices, ∀ row ∈ n.message.rows, row ≠ [] ∧ '[' ∉ row) ∧
      (∀ n ∈ unsortedCart.notices, '[' ∉ PrintedNotice.subtype n.severity ∧
        ']' ∉ PrintedNotice.subtype n.severity) ∧
      PrintedNotice.transcript (unsortedCart.printed cartPath) =
        "cart.py:1: note: b\ncart.py:1: note: a\n".toList ∧
      checkTranscript (Program.empty.setFile (shopRoot.join cartPath) (some unsortedCart))
        (PrintedNotice.transcript (unsortedCart.printed cartPath)) (.ofFunction some) shopRoot ≠
          .ok () := by
  have hread : readFixture defaultProbe "x\n# ^ NOTE ^ b\n# ^ NOTE ^ a".toList
      (.empty (shopRoot.join cartPath)) =
        .ok ("x\n# ^ NOTE ^ b\n# ^ NOTE ^ a".toList, unsortedCart) :=
    eq_ok_of_toOption (by decide +kernel)
  have hfails : (checkTranscript (Program.empty.setFile (shopRoot.join cartPath)
      (some unsortedCart)) (PrintedNotice.transcript (unsortedCart.printed cartPath))
        (.ofFunction some) shopRoot).toOption = none := by
    decide +kernel
  refine ⟨_, hread, by decide, by decide, by decide, fun hpasses => ?_⟩
  rw [hpasses] at hfails
  cases hfails

end

end NoticeCheck
