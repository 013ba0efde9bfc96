import Mathlib.Data.List.SplitBy
import NoticeCheck.Proofs.Probing

/-!
Revising a text block by block. Every line that is no directive is revised with the directives right
below it, whatever stands in the rest of the text, and no other row is touched.
-/
namespace NoticeCheck

namespace Reading

/-- A call of the probe with the first character of its argument. -/
def OpensProbe (probe text : Text) : Prop :=
  ∃ c rest, text = probe ++ '(' :: c :: rest ∧ c ≠ ')'

theorem isProbe_iff {probe text : Text} : isProbe probe text = true ↔ OpensProbe probe text := by
  rw [isProbe]
  constructor
  · intro h
    split at h
    · next c rest hafter =>
      refine ⟨c, rest, ?_, by simpa using h⟩
      rw [Text.after?_eq_some.mp hafter]
      simp
    · cases h
  · rintro ⟨c, rest, rfl, hc⟩
    have hafter : (probe ++ '(' :: c :: rest).after? (probe ++ ['(']) = some (c :: rest) :=
      Text.after?_eq_some.mpr (by simp)
    simpa [hafter] using hc

instance (probe text : Text) : Decidable (OpensProbe probe text) :=
  decidable_of_iff _ isProbe_iff

/-- What may follow a name that is assigned or declared: `= ..`, `: ..`, `: .. = ..` or nothing. -/
def EndsName (rest : Text) : Prop :=
  ∃ blanks declaration value, rest = blanks ++ (declaration ++ value) ∧
    (∀ c ∈ blanks, isBlank c = true) ∧
    (declaration = [] ∨
      ∃ declared, declaration = ':' :: declared ∧ declared ≠ [] ∧ '=' ∉ declared) ∧
    (value = [] ∨ value.head? = some '=')

/-- A line that begins with a word, and is no more than that word being assigned or declared. -/
structure IsAssignment (text : Text) : Prop where
  word : text.takeWhile isWordChar ≠ []
  ending : EndsName (text.dropWhile isWordChar)

/-- One character behind the blanks, or two, decide how a name ends. -/
theorem endsName_iff {rest : Text} : EndsName rest ↔ rest.skipBlanks = [] ∨
    (∃ more, rest.skipBlanks = '=' :: more) ∨
      ∃ c more, rest.skipBlanks = ':' :: c :: more ∧ c ≠ '=' := by
  have hcut : rest = rest.takeWhile isBlank ++ rest.skipBlanks :=
    List.takeWhile_append_dropWhile.symm
  have hblanks : ∀ c ∈ rest.takeWhile isBlank, isBlank c = true :=
    fun c hc => List.mem_takeWhile_imp hc
  constructor
  · rintro ⟨blanks, declaration, value, hrest, hblanks, hdeclaration, hvalue⟩
    rw [hrest, Text.skipBlanks_append hblanks]
    rcases hdeclaration with rfl | ⟨declared, rfl, hne, hequals⟩
    · cases value with
      | nil => exact .inl rfl
      | cons c value =>
        obtain rfl : c = '=' := by simpa using hvalue
        exact .inr (.inl ⟨value, Text.skipBlanks_eq_self (by simp; decide)⟩)
    · obtain ⟨c, declared, rfl⟩ := List.exists_cons_of_ne_nil hne
      refine .inr (.inr ⟨c, declared ++ value, Text.skipBlanks_eq_self (by simp; decide), ?_⟩)
      exact fun hc => hequals (hc ▸ List.mem_cons_self)
  · rintro (hskip | ⟨more, hskip⟩ | ⟨c, more, hskip, hc⟩) <;> rw [hskip] at hcut
    · exact ⟨_, [], [], hcut, hblanks, .inl rfl, .inl rfl⟩
    · exact ⟨_, [], '=' :: more, hcut, hblanks, .inl rfl, .inr rfl⟩
    · -- what is declared goes on up to the first equals sign
      refine ⟨_, ':' :: c :: more.takeWhile (· != '='), more.dropWhile (· != '='), ?_, hblanks,
        .inr ⟨_, rfl, by simp, fun hmem => ?_⟩, ?_⟩
      · simpa using hcut
      · rcases List.mem_cons.mp hmem with h | h
        · exact hc h.symm
        · simpa using List.mem_takeWhile_imp h
      · have hvalue := List.head?_dropWhile_not (· != '=') more
        cases hdrop : more.dropWhile (· != '=') with
        | nil => exact .inl rfl
        | cons d value => exact .inr (by simpa [hdrop] using hvalue)

theorem assigned?_eq_some_iff {text name : Text} :
    assigned? text = some name ↔ IsAssignment text ∧ name = text.takeWhile isWordChar := by
  have hassignment : IsAssignment text ↔ text.takeWhile isWordChar ≠ [] ∧
      EndsName (text.dropWhile isWordChar) := ⟨fun h => ⟨h.1, h.2⟩, fun h => ⟨h.1, h.2⟩⟩
  have hword : (fun c : Char => c.isAlphanum || c == '_') = isWordChar := rfl
  simp only [assigned?, hword, Option.ite_none_right_eq_some, Option.some.injEq, hassignment,
    endsName_iff]
  refine and_congr (and_congr Iff.rfl ?_) eq_comm
  split
  · next hskip => simp [hskip]
  · next more hskip => simp [hskip]
  · next c more hskip => simp [hskip]
  · next hend hequals hcolon =>
    refine iff_of_false Bool.false_ne_true ?_
    rintro (h | ⟨more, h⟩ | ⟨c, more, h, -⟩)
    · exact hend h
    · exact hequals more h
    · exact hcolon c more h

instance (text : Text) : Decidable (IsAssignment text) :=
  decidable_of_iff ((assigned? text).isSome = true) <| by
    simp [Option.isSome_iff_exists, assigned?_eq_some_iff]

def isDirective (row : Text) : Bool :=
  match Directive.parse row with
  | .ok (some _) => true
  | _ => false

/-- The blanks before a reveal, if a row is one. -/
def revealIndent? (row : Text) : Option Text :=
  match Directive.parse row with
  | .ok (some d) => if d.instruction = .reveal then some d.indent else none
  | _ => none

/-- Rows cut into blocks: a block goes on as long as directives follow. -/
def cutBlocks (rows : List Text) : List (List Text) :=
  rows.splitBy fun _ row => isDirective row

/--
What a reveal makes of the lines above the current one and of the current line. A probe stays, an
assignment gets a probe of its name below it, and a probe is put around everything else.
-/
def reviseLine (probe : Text) (lines : List Text × Text) (indent : Text) : List Text × Text :=
  let text := lines.2.trim
  if OpensProbe probe text then lines
  else if IsAssignment text then
    (lines.1 ++ [lines.2], indent ++ probe ++ '(' :: text.takeWhile isWordChar ++ [')'])
  else (lines.1, indent ++ probe ++ '(' :: text ++ [')'])

/-- The rows that stand for a block: its revised line and, as they were, its directives. -/
def reviseBlock (probe : Text) : List Text → List Text
  | [] => []
  | line :: directives =>
    let lines := (directives.filterMap revealIndent?).foldl (reviseLine probe) ([], line)
    lines.1 ++ lines.2 :: directives

namespace Block

theorem reveal_eq_reviseLine (probe : Text) (lines : List Text × Text) {d : Directive}
    (hd : d.instruction = .reveal) : reveal probe lines d = reviseLine probe lines d.indent := by
  rw [reveal, if_pos hd, reviseLine]
  dsimp only
  by_cases hprobe : isProbe probe lines.2.trim = true
  · rw [if_pos hprobe, if_pos (isProbe_iff.mp hprobe)]
  · rw [if_neg hprobe, if_neg (mt isProbe_iff.mpr hprobe)]
    cases hname : assigned? lines.2.trim with
    | some name =>
      obtain ⟨hassignment, rfl⟩ := assigned?_eq_some_iff.mp hname
      rw [if_pos hassignment]
      rfl
    | none =>
      rw [if_neg fun hassignment => ?_]
      · rfl
      · rw [assigned?_eq_some_iff.mpr ⟨hassignment, rfl⟩] at hname
        cases hname

theorem revealAll_eq_foldl (probe : Text) {directives : List (Text × Directive)}
    (h : ∀ d ∈ directives, Directive.parse d.1 = .ok (some d.2)) (lines : List Text × Text) :
    directives.foldl (fun lines d => reveal probe lines d.2) lines =
      ((directives.map Prod.fst).filterMap revealIndent?).foldl (reviseLine probe) lines := by
  induction directives generalizing lines with
  | nil => rfl
  | cons d directives ih =>
    have hrow := h d List.mem_cons_self
    rw [List.foldl_cons, ih fun e he => h e (List.mem_cons_of_mem _ he), List.map_cons]
    by_cases hd : d.2.instruction = .reveal
    · have hindent : revealIndent? d.1 = some d.2.indent := by simp [revealIndent?, hrow, hd]
      rw [List.filterMap_cons_some hindent, List.foldl_cons, reveal_eq_reviseLine probe lines hd]
    · have hindent : revealIndent? d.1 = none := by simp [revealIndent?, hrow, hd]
      rw [List.filterMap_cons_none hindent, reveal, if_neg hd]

/-- What becomes of a block is told by its rows alone. -/
theorem rows_eq_reviseBlock (probe : Text) {b : Block} (hb : b.IsRead) :
    b.rows probe = reviseBlock probe b.source := by
  rw [rows, lines, revealAll_eq_foldl probe hb.directives, source, reviseBlock]

theorem IsRead.isDirective {b : Block} (hb : b.IsRead) :
    Reading.isDirective b.line = false ∧
      ∀ row ∈ b.directives.map Prod.fst, Reading.isDirective row = true := by
  refine ⟨by simp [Reading.isDirective, hb.line], fun row hrow => ?_⟩
  obtain ⟨d, hd, rfl⟩ := List.mem_map.mp hrow
  simp [Reading.isDirective, hb.directives d hd]

/-- The blocks that a source is read as are those it is cut into. -/
theorem cutBlocks_eq {rows : List Text} {blocks : List Block} (h : ofRows rows = .ok blocks) :
    cutBlocks rows = blocks.map source := by
  obtain ⟨hread, rfl⟩ := ofRows_eq_ok_iff.mp h
  rw [cutBlocks, List.splitBy_eq_iff]
  refine ⟨List.flatMap_def, ?_, ?_, ?_⟩
  · simp [source]
  · intro rows hrows
    obtain ⟨b, hb, rfl⟩ := List.mem_map.mp hrows
    have hdirectives := (hread b hb).isDirective.2
    refine List.Pairwise.isChain (List.pairwise_cons.mpr ⟨fun row hrow => hdirectives row hrow, ?_⟩)
    exact List.pairwise_of_forall_mem_list fun _ _ row hrow => hdirectives row hrow
  · -- a block ends where the next line is no directive
    rw [List.isChain_map]
    refine (List.pairwise_of_forall_mem_list fun b _ c hc => ?_).isChain
    exact ⟨by simp [source], by simp [source], (hread c hc).isDirective.1⟩

end Block

end Reading

/--
A revised text is the text that comes from cutting the source into lines with their directives, and
revising each of these blocks on its own.
-/
theorem text_eq_reviseBlock_cutBlocks {probe source t : Text} {known f : File}
    (h : readFixture probe source known = .ok (t, f)) :
    (∀ block ∈ Reading.cutBlocks source.rows, ∃ line directives, block = line :: directives ∧
      Directive.parse line = .ok none ∧ ∀ row ∈ directives, Reading.isDirective row = true) ∧
    t = .ofRows ((Reading.cutBlocks source.rows).flatMap (Reading.reviseBlock probe)) := by
  rw [readFixture_eq] at h
  cases hblocks : Reading.Block.ofRows source.rows with
  | error e => rw [hblocks] at h; cases h
  | ok blocks =>
    rw [hblocks] at h
    obtain ⟨rfl, -⟩ := Prod.mk.inj (Except.ok.inj h)
    obtain ⟨hread, -⟩ := Reading.Block.ofRows_eq_ok_iff.mp hblocks
    rw [Reading.Block.cutBlocks_eq hblocks]
    constructor
    · intro block hblock
      obtain ⟨b, hb, rfl⟩ := List.mem_map.mp hblock
      exact ⟨b.line, _, rfl, (hread b hb).line, (hread b hb).isDirective.2⟩
    · rw [Reading.Block.text, List.flatMap_map]
      exact congrArg _ (List.flatMap_congr fun b hb =>
        Reading.Block.rows_eq_reviseBlock probe (hread b hb))

private def closingSource : Text :=
  "x: int = 1\n# ^ NAME[n] ^\n  # ^ REVEAL ^ int\n)\n# ^ REVEAL ^ a\n# ^ REVEAL ^ b".toList

private def closingText : Text :=
  "x: int = 1\n  reveal_type(x)\n# ^ NAME[n] ^\n  # ^ REVEAL ^ int\n".toList ++
    "reveal_type(reveal_type()))\n# ^ REVEAL ^ a\n# ^ REVEAL ^ b".toList

theorem text_eq_reviseBlock_of_replaced :
    ∃ f, readFixture defaultProbe closingSource (.empty ⟨"/m.py".toList⟩) = .ok (closingText, f) ∧
      closingText = .ofRows ((Reading.cutBlocks closingSource.rows).flatMap
        (Reading.reviseBlock defaultProbe)) := by
  have htext : (readFixture defaultProbe closingSource (.empty ⟨"/m.py".toList⟩)).toOption.map
      Prod.fst = some closingText := by decide +kernel
  cases hread : readFixture defaultProbe closingSource (.empty ⟨"/m.py".toList⟩) with
  | error e => rw [hread] at htext; cases htext
  | ok read =>
    obtain ⟨t, f⟩ := read
    rw [hread] at htext
    obtain rfl : t = closingText := Option.some.inj htext
    exact ⟨f, rfl, (text_eq_reviseBlock_cutBlocks hread).2⟩

end NoticeCheck
