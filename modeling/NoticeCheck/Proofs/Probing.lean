import NoticeCheck.Proofs.Revision

/-!
When a line is a probe. A call around a line is recognised as a probe, unless the line begins with
a closing parenthesis.
-/
namespace NoticeCheck.Reading

def isWordChar (c : Char) : Bool :=
  c.isAlphanum || c == '_'

/-- A probe that is a name. -/
structure IsWord (probe : Text) : Prop where
  nonempty : probe ≠ []
  word : ∀ c ∈ probe, isWordChar c = true

theorem isWord_defaultProbe : IsWord defaultProbe :=
  ⟨by decide, List.all_eq_true.mp (by decide)⟩

theorem isBlank_of_isWordChar {c : Char} (h : isWordChar c = true) : isBlank c = false := by
  have hcode : (65 ≤ c.toNat ∧ c.toNat ≤ 90) ∨ (97 ≤ c.toNat ∧ c.toNat ≤ 122) ∨
      (48 ≤ c.toNat ∧ c.toNat ≤ 57) ∨ c.toNat = 95 := by
    have hranges : ((decide (65 ≤ c.val ∧ c.val ≤ 90) ||
        decide (97 ≤ c.val) && decide (c.val ≤ 122)) ||
          decide (48 ≤ c.val) && decide (c.val ≤ 57) || c == '_') = true := h
    simp only [Bool.or_eq_true, Bool.and_eq_true, decide_eq_true_eq, beq_iff_eq,
      UInt32.le_iff_toNat_le] at hranges
    rcases hranges with ((h | h) | h) | rfl
    · exact .inl h
    · exact .inr (.inl h)
    · exact .inr (.inr (.inl h))
    · exact .inr (.inr (.inr rfl))
  simp only [isBlank, blankRanges, List.any_cons, List.any_nil, Bool.or_false, Bool.or_eq_false_iff,
    decide_eq_false_iff_not]
  omega

variable {probe : Text}

theorem IsWord.isPlainProbe (h : IsWord probe) : IsPlainProbe probe := by
  constructor <;> intro hmem <;> exact absurd (h.word _ hmem) (by decide)

theorem IsWord.isBlank_head? (h : IsWord probe) : ∀ c ∈ probe.head?, isBlank c = false :=
  fun c hc => isBlank_of_isWordChar (h.word c (List.mem_of_head? hc))

theorem trim_call_eq (hprobe : IsWord probe) {indent : Text}
    (hindent : ∀ c ∈ indent, isBlank c = true) (argument : Text) :
    (call indent probe argument).trim = call [] probe argument := by
  have hcall : call indent probe argument = indent ++ call [] probe argument := by
    simp [call]
  rw [hcall, Text.trim_append hindent]
  refine Text.trim_eq_self ⟨fun c hc => ?_, fun c hc => ?_⟩
  · obtain ⟨d, rest, hd⟩ := List.exists_cons_of_ne_nil hprobe.nonempty
    obtain rfl : d = c := by simpa [call, hd] using hc
    exact isBlank_of_isWordChar (hprobe.word d (by simp [hd]))
  · have hlast : (call [] probe argument).getLast? = some ')' := by
      rw [call, List.getLast?_concat]
    obtain rfl : ')' = c := by simpa [hlast] using hc
    decide

theorem isProbe_call {argument : Text} (h : argument ≠ []) :
    isProbe probe (call [] probe argument) = (argument.head? != some ')') := by
  have hcall : call [] probe argument = (probe ++ ['(']) ++ (argument ++ [')']) := by
    simp [call]
  obtain ⟨c, rest, rfl⟩ := List.exists_cons_of_ne_nil h
  rw [isProbe, hcall, Text.after?_append]
  rfl

theorem head?_of_assigned? {line name : Text} (h : assigned? line = some name) :
    ∃ c, name.head? = some c ∧ isWordChar c = true := by
  simp only [assigned?, Option.ite_none_right_eq_some] at h
  obtain ⟨⟨hne, -⟩, h⟩ := h
  obtain rfl := Option.some.inj h
  obtain ⟨c, rest, hc⟩ := List.exists_cons_of_ne_nil hne
  refine ⟨c, by rw [hc, List.head?_cons], ?_⟩
  have hmem : c ∈ line.takeWhile fun c => c.isAlphanum || c == '_' := by
    rw [hc]
    exact List.mem_cons_self
  exact List.mem_takeWhile_imp hmem

namespace Block

theorem reveal_of_isProbe {lines : List Text × Text} (h : isProbe probe lines.2.trim = true)
    (d : Directive) : reveal probe lines d = lines := by
  simp [reveal, h]

/-- A line that does not begin with a closing parenthesis is a probe once it is revealed. -/
theorem isProbe_reveal (hprobe : IsWord probe) {lines : List Text × Text}
    (hne : lines.2.trim ≠ []) (hhead : lines.2.trim.head? ≠ some ')') {d : Directive}
    (hd : d.instruction = .reveal) (hindent : ∀ c ∈ d.indent, isBlank c = true) :
    isProbe probe (reveal probe lines d).2.trim = true := by
  have hcall : ∀ argument, argument ≠ [] → argument.head? ≠ some ')' →
      isProbe probe (call d.indent probe argument).trim = true := by
    intro argument hargument hfirst
    rw [trim_call_eq hprobe hindent, isProbe_call hargument]
    simpa using hfirst
  rw [reveal, if_pos hd]
  dsimp only
  split
  · assumption
  · split
    · next name hname =>
      obtain ⟨c, hc, hword⟩ := head?_of_assigned? hname
      refine hcall name (fun hnil => ?_) fun hclose => ?_
      · simp [hnil] at hc
      · obtain rfl := Option.some.inj (hc.symm.trans hclose)
        exact absurd hword (by decide)
    · exact hcall _ hne hhead

/-- A line that begins with a closing parenthesis is no probe after one reveal. -/
theorem reveal_of_closing (hprobe : IsWord probe) {lines : List Text × Text}
    (hhead : lines.2.trim.head? = some ')') {d : Directive} (hd : d.instruction = .reveal) :
    reveal probe lines d = (lines.1, call d.indent probe lines.2.trim) := by
  obtain ⟨rest, htext⟩ : ∃ rest, lines.2.trim = ')' :: rest := by
    cases h : lines.2.trim with
    | nil => simp [h] at hhead
    | cons c rest => exact ⟨rest, by rw [h] at hhead; cases hhead; rfl⟩
  obtain ⟨c, probe', hcons⟩ := List.exists_cons_of_ne_nil hprobe.nonempty
  have hc : c ≠ ')' := by
    rintro rfl
    exact absurd (hprobe.word ')' (by simp [hcons])) (by decide)
  have hnone : isProbe probe lines.2.trim = false := by
    simp [isProbe, htext, hcons, Text.after?, hc]
  have hassigned : assigned? lines.2.trim = none := by
    simp [assigned?, htext]
  simp [reveal, hd, hnone, hassigned]

end Block

end NoticeCheck.Reading
