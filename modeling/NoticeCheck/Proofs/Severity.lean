import NoticeCheck.Proofs.Check
import NoticeCheck.Proofs.Ordering

/-!
The three comparisons of severities: up to the wildcard, by order, and against a written form. They
call the same severities equal, and without the wildcard that is plain equality.
-/
namespace NoticeCheck.Severity

theorem display_error (subtype : Text) :
    (error subtype).display = "error[".toList ++ subtype ++ [']'] := rfl

/-- Displays tell the kind of a severity; only where a subtype ends is left to what follows. -/
theorem eq_or_subtypes_of_display {s t : Severity} {rest rest' : Text}
    (h : s.display ++ rest = t.display ++ rest') : (s = t ∧ rest = rest') ∨
      ∃ u v, s = error u ∧ t = error v ∧ u ++ ']' :: rest = v ++ ']' :: rest' := by
  -- the first letter tells a note, a warning and an error apart
  have hkind : s.display.head? = t.display.head? := by
    have hhead := congrArg List.head? h
    cases s <;> cases t <;> exact hhead
  cases s with
  | note =>
    cases t with
    | note => exact .inl ⟨rfl, List.append_cancel_left h⟩
    | warning => cases hkind
    | error v => cases hkind
  | warning =>
    cases t with
    | note => cases hkind
    | warning => exact .inl ⟨rfl, List.append_cancel_left h⟩
    | error v => cases hkind
  | error u =>
    cases t with
    | note => cases hkind
    | warning => cases hkind
    | error v =>
      rw [display_error, display_error] at h
      simp only [List.append_assoc, List.append_cancel_left_eq, List.cons_append,
        List.nil_append] at h
      exact .inr ⟨u, v, rfl, rfl, h⟩

/-- Every subtype, one with brackets too, can be read off the display of its error. -/
theorem display_injective : Function.Injective display := by
  intro s t h
  rcases eq_or_subtypes_of_display (congrArg (· ++ []) h) with heq | ⟨u, v, rfl, rfl, hinner⟩
  · exact heq.1
  · rw [List.append_cancel_right hinner]

theorem agrees_comm (s t : Severity) : s.agrees t = t.agrees s := by
  rw [Bool.eq_iff_iff, agrees_iff, agrees_iff]
  constructor
  all_goals
    rintro (rfl | ⟨u, v, hs, ht, hwild⟩)
    · exact .inl rfl
    · exact .inr ⟨v, u, ht, hs, hwild.symm⟩

/-- Severities in the order of their displays are level only if they agree. -/
theorem order_eq_iff (s t : Severity) : s.order t = .eq ↔ s.agrees t = true := by
  unfold order
  split
  · next h => simp [h]
  · next h =>
    have hne : s ≠ t := by
      rintro rfl
      exact h ((agrees_iff s s).mpr (.inl rfl))
    have hdisplay : s.display ≠ t.display := fun heq => hne (display_injective heq)
    simp [h, hdisplay]

theorem order_swap (s t : Severity) : t.order s = (s.order t).swap := by
  unfold order
  rw [agrees_comm t s]
  split
  · rfl
  · exact Std.OrientedCmp.eq_swap

/-- Without the wildcard severities agree only when they are equal. -/
theorem agrees_iff_eq {s t : Severity} (hs : s.isWildcard = false) (ht : t.isWildcard = false) :
    s.agrees t = true ↔ s = t := by
  rw [agrees_iff]
  constructor
  · rintro (h | ⟨u, v, rfl, rfl, rfl | rfl⟩)
    · exact h
    · cases hs
    · cases ht
  · exact .inl

theorem ordersUpTo_order : OrdersUpTo order (fun s => s.isWildcard = false) Eq := by
  apply OrdersUpTo.of_transCmp (compareOn display)
  · intro s t hs ht
    unfold order
    split
    · next h =>
      rw [(agrees_iff_eq hs ht).mp h]
      exact Std.ReflCmp.compare_self.symm
    · rfl
  · intro s t _ _
    rw [compareOn, Std.LawfulEqOrd.compare_eq_iff_eq]
    exact display_injective.eq_iff

/-- The bare word for an error is no display: those of errors have brackets. -/
theorem display_ne_bare (t : Severity) : t.display ≠ "error".toList := by
  cases t with
  | note => decide
  | warning => decide
  | error subtype =>
    intro h
    have hbracket : some '[' = none := congrArg (fun t : Text => t[5]?) h
    cases hbracket

theorem startsWith_display_iff {t : Severity} :
    t.display.startsWith "error[".toList = true ↔ ∃ subtype, t = .error subtype := by
  cases t with
  | note => exact iff_of_false (by decide) (by simp)
  | warning => exact iff_of_false (by decide) (by simp)
  | error subtype =>
    have hstart : (error subtype).display.startsWith "error[".toList = true :=
      Text.startsWith_iff.mpr ⟨subtype ++ [']'], List.append_assoc _ _ _⟩
    exact iff_of_true hstart ⟨subtype, rfl⟩

/-- The display of a severity is compared as that severity. -/
theorem agreesWithText_display (s t : Severity) : s.agreesWithText t.display = s.agrees t := by
  have hbare : (t.display == "error".toList) = false := beq_eq_false_iff_ne.mpr (display_ne_bare t)
  have hempty : (t.display == "error[]".toList) = true ↔ t = .error [] := by
    rw [beq_iff_eq]
    exact display_injective.eq_iff (b := .error [])
  have hself : (s.display == t.display) = true ↔ s = t := by
    rw [beq_iff_eq, display_injective.eq_iff]
  rw [Bool.eq_iff_iff, agrees_iff]
  cases s with
  | note => simpa [agreesWithText] using hself
  | warning => simpa [agreesWithText] using hself
  | error subtype =>
    cases subtype with
    | nil =>
      rw [agreesWithText, hbare, Bool.false_or, startsWith_display_iff]
      constructor
      · rintro ⟨subtype, rfl⟩
        exact .inr ⟨[], subtype, rfl, rfl, .inl rfl⟩
      · rintro (rfl | ⟨u, v, -, rfl, -⟩)
        · exact ⟨[], rfl⟩
        · exact ⟨v, rfl⟩
    | cons c subtype =>
      rw [agreesWithText, hbare, Bool.false_or, Bool.or_eq_true, hempty, hself, or_comm]
      apply or_congr_right
      constructor
      · rintro rfl
        exact ⟨c :: subtype, [], rfl, rfl, .inr rfl⟩
      · rintro ⟨u, v, hu, rfl, rfl | rfl⟩
        · cases hu
        · rfl

/--
The comparisons agree on every two severities: the order is level and the display is taken for the
other one exactly where they agree, and the wildcard is the only severity that agrees with others.
-/
theorem comparisons_agree (s t : Severity) :
    s.agrees t = t.agrees s ∧
      (s.order t = .eq ↔ s.agrees t = true) ∧ s.order t = (t.order s).swap ∧
      (s.agreesWithText t.display = true ↔ s.agrees t = true) ∧
      (s.isWildcard = false → t.isWildcard = false → (s.agrees t = true ↔ s = t)) ∧
      OrdersUpTo order (fun u => u.isWildcard = false) Eq := by
  refine ⟨agrees_comm s t, order_eq_iff s t, order_swap t s, ?_, agrees_iff_eq, ordersUpTo_order⟩
  rw [agreesWithText_display]

theorem comparisons_agree_brackets :
    let s := error "a][".toList
    let t := error "a]".toList
    s.isWildcard = false ∧ t.isWildcard = false ∧ note.isWildcard = false ∧
      s.order t = .lt ∧ t.order note = .lt ∧
      (s.agrees t = true ↔ s = t) ∧ (s.order note).isLE ∧
      (s.agreesWithText t.display = true ↔ s.agrees t = true) ∧ s.agrees t = false := by
  intro s t
  have hs : s.isWildcard = false := rfl
  have ht : t.isWildcard = false := rfl
  have hbelow : s.order t = .lt := by decide
  have habove : t.order note = .lt := by decide
  obtain ⟨-, -, -, hdisplay, hequal, hordered⟩ := comparisons_agree s t
  have htrans : (s.order note).isLE := hordered.trans s t note hs ht rfl
    (Ordering.isLE_of_eq_lt hbelow) (Ordering.isLE_of_eq_lt habove)
  exact ⟨hs, ht, rfl, hbelow, habove, hequal hs ht, htrans, hdisplay, by decide⟩

end NoticeCheck.Severity
