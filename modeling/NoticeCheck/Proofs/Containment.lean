import NoticeCheck.Fixture
import NoticeCheck.Proofs.Path

/-!
Fixtures stay below their root. A path is accepted by a count of its steps, and what is accepted
leads through places below the root only.
-/
namespace NoticeCheck

namespace Path

def Part.isName : Part → Bool
  | name _ => true
  | _ => false

def ups (parts : List Part) : Nat :=
  parts.count .up

def names (parts : List Part) : Nat :=
  parts.countP Part.isName

@[simp] theorem ups_nil : ups [] = 0 := rfl
@[simp] theorem names_nil : names [] = 0 := rfl

@[simp] theorem ups_cons_here (parts : List Part) : ups (.here :: parts) = ups parts :=
  List.count_cons_of_ne (by decide)

@[simp] theorem ups_cons_up (parts : List Part) : ups (.up :: parts) = ups parts + 1 :=
  List.count_cons_self

@[simp] theorem ups_cons_name (text : Text) (parts : List Part) :
    ups (.name text :: parts) = ups parts :=
  List.count_cons_of_ne (by simp)

@[simp] theorem names_cons_here (parts : List Part) : names (.here :: parts) = names parts :=
  List.countP_cons_of_neg Bool.false_ne_true

@[simp] theorem names_cons_up (parts : List Part) : names (.up :: parts) = names parts :=
  List.countP_cons_of_neg Bool.false_ne_true

@[simp] theorem names_cons_name (text : Text) (parts : List Part) :
    names (.name text :: parts) = names parts + 1 :=
  List.countP_cons_of_pos rfl

/-- Relative parts that lead nowhere above their start, and end below it. -/
structure Descends (parts : List Part) : Prop where
  relative : .root ∉ parts
  never_above : ∀ front, front <+: parts → ups front ≤ names front
  ends_below : ups parts < names parts

/-- Follow one part without looking at any disk: `..` cancels the nearest name before it. -/
def followPart (trail : List Part) : Part → List Part
  | .root => [.root]
  | .here => trail
  | .up => (trail.reverse.eraseP Part.isName).reverse
  | .name text => trail ++ [.name text]

def resolve (start parts : List Part) : List Part :=
  parts.foldl followPart start

private theorem forall_prefix_cons {α : Type} {P : List α → Prop} {a : α} {l : List α} :
    (∀ front, front <+: a :: l → P front) ↔ P [] ∧ ∀ front, front <+: l → P (a :: front) := by
  simp only [List.prefix_cons_iff]
  constructor
  · intro h
    exact ⟨h [] (.inl rfl), fun front hfront => h (a :: front) (.inr ⟨front, rfl, hfront⟩)⟩
  · rintro ⟨hnil, hcons⟩ front (rfl | ⟨rest, rfl, hrest⟩)
    · exact hnil
    · exact hcons rest hrest

/-- The depth that is counted is that of the names left over by `..`, if there are always enough. -/
theorem depth?_eq_some_iff {parts : List Part} {start depth : Nat} :
    depth? parts start = some depth ↔ .root ∉ parts ∧
      (∀ front, front <+: parts → ups front ≤ start + names front) ∧
      depth + ups parts = start + names parts := by
  induction parts generalizing start with
  | nil => simp [depth?, eq_comm]
  | cons part parts ih =>
    rw [forall_prefix_cons]
    cases part with
    | root => simp [depth?]
    | here => simp [depth?, ih]
    | up =>
      cases start with
      | zero =>
        have hup : ¬∀ front, front <+: parts → ups (.up :: front) ≤ 0 + names (.up :: front) :=
          fun h => by simpa using h [] List.nil_prefix
        rw [depth?]
        simp only [hup, and_false, false_and, reduceCtorEq]
      | succ start =>
        have hcount : ∀ front : List Part,
            ups (.up :: front) ≤ start + 1 + names (.up :: front) ↔
              ups front ≤ start + names front := fun front => by
          rw [ups_cons_up, names_cons_up]
          omega
        have hdepth : depth + ups (.up :: parts) = start + 1 + names (.up :: parts) ↔
            depth + ups parts = start + names parts := by
          rw [ups_cons_up, names_cons_up]
          omega
        simp only [depth?, ih, hcount, hdepth]
        simp
    | name text =>
      have hcount : ∀ front : List Part,
          ups (.name text :: front) ≤ start + names (.name text :: front) ↔
            ups front ≤ start + 1 + names front := fun front => by
        rw [ups_cons_name, names_cons_name]
        omega
      have hdepth : depth + ups (.name text :: parts) = start + names (.name text :: parts) ↔
          depth + ups parts = start + 1 + names parts := by
        rw [ups_cons_name, names_cons_name]
        omega
      simp only [depth?, ih, hcount, hdepth]
      simp

theorem staysBelow_iff {p : Path} : p.staysBelow = true ↔ Descends p.parts := by
  rw [staysBelow, Option.any_eq_true]
  simp only [depth?_eq_some_iff, Nat.zero_add, decide_eq_true_eq]
  constructor
  · rintro ⟨depth, ⟨hroot, hfront, hdepth⟩, hpos⟩
    exact ⟨hroot, hfront, by omega⟩
  · rintro ⟨hroot, hfront, hbelow⟩
    exact ⟨names p.parts - ups p.parts, ⟨hroot, hfront, by omega⟩, by omega⟩

/-- The last name of the trail is cancelled, however the trail begins. -/
theorem followPart_up (start : List Part) (texts : List Text) (text : Text) :
    followPart (start ++ (texts ++ [text]).map .name) .up = start ++ texts.map .name := by
  have hreverse : (start ++ (texts ++ [text]).map Part.name).reverse =
      .name text :: (start ++ texts.map Part.name).reverse := by simp
  rw [followPart, hreverse, List.eraseP_cons_of_pos rfl, List.reverse_reverse]

theorem followPart_name (start : List Part) (texts : List Text) (text : Text) :
    followPart (start ++ texts.map .name) (.name text) =
      start ++ (texts ++ [text]).map .name := by
  simp [followPart]

/-- With enough names in front of every `..`, only names of the parts themselves are cancelled. -/
theorem exists_resolve_eq (start : List Part) {parts : List Part} (texts : List Text)
    (hroot : .root ∉ parts)
    (henough : ∀ front, front <+: parts → ups front ≤ texts.length + names front) :
    ∃ left : List Text, resolve (start ++ texts.map .name) parts = start ++ left.map .name ∧
      left.length + ups parts = texts.length + names parts := by
  induction parts generalizing texts with
  | nil => exact ⟨texts, rfl, rfl⟩
  | cons part parts ih =>
    obtain ⟨hpart, hrest⟩ := not_or.mp (List.mem_cons.not.mp hroot)
    obtain ⟨-, henough⟩ := forall_prefix_cons.mp henough
    cases part with
    | root => exact absurd rfl hpart
    | here =>
      obtain ⟨left, hleft, hlength⟩ := ih texts hrest fun front hfront => by
        simpa using henough front hfront
      exact ⟨left, hleft, by simpa using hlength⟩
    | up =>
      rcases List.eq_nil_or_concat texts with rfl | ⟨texts, text, rfl⟩
      · exact absurd (henough [] List.nil_prefix) (by simp)
      · obtain ⟨left, hleft, hlength⟩ := ih texts hrest fun front hfront => by
          have := henough front hfront
          simp only [List.concat_eq_append, List.length_append, List.length_singleton, ups_cons_up,
            names_cons_up] at this
          omega
        refine ⟨left, ?_, ?_⟩
        · rw [List.concat_eq_append]
          exact (congrArg (resolve · parts) (followPart_up start texts text)).trans hleft
        · rw [List.concat_eq_append, List.length_append, List.length_singleton, ups_cons_up,
            names_cons_up]
          omega
    | name text =>
      obtain ⟨left, hleft, hlength⟩ := ih (texts ++ [text]) hrest fun front hfront => by
        have := henough front hfront
        simp only [List.length_append, List.length_singleton, ups_cons_name, names_cons_name]
          at this ⊢
        omega
      refine ⟨left, ?_, ?_⟩
      · exact (congrArg (resolve · parts) (followPart_name start texts text)).trans hleft
      · rw [List.length_append, List.length_singleton] at hlength
        rw [ups_cons_name, names_cons_name]
        omega

theorem filter_filterMap_partOf? (segments : List Text) :
    (segments.filterMap partOf?).filter (· != .here) = segments.filterMap partOf? := by
  refine List.filter_eq_self.mpr fun part hpart => ?_
  obtain ⟨segment, -, hsegment⟩ := List.mem_filterMap.mp hpart
  rw [partOf?] at hsegment
  split at hsegment
  · cases hsegment
  · split at hsegment <;> obtain rfl := Option.some.inj hsegment <;> rfl

/-- The steps of a relative path are those of its segments. -/
theorem filterMap_cut_of_relative {p : Path} (h : p.isAbsolute = false) :
    (p.spelling.cut '/').filterMap partOf? = p.parts.filter (· != .here) := by
  obtain ⟨spelling⟩ := p
  rcases spelling_cases spelling with rfl | ⟨rest, rfl⟩ | rfl | ⟨rest, rfl⟩ | hname
  · rfl
  · cases h
  · rfl
  · exact (filter_filterMap_partOf? (Text.cut '/' rest)).symm
  · rw [parts, segments, hname.anchor]
    exact (filter_filterMap_partOf? _).symm

/-- A relative path put below another one adds its steps to the steps of that one. -/
theorem filter_parts_join (above : Path) {below : Path} (h : below.isAbsolute = false) :
    (above.join below).parts.filter (· != .here) =
      (above.parts ++ below.parts).filter (· != .here) := by
  by_cases hempty : above.spelling = []
  · have hjoin : above.join below = below := by
      rw [join, if_neg (by simp [h]), if_pos (.inl hempty), hempty]
      rfl
    have hparts : above.parts = [] := by
      rw [parts, segments, anchor, hempty]
      rfl
    rw [hjoin, hparts, List.nil_append]
  · obtain ⟨segments, hanchor, hsegments, hsteps⟩ := exists_segments_join hempty h
    have hjoin : (above.join below).parts =
        above.parts ++ below.parts.filter (· != .here) := by
      rw [parts, hanchor, hsegments, List.filterMap_append, hsteps, filterMap_cut_of_relative h,
        ← List.append_assoc, ← parts]
    rw [hjoin, List.filter_append, List.filter_append, List.filter_filter]
    simp only [Bool.and_self]

theorem isAbsolute_eq_false_of_root {p : Path} (h : .root ∉ p.parts) : p.isAbsolute = false := by
  rw [isAbsolute, beq_eq_false_iff_ne]
  intro hanchor
  exact h (by rw [parts, hanchor]; exact List.mem_cons_self)

end Path

/--
A fixture is made exactly for the paths that lead nowhere above their start and end below it. It is
then at the root and the steps of its path, which pass and reach names below the root only: none of
them cancels a part of the root. All other paths are out of bounds.
-/
theorem Fixture.create_contained (root path : Path) :
    ((∃ x, create root path = .ok x) ↔ Path.Descends path.parts) ∧
    (∀ x, create root path = .ok x → x.root = root ∧ x.path = path ∧
      x.location.parts.filter (· != .here) = (root.parts ++ path.parts).filter (· != .here) ∧
      (∀ front, front <+: path.parts → ∃ left : List Text,
        Path.resolve root.parts front = root.parts ++ left.map .name) ∧
      ∃ left : List Text, left ≠ [] ∧
        Path.resolve root.parts path.parts = root.parts ++ left.map .name) ∧
    (¬Path.Descends path.parts →
      create root path = .error (.outOfBounds root (root.join path))) := by
  rw [← Path.staysBelow_iff]
  unfold create
  refine ⟨?_, ?_, ?_⟩
  · split
    · next h => exact ⟨fun _ => h, fun _ => ⟨_, rfl⟩⟩
    · next h => exact ⟨nofun, fun h' => absurd h' h⟩
  · intro x hx
    split at hx
    · next hbelow =>
      obtain rfl := Except.ok.inj hx
      obtain ⟨hrelative, hfront, hends⟩ := Path.staysBelow_iff.mp hbelow
      have hresolve : ∀ front, front <+: path.parts → ∃ left : List Text,
          Path.resolve root.parts front = root.parts ++ left.map .name ∧
            left.length + Path.ups front = Path.names front := fun front h => by
        have hparts := Path.exists_resolve_eq root.parts [] (fun hroot => hrelative (h.mem hroot))
          (fun earlier hearlier => by simpa using hfront earlier (hearlier.trans h))
        simpa using hparts
      refine ⟨rfl, rfl, ?_, fun front h => ?_, ?_⟩
      · exact Path.filter_parts_join root (Path.isAbsolute_eq_false_of_root hrelative)
      · obtain ⟨left, hleft, -⟩ := hresolve front h
        exact ⟨left, hleft⟩
      · obtain ⟨left, hleft, hlength⟩ := hresolve path.parts List.prefix_rfl
        refine ⟨left, ?_, hleft⟩
        rintro rfl
        rw [List.length_nil] at hlength
        omega
    · cases hx
  · intro h
    rw [dif_neg h]
    rfl

end NoticeCheck
