/-! Insertion sort under a three-way comparison. Elements that are level keep their order. -/
namespace NoticeCheck

universe u

variable {α : Type u}

/-- Put `a` before the first element that is not below it. -/
def insertBy (order : α → α → Ordering) (a : α) : List α → List α
  | [] => [a]
  | b :: l => if (order a b).isLE then a :: b :: l else b :: insertBy order a l

def sortBy (order : α → α → Ordering) : List α → List α
  | [] => []
  | a :: l => insertBy order a (sortBy order l)

theorem insertBy_perm (order : α → α → Ordering) (a : α) (l : List α) :
    (insertBy order a l).Perm (a :: l) := by
  induction l with
  | nil => exact .refl _
  | cons b l ih =>
    rw [insertBy]
    split
    · exact .refl _
    · exact (ih.cons b).trans (.swap a b l)

theorem sortBy_perm (order : α → α → Ordering) (l : List α) : (sortBy order l).Perm l := by
  induction l with
  | nil => exact .refl _
  | cons a l ih => exact (insertBy_perm order a _).trans (ih.cons a)

end NoticeCheck
