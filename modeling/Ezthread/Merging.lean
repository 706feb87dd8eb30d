import Mathlib.Data.List.Perm.Basic
import Mathlib.Order.Defs.Unbundled
import Mathlib.Tactic.Common

/-! Merging any number of sorted lists by taking, again and again, a front element
that no other front element precedes. -/
namespace Ezthread.Merging

variable {α : Type*} {lt : α → α → Prop}

/-- No element precedes one in front of it. -/
def Sorted (lt : α → α → Prop) (list : List α) : Prop := list.Pairwise fun a b => ¬ lt b a

def Least (lt : α → α → Prop) (lists : List (List α)) (x : α) : Prop :=
  ∀ list ∈ lists, ∀ y ∈ list.head?, ¬ lt y x

inductive Merges (lt : α → α → Prop) : List (List α) → List α → Prop
  | done {lists : List (List α)} (empty : ∀ list ∈ lists, list = []) : Merges lt lists []
  | take {lists : List (List α)} {i : Nat} {x : α} {rest merged : List α} (found : lists[i]? = some (x :: rest))
      (least : Least lt lists x) (tail : Merges lt (lists.set i rest) merged) : Merges lt lists (x :: merged)

theorem flatten_take {lists : List (List α)} {i : Nat} {x : α} {rest : List α}
    (found : lists[i]? = some (x :: rest)) : lists.flatten.Perm (x :: (lists.set i rest).flatten) := by
  induction lists generalizing i with
  | nil => simp at found
  | cons list others ih =>
    cases i with
    | zero =>
      cases found
      exact List.Perm.refl _
    | succ i =>
      have moved := ih (i := i) (by simpa using found)
      calc (list :: others).flatten = list ++ others.flatten := rfl
        _ |>.Perm (list ++ x :: (others.set i rest).flatten) := moved.append_left list
        _ |>.Perm (x :: (list ++ (others.set i rest).flatten)) := List.perm_middle

theorem Merges.perm {lists : List (List α)} {merged : List α} (merges : Merges lt lists merged) :
    merged.Perm lists.flatten := by
  induction merges with
  | done empty => rw [List.flatten_eq_nil_iff.mpr empty]
  | take found least tail ih => exact (ih.cons _).trans (flatten_take found).symm

/-- A merge takes the elements of each list in their order. -/
theorem Merges.sublist {lists : List (List α)} {merged : List α} (merges : Merges lt lists merged) :
    ∀ list ∈ lists, list.Sublist merged := by
  induction merges with
  | done empty =>
    intro list member
    rw [empty list member]
  | @take lists i x rest merged found least tail ih =>
    intro list member
    obtain ⟨j,present⟩ := List.mem_iff_getElem?.mp member
    by_cases own : i = j
    · subst own
      cases found.symm.trans present
      exact (ih rest (List.mem_of_getElem? (List.getElem?_set_self (List.getElem?_eq_some_iff.mp found).1))).cons_cons x
    · exact (ih list (List.mem_of_getElem? ((List.getElem?_set_ne own).trans present))).cons x

/-- So it is sorted only if the lists are. -/
theorem Merges.sorted_lists {lists : List (List α)} {merged : List α} (merges : Merges lt lists merged)
    (sorted : Sorted lt merged) : ∀ list ∈ lists, Sorted lt list :=
  fun list member => sorted.sublist (merges.sublist list member)

section Order
variable [IsStrictWeakOrder α lt]

theorem not_lt_trans {a b c : α} (first : ¬ lt a b) (second : ¬ lt b c) : ¬ lt a c := by
  intro less
  have below : ¬ lt b a := fun back => second (trans_of lt back less)
  have above : ¬ lt c b := fun back => first (trans_of lt less back)
  exact (IsStrictWeakOrder.incomp_trans a b c ⟨first,below⟩ ⟨second,above⟩).1 less

/-- A front element that no front element precedes is preceded by none at all. -/
theorem Least.all {lists : List (List α)} {x : α} (least : Least lt lists x)
    (sorted : ∀ list ∈ lists, Sorted lt list) : ∀ y ∈ lists.flatten, ¬ lt y x := by
  intro y member
  obtain ⟨list,inside,present⟩ := List.mem_flatten.mp member
  cases list with
  | nil => simp at present
  | cons front rest =>
    have first : ¬ lt front x := least _ inside front rfl
    rcases List.mem_cons.mp present with rfl | later
    · exact first
    · exact not_lt_trans ((List.pairwise_cons.mp (sorted _ inside)).1 y later) first

theorem Merges.sorted {lists : List (List α)} {merged : List α} (merges : Merges lt lists merged)
    (sorted : ∀ list ∈ lists, Sorted lt list) : Sorted lt merged := by
  induction merges with
  | done empty => exact List.Pairwise.nil
  | @take lists i x rest merged found least tail ih =>
    have whole := sorted _ (List.mem_of_getElem? found)
    have kept : ∀ list ∈ lists.set i rest, Sorted lt list := by
      intro list member
      rcases List.mem_or_eq_of_mem_set member with old | rfl
      · exact sorted list old
      · exact (List.pairwise_cons.mp whole).2
    apply List.pairwise_cons.mpr
    refine ⟨fun y member => ?_,ih kept⟩
    have inside := (flatten_take found).symm.subset (List.mem_cons_of_mem x (tail.perm.subset member))
    exact least.all sorted y inside

end Order

end Ezthread.Merging
