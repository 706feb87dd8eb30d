import Mathlib.Data.List.Basic
import Mathlib.Data.List.Perm.Basic
import Mathlib.Tactic.Common

/-! Last-in first-out histories: the order in which the operations on a stack
took effect, each tagged with its caller, and the stack they leave behind. -/
namespace Ezthread.Lifo

variable {Caller Value : Type*}

inductive Event (Caller Value : Type*)
  | push (caller : Caller) (value : Value)
  | pop (caller : Caller) (value : Value)

def Event.caller : Event Caller Value → Caller
  | .push caller _ => caller
  | .pop caller _ => caller

def Event.pushed : Event Caller Value → Option Value
  | .push _ value => some value
  | .pop _ _ => none

def Event.popped : Event Caller Value → Option Value
  | .push _ _ => none
  | .pop _ value => some value

/-- A history that starts from the empty stack and leaves the given one. A pop
may only take the value that is then on top. -/
inductive Leaves : List (Event Caller Value) → List Value → Prop
  | nil : Leaves [] []
  | push {history values} (caller value) (before : Leaves history values) :
      Leaves (history ++ [.push caller value]) (value :: values)
  | pop {history values} (caller value) (before : Leaves history (value :: values)) :
      Leaves (history ++ [.pop caller value]) values

/-- Nothing is lost and nothing is taken twice: the values pushed are those
popped together with those still stacked, each as often as it was pushed. -/
theorem Leaves.conserved {history : List (Event Caller Value)} {values : List Value}
    (leaves : Leaves history values) :
    (history.filterMap Event.pushed).Perm (history.filterMap Event.popped ++ values) := by
  induction leaves with
  | nil => exact .refl _
  | @push history values caller value before ih =>
    simp only [List.filterMap_append,List.filterMap_cons,List.filterMap_nil,Event.pushed,
      Event.popped,List.append_nil]
    exact (ih.append_right [value]).trans (by
      rw [List.append_assoc]
      exact List.Perm.append_left _ List.perm_append_comm)
  | @pop history values caller value before ih =>
    simpa only [List.filterMap_append,List.filterMap_cons,List.filterMap_nil,Event.pushed,
      Event.popped,List.append_nil,List.append_assoc,List.singleton_append] using ih

theorem Leaves.of_nil {values : List Value} (leaves : Leaves ([] : List (Event Caller Value)) values) :
    values = [] := by
  generalize shape : ([] : List (Event Caller Value)) = whole at leaves
  cases leaves with
  | nil => rfl
  | push | pop => simp at shape

theorem Leaves.of_push {history : List (Event Caller Value)} {caller : Caller} {value : Value}
    {values : List Value} (leaves : Leaves (history ++ [.push caller value]) values) :
    ∃ rest, values = value :: rest ∧ Leaves history rest := by
  generalize shape : history ++ [.push caller value] = whole at leaves
  cases leaves with
  | nil => simp at shape
  | @push earlier rest other top before =>
    obtain ⟨rfl,last⟩ := List.append_inj' shape rfl
    cases last
    exact ⟨rest,rfl,before⟩
  | pop =>
    obtain ⟨_,last⟩ := List.append_inj' shape rfl
    cases last

theorem Leaves.of_pop {history : List (Event Caller Value)} {caller : Caller} {value : Value}
    {values : List Value} (leaves : Leaves (history ++ [.pop caller value]) values) :
    Leaves history (value :: values) := by
  generalize shape : history ++ [.pop caller value] = whole at leaves
  cases leaves with
  | nil => simp at shape
  | push =>
    obtain ⟨_,last⟩ := List.append_inj' shape rfl
    cases last
  | @pop earlier rest other top before =>
    obtain ⟨rfl,last⟩ := List.append_inj' shape rfl
    cases last
    exact before

theorem Leaves.unique {history : List (Event Caller Value)} {first second : List Value}
    (left : Leaves history first) (right : Leaves history second) : first = second := by
  induction left generalizing second with
  | nil => exact right.of_nil.symm
  | push caller value before ih =>
    obtain ⟨rest,rfl,earlier⟩ := right.of_push
    rw [ih earlier]
  | pop caller value before ih => exact (List.cons.inj (ih right.of_pop)).2

/-- The effect of one more step on the stack: none, a push or a pop. -/
def Acts (before after : List (Event Caller Value)) (values changed : List Value) : Prop :=
  (after = before ∧ changed = values) ∨
  (∃ caller value, after = before ++ [.push caller value] ∧ changed = value :: values) ∨
  (∃ caller value, after = before ++ [.pop caller value] ∧ values = value :: changed)

theorem Leaves.acts {before after : List (Event Caller Value)} {values changed : List Value}
    (left : Leaves before values) (right : Leaves after changed)
    (grown : after = before ∨ ∃ event, after = before ++ [event]) : Acts before after values changed := by
  rcases grown with rfl | ⟨event,rfl⟩
  · exact Or.inl ⟨rfl,right.unique left⟩
  · cases event with
    | push caller value =>
      obtain ⟨rest,rfl,earlier⟩ := right.of_push
      exact Or.inr (Or.inl ⟨caller,value,rfl,by rw [earlier.unique left]⟩)
    | pop caller value => exact Or.inr (Or.inr ⟨caller,value,rfl,left.unique right.of_pop⟩)

end Ezthread.Lifo
