import Ezthread.Lifo

/-! First-in first-out histories: the order in which the operations on a queue took
effect, and the queue they leave behind. -/
namespace Ezthread.Fifo
open Lifo (Event)

variable {Caller Value : Type*}

/-- A history that starts from the empty queue. A pop may only take the value that
has been in the queue for the longest time. -/
inductive Leaves : List (Event Caller Value) → List Value → Prop
  | nil : Leaves [] []
  | push {history values} (caller value) (before : Leaves history values) :
      Leaves (history ++ [.push caller value]) (values ++ [value])
  | pop {history values} (caller value) (before : Leaves history (value :: values)) :
      Leaves (history ++ [.pop caller value]) values

/-- The values popped are the first ones pushed, in the order of the pushes, and
those still queued are the others. -/
theorem Leaves.in_order {history : List (Event Caller Value)} {values : List Value} (leaves : Leaves history values) :
    history.filterMap Event.pushed = history.filterMap Event.popped ++ values := by
  induction leaves with
  | nil => rfl
  | @push history values caller value before ih =>
    simp only [List.filterMap_append,List.filterMap_cons,List.filterMap_nil,Event.pushed,Event.popped,List.append_nil,
      ih,List.append_assoc]
  | @pop history values caller value before ih =>
    simp only [List.filterMap_append,List.filterMap_cons,List.filterMap_nil,Event.pushed,Event.popped,List.append_nil,
      ih,List.append_assoc,List.singleton_append]

def ofCaller [DecidableEq Caller] (history : List (Event Caller Value)) (caller : Caller) : List (Event Caller Value) :=
  history.filter (fun event => event.caller = caller)

section Callers
variable [DecidableEq Caller] {history : List (Event Caller Value)} {event : Event Caller Value}

theorem ofCaller_own (history : List (Event Caller Value)) (event : Event Caller Value) :
    ofCaller (history ++ [event]) event.caller = ofCaller history event.caller ++ [event] := by
  simp [ofCaller]

theorem ofCaller_other {caller : Caller} (other : caller ≠ event.caller) :
    ofCaller (history ++ [event]) caller = ofCaller history caller := by
  simp [ofCaller,Ne.symm other]

theorem ofCaller_none {caller : Caller} (none : ∀ event ∈ history, event.caller ≠ caller) : ofCaller history caller = [] := by
  simpa [ofCaller] using none

end Callers

end Ezthread.Fifo
