import Ezthread.Activation
import Ezthread.Lifo
import Ezthread.Transition
import Mathlib.Data.List.Nodup
import Mathlib.Logic.Function.Basic

/-! `LockFreeStack` of atomic.hpp, one step for each access to shared memory.
A node address is a number and the null pointer is `none`. `Pop` frees nothing,
so `new Node` returns an address no earlier node has had. The two overloads of
`Push` differ only in how the argument reaches the node. -/
namespace Ezthread.LockFreeStack
open Transition Activation Lifo

variable {α : Type*}

structure Node (α : Type*) where
  data : α
  next : Option Nat

inductive Operation (α : Type*)
  | push (value : α)
  | pop

/-- Where a call stands: the next access it will make, with its local variables. -/
inductive Point (α : Type*)
  | start
  | loadHead (newNode : Nat)
  | linkNext (newNode : Nat) (oldHead : Option Nat)
  | publish (newNode : Nat) (oldHead : Option Nat)
  | readNext (current : Nat)
  | unlink (current : Nat) (next : Option Nat)
  | takeData (current : Nat)
  | pushed
  | popped (value : α)
  | empty

structure Call (α : Type*) where
  operation : Operation α
  point : Point α

/-- `history` is no memory of the program: it records the successful exchanges
on `m_head` in their order. -/
structure State (α : Type*) where
  head : Option Nat
  heap : Nat → Option (Node α)
  calls : List (Call α)
  history : List (Event Nat α)

def init : State α := ⟨none,fun _ => none,[],[]⟩

/-- `invoke` begins a call, `alloc` is `new Node(value)` with the address it
returns, and `fail` is a spurious failure of `compare_exchange_weak`. -/
inductive Label (α : Type*)
  | invoke (operation : Operation α)
  | alloc (i : Nat) (address : Nat)
  | access (i : Nat)
  | fail (i : Nat)

def State.goto (s : State α) (i : Nat) (call : Call α) : State α :=
  {s with calls := s.calls.set i call}

def whileCurrent : Option Nat → Point α
  | none => .empty
  | some current => .readNext current

/-- The next access of a call; a failed exchange stores the value it found.
`moved` is what `std::move` leaves in the node. -/
def advance (moved : α → α) (s : State α) (i : Nat) : Call α → Option (State α)
  | ⟨.push value,.loadHead newNode⟩ => some (s.goto i ⟨.push value,.linkNext newNode s.head⟩)
  | ⟨.push value,.linkNext newNode oldHead⟩ => (s.heap newNode).map fun node =>
      {s.goto i ⟨.push value,.publish newNode oldHead⟩ with
        heap := Function.update s.heap newNode (some {node with next := oldHead})}
  | ⟨.push value,.publish newNode oldHead⟩ =>
      if s.head = oldHead then
        some {s.goto i ⟨.push value,.pushed⟩ with
          head := some newNode, history := s.history ++ [.push i value]}
      else some (s.goto i ⟨.push value,.linkNext newNode s.head⟩)
  | ⟨.pop,.start⟩ => some (s.goto i ⟨.pop,whileCurrent s.head⟩)
  | ⟨.pop,.readNext current⟩ => (s.heap current).map fun node =>
      s.goto i ⟨.pop,.unlink current node.next⟩
  | ⟨.pop,.unlink current next⟩ =>
      if s.head = some current then (s.heap current).map fun node =>
        {s.goto i ⟨.pop,.takeData current⟩ with
          head := next, history := s.history ++ [.pop i node.data]}
      else some (s.goto i ⟨.pop,whileCurrent s.head⟩)
  | ⟨.pop,.takeData current⟩ => (s.heap current).map fun node =>
      {s.goto i ⟨.pop,.popped node.data⟩ with
        heap := Function.update s.heap current (some {node with data := moved node.data})}
  | _ => none

def step (moved : α → α) (s : State α) : Label α → Option (State α)
  | .invoke operation => some {s with calls := s.calls ++ [⟨operation,.start⟩]}
  | .alloc i address =>
      match s.calls[i]? with
      | some ⟨.push value,.start⟩ =>
          if (s.heap address).isNone then
            some {s.goto i ⟨.push value,.loadHead address⟩ with
              heap := Function.update s.heap address (some ⟨value,none⟩)}
          else none
      | _ => none
  | .access i => (s.calls[i]?).bind (advance moved s i)
  | .fail i =>
      match s.calls[i]? with
      | some ⟨.push value,.publish newNode _⟩ => some (s.goto i ⟨.push value,.linkNext newNode s.head⟩)
      | some ⟨.pop,.unlink _ _⟩ => some (s.goto i ⟨.pop,whileCurrent s.head⟩)
      | _ => none

/-- All a step can do, one constructor for each access with its guard. -/
inductive Moves (moved : α → α) (s : State α) : State α → Prop
  | invoke (operation) : Moves moved s {s with calls := s.calls ++ [⟨operation,.start⟩]}
  | alloc (i address value) (found : s.calls[i]? = some ⟨.push value,.start⟩)
      (fresh : s.heap address = none) :
      Moves moved s {s.goto i ⟨.push value,.loadHead address⟩ with
        heap := Function.update s.heap address (some ⟨value,none⟩)}
  | load (i value newNode) (found : s.calls[i]? = some ⟨.push value,.loadHead newNode⟩) :
      Moves moved s (s.goto i ⟨.push value,.linkNext newNode s.head⟩)
  | link (i value newNode oldHead node)
      (found : s.calls[i]? = some ⟨.push value,.linkNext newNode oldHead⟩)
      (present : s.heap newNode = some node) :
      Moves moved s {s.goto i ⟨.push value,.publish newNode oldHead⟩ with
        heap := Function.update s.heap newNode (some {node with next := oldHead})}
  | publish (i value newNode)
      (found : s.calls[i]? = some ⟨.push value,.publish newNode s.head⟩) :
      Moves moved s {s.goto i ⟨.push value,.pushed⟩ with
        head := some newNode, history := s.history ++ [.push i value]}
  | retry (i value newNode oldHead)
      (found : s.calls[i]? = some ⟨.push value,.publish newNode oldHead⟩) :
      Moves moved s (s.goto i ⟨.push value,.linkNext newNode s.head⟩)
  | current (i point) (found : s.calls[i]? = some ⟨.pop,point⟩)
      (loads : point = .start ∨ ∃ current next, point = .unlink current next) :
      Moves moved s (s.goto i ⟨.pop,whileCurrent s.head⟩)
  | readNext (i current node) (found : s.calls[i]? = some ⟨.pop,.readNext current⟩)
      (present : s.heap current = some node) :
      Moves moved s (s.goto i ⟨.pop,.unlink current node.next⟩)
  | unlink (i current next node) (found : s.calls[i]? = some ⟨.pop,.unlink current next⟩)
      (top : s.head = some current) (present : s.heap current = some node) :
      Moves moved s {s.goto i ⟨.pop,.takeData current⟩ with
        head := next, history := s.history ++ [.pop i node.data]}
  | takeData (i current node) (found : s.calls[i]? = some ⟨.pop,.takeData current⟩)
      (present : s.heap current = some node) :
      Moves moved s {s.goto i ⟨.pop,.popped node.data⟩ with
        heap := Function.update s.heap current (some {node with data := moved node.data})}

theorem step_moves (moved : α → α) (s t : State α) (label : Label α)
    (taken : step moved s label = some t) : Moves moved s t := by
  cases label with
  | invoke operation =>
    cases taken
    exact .invoke operation
  | alloc i address =>
    simp only [step] at taken
    split at taken
    next value found =>
      split at taken
      · next fresh =>
        cases taken
        exact .alloc i address value found (by simpa using fresh)
      · contradiction
    next => contradiction
  | fail i =>
    simp only [step] at taken
    split at taken
    next value newNode oldHead found =>
      cases taken
      exact .retry i value newNode oldHead found
    next current next found =>
      cases taken
      exact .current i _ found (.inr ⟨current,next,rfl⟩)
    next => contradiction
  | access i =>
    obtain ⟨call,found,accessed⟩ := Option.bind_eq_some_iff.mp taken
    unfold advance at accessed
    split at accessed
    next value newNode =>
      cases accessed
      exact .load i value newNode found
    next value newNode oldHead =>
      obtain ⟨node,present,rfl⟩ := Option.map_eq_some_iff.mp accessed
      exact .link i value newNode oldHead node found present
    next value newNode oldHead =>
      split at accessed
      · next same =>
        subst same
        cases accessed
        exact .publish i value newNode found
      · cases accessed
        exact .retry i value newNode oldHead found
    next =>
      cases accessed
      exact .current i _ found (.inl rfl)
    next current =>
      obtain ⟨node,present,rfl⟩ := Option.map_eq_some_iff.mp accessed
      exact .readNext i current node found present
    next current next =>
      split at accessed
      · next top =>
        obtain ⟨node,present,rfl⟩ := Option.map_eq_some_iff.mp accessed
        exact .unlink i current next node found top present
      · cases accessed
        exact .current i _ found (.inr ⟨current,next,rfl⟩)
    next current =>
      obtain ⟨node,present,rfl⟩ := Option.map_eq_some_iff.mp accessed
      exact .takeData i current node found present
    next => contradiction

end Ezthread.LockFreeStack
