import Ezthread.Activation
import Ezthread.RingBuffer
import Ezthread.Transition
import Mathlib.Data.Int.DivMod

/-! `MPMCQueue` of atomic.hpp, one step for each atomic access and each access to
a cell's data. Positions and sequences are `size_t` values of `w` bits; the two
overloads of `Push` differ only in how the item is assigned. -/
namespace Ezthread.MpmcQueue
open Transition Activation RingBuffer

variable {α : Type*}

structure Cell (α : Type*) where
  data : α
  sequence : Nat

inductive Operation (α : Type*)
  | push (item : α)
  | pop
  deriving DecidableEq

/-- Where a call stands: the next access it will make, with its local variables. -/
inductive Point (α : Type*)
  | loadPosition
  | loadSequence (pos : Nat)
  | exchange (pos : Nat)
  | writeData (pos : Nat)
  | storePushed (pos : Nat)
  | readData (pos : Nat)
  | storePopped (pos : Nat) (item : α)
  | pushed (pos : Nat)
  | popped (pos : Nat) (item : α)
  | refused
  deriving DecidableEq

structure Call (α : Type*) where
  operation : Operation α
  point : Point α
  deriving DecidableEq

/-- `pushed` is no memory of the program: it lists the items of the `Push` calls
in the order of their successful exchanges on `m_tail`. -/
structure State (α : Type*) where
  head : Nat
  tail : Nat
  buffer : Nat → Cell α
  calls : List (Call α)
  pushed : List α

/-- The constructor's loop stores each cell's index as its sequence. -/
def init (data : Nat → α) : State α := ⟨0,0,fun i => ⟨data i,i⟩,[],[]⟩

/-- `fail` is a spurious failure of `compare_exchange_weak`. -/
inductive Label (α : Type*)
  | invoke (operation : Operation α)
  | access (i : Nat)
  | fail (i : Nat)

def slot (capacity pos : Nat) : Nat := pos &&& (capacity - 1)

def State.cell (s : State α) (capacity pos : Nat) : Cell α := s.buffer (slot capacity pos)

def State.goto (s : State α) (i : Nat) (call : Call α) : State α :=
  {s with calls := s.calls.set i call}

def State.setCell (s : State α) (capacity pos : Nat) (cell : Cell α) : State α :=
  {s with buffer := Function.update s.buffer (slot capacity pos) cell}

/-- `static_cast<intptr_t>(seq) - static_cast<intptr_t>(pos)` in two's complement. -/
def diff (w seq pos : Nat) : Int :=
  ((seq : Int).bmod (2 ^ w) - (pos : Int).bmod (2 ^ w)).bmod (2 ^ w)

def compared (difference : Int) (pos : Nat) : Point α :=
  if difference = 0 then .exchange pos else if difference < 0 then .refused else .loadPosition

/-- The next access of a call; a failed exchange stores the position it found.
`moved` is what `std::move` leaves in the cell. -/
def advance (moved : α → α) (w capacity : Nat) (s : State α) (i : Nat) : Call α → Option (State α)
  | ⟨.push item,.loadPosition⟩ => some (s.goto i ⟨.push item,.loadSequence s.tail⟩)
  | ⟨.push item,.loadSequence pos⟩ =>
      some (s.goto i ⟨.push item,compared (diff w (s.cell capacity pos).sequence pos) pos⟩)
  | ⟨.push item,.exchange pos⟩ =>
      if s.tail = pos then
        some {s.goto i ⟨.push item,.writeData pos⟩ with
          tail := (pos + 1) % 2 ^ w, pushed := s.pushed ++ [item]}
      else some (s.goto i ⟨.push item,.loadSequence s.tail⟩)
  | ⟨.push item,.writeData pos⟩ =>
      some ((s.goto i ⟨.push item,.storePushed pos⟩).setCell capacity pos
        {s.cell capacity pos with data := item})
  | ⟨.push item,.storePushed pos⟩ =>
      some ((s.goto i ⟨.push item,.pushed pos⟩).setCell capacity pos
        {s.cell capacity pos with sequence := (pos + 1) % 2 ^ w})
  | ⟨.pop,.loadPosition⟩ => some (s.goto i ⟨.pop,.loadSequence s.head⟩)
  | ⟨.pop,.loadSequence pos⟩ =>
      some (s.goto i ⟨.pop,compared (diff w (s.cell capacity pos).sequence ((pos + 1) % 2 ^ w)) pos⟩)
  | ⟨.pop,.exchange pos⟩ =>
      if s.head = pos then
        some {s.goto i ⟨.pop,.readData pos⟩ with head := (pos + 1) % 2 ^ w}
      else some (s.goto i ⟨.pop,.loadSequence s.head⟩)
  | ⟨.pop,.readData pos⟩ =>
      some ((s.goto i ⟨.pop,.storePopped pos (s.cell capacity pos).data⟩).setCell capacity pos
        {s.cell capacity pos with data := moved (s.cell capacity pos).data})
  | ⟨.pop,.storePopped pos item⟩ =>
      some ((s.goto i ⟨.pop,.popped pos item⟩).setCell capacity pos
        {s.cell capacity pos with sequence := (pos + capacity) % 2 ^ w})
  | _ => none

def step (moved : α → α) (w capacity : Nat) (s : State α) : Label α → Option (State α)
  | .invoke operation => some {s with calls := s.calls ++ [⟨operation,.loadPosition⟩]}
  | .access i => (s.calls[i]?).bind (advance moved w capacity s i)
  | .fail i =>
      match s.calls[i]? with
      | some ⟨.push item,.exchange _⟩ => some (s.goto i ⟨.push item,.loadSequence s.tail⟩)
      | some ⟨.pop,.exchange _⟩ => some (s.goto i ⟨.pop,.loadSequence s.head⟩)
      | _ => none

/-- All a step can do, one constructor for each access with its guard. -/
inductive Moves (moved : α → α) (w capacity : Nat) (s : State α) : State α → Prop
  | invoke (operation) : Moves moved w capacity s {s with calls := s.calls ++ [⟨operation,.loadPosition⟩]}
  | loadTail (i item point) (found : s.calls[i]? = some ⟨.push item,point⟩)
      (loads : point = .loadPosition ∨ ∃ pos, point = .exchange pos) :
      Moves moved w capacity s (s.goto i ⟨.push item,.loadSequence s.tail⟩)
  | comparePush (i item pos) (found : s.calls[i]? = some ⟨.push item,.loadSequence pos⟩) :
      Moves moved w capacity s
        (s.goto i ⟨.push item,compared (diff w (s.cell capacity pos).sequence pos) pos⟩)
  | claimPush (i item) (found : s.calls[i]? = some ⟨.push item,.exchange s.tail⟩) :
      Moves moved w capacity s {s.goto i ⟨.push item,.writeData s.tail⟩ with
        tail := (s.tail + 1) % 2 ^ w, pushed := s.pushed ++ [item]}
  | writeData (i item pos) (found : s.calls[i]? = some ⟨.push item,.writeData pos⟩) :
      Moves moved w capacity s ((s.goto i ⟨.push item,.storePushed pos⟩).setCell capacity pos
        {s.cell capacity pos with data := item})
  | storePushed (i item pos) (found : s.calls[i]? = some ⟨.push item,.storePushed pos⟩) :
      Moves moved w capacity s ((s.goto i ⟨.push item,.pushed pos⟩).setCell capacity pos
        {s.cell capacity pos with sequence := (pos + 1) % 2 ^ w})
  | loadHead (i point) (found : s.calls[i]? = some ⟨.pop,point⟩)
      (loads : point = .loadPosition ∨ ∃ pos, point = .exchange pos) :
      Moves moved w capacity s (s.goto i ⟨.pop,.loadSequence s.head⟩)
  | comparePop (i pos) (found : s.calls[i]? = some ⟨.pop,.loadSequence pos⟩) :
      Moves moved w capacity s
        (s.goto i ⟨.pop,compared (diff w (s.cell capacity pos).sequence ((pos + 1) % 2 ^ w)) pos⟩)
  | claimPop (i) (found : s.calls[i]? = some ⟨.pop,.exchange s.head⟩) :
      Moves moved w capacity s {s.goto i ⟨.pop,.readData s.head⟩ with head := (s.head + 1) % 2 ^ w}
  | readData (i pos) (found : s.calls[i]? = some ⟨.pop,.readData pos⟩) :
      Moves moved w capacity s
        ((s.goto i ⟨.pop,.storePopped pos (s.cell capacity pos).data⟩).setCell capacity pos
          {s.cell capacity pos with data := moved (s.cell capacity pos).data})
  | storePopped (i pos item) (found : s.calls[i]? = some ⟨.pop,.storePopped pos item⟩) :
      Moves moved w capacity s ((s.goto i ⟨.pop,.popped pos item⟩).setCell capacity pos
        {s.cell capacity pos with sequence := (pos + capacity) % 2 ^ w})

theorem step_moves (moved : α → α) (w capacity : Nat) (s t : State α) (label : Label α)
    (taken : step moved w capacity s label = some t) : Moves moved w capacity s t := by
  cases label with
  | invoke operation =>
    cases taken
    exact .invoke operation
  | fail i =>
    simp only [step] at taken
    split at taken
    next item pos found =>
      cases taken
      exact .loadTail i item _ found (.inr ⟨pos,rfl⟩)
    next pos found =>
      cases taken
      exact .loadHead i _ found (.inr ⟨pos,rfl⟩)
    next => contradiction
  | access i =>
    obtain ⟨call,found,accessed⟩ := Option.bind_eq_some_iff.mp taken
    unfold advance at accessed
    split at accessed
    next item =>
      cases accessed
      exact .loadTail i item _ found (.inl rfl)
    next item pos =>
      cases accessed
      exact .comparePush i item pos found
    next item pos =>
      split at accessed
      next same =>
        subst same
        cases accessed
        exact .claimPush i item found
      next =>
        cases accessed
        exact .loadTail i item _ found (.inr ⟨pos,rfl⟩)
    next item pos =>
      cases accessed
      exact .writeData i item pos found
    next item pos =>
      cases accessed
      exact .storePushed i item pos found
    next =>
      cases accessed
      exact .loadHead i _ found (.inl rfl)
    next pos =>
      cases accessed
      exact .comparePop i pos found
    next pos =>
      split at accessed
      next same =>
        subst same
        cases accessed
        exact .claimPop i found
      next =>
        cases accessed
        exact .loadHead i _ found (.inr ⟨pos,rfl⟩)
    next pos =>
      cases accessed
      exact .readData i pos found
    next pos item =>
      cases accessed
      exact .storePopped i pos item found
    next => contradiction

end Ezthread.MpmcQueue
