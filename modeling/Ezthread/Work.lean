import Ezthread.Callbacks
import Ezthread.Transition

/-! `Work` of async.cpp: any number of objects at addresses, used by one controlling
thread, with their callbacks on pool threads and with calls of `Wait` by any threads.
A pool work is known by the context it was made with, and contexts are numbered as
they are made. `CloseThreadpoolWork` does not wait for callbacks. -/
namespace Ezthread.Work
open Transition Activation Callbacks

abbrev DWORD := BitVec 32

def INFINITE : DWORD := 0xFFFFFFFF

structure WorkContext where
  self : Nat

/-- `mutex` is the callback inside `m_mutex`; the blocks of other threads under it are
one step. `submitted` is no memory of the program: whether `Submit` was called. -/
structure Object where
  work : Option Nat
  context : Option Nat
  complete : Bool
  mutex : Option Nat
  alive : Bool
  submitted : Bool

def Object.absent : Object := ⟨none,none,false,none,false,false⟩
def Object.new : Object := ⟨none,none,false,none,true,false⟩

inductive Phase
  | cancel
  | drain
  | close
  | finish
deriving DecidableEq

/-- Where the controlling thread stands in a call on an object. -/
inductive Control
  | idle
  | creating (i : Nat)
  | submitting (i : Nat)
  | cancelling (i : Nat) (phase : Phase)
deriving DecidableEq

/-- A call of `Wait` tests the flag under the lock, sleeps, or has timed out and wants
the lock back to throw. -/
inductive WaitPoint
  | testing
  | asleep (notified : Bool)
  | late
  | returned
  | threw
deriving DecidableEq

structure Waiter where
  object : Nat
  timeoutMs : DWORD
  point : WaitPoint

/-- `live` are the contexts not freed. -/
structure State where
  objects : Nat → Object
  contexts : Nat → WorkContext
  made : Nat
  live : Nat → Bool
  callbacks : List Callback
  waiters : List Waiter
  control : Control

def init : State := ⟨fun _ => .absent,fun _ => ⟨0⟩,0,fun _ => false,[],[],.idle⟩

/-- The first seven are steps of the controlling thread, the last of them inside a
call, with the success of `CreateThreadpoolWork`; the last five are those of `Wait`. -/
inductive Label
  | construct (i : Nat)
  | moveConstruct (i other : Nat)
  | moveAssign (i other : Nat)
  | submit (i : Nat)
  | cancel (i : Nat)
  | destroy (i : Nat)
  | control (created : Bool)
  | callback (k : Nat)
  | wait (i : Nat) (timeoutMs : DWORD)
  | test (j : Nat)
  | wake (j : Nat)
  | timeout (j : Nat)
  | giveUp (j : Nat)

def State.setObject (s : State) (i : Nat) (object : Object) : State :=
  {s with objects := Function.update s.objects i object}

def State.goto (s : State) (k : Nat) (callback : Callback) : State :=
  {s with callbacks := s.callbacks.set k callback}

def Waiter.notify (i : Nat) (waiter : Waiter) : Waiter :=
  if waiter.object = i ∧ waiter.point = .asleep false then {waiter with point := .asleep true} else waiter

def notifyAll (i : Nat) (waiters : List Waiter) : List Waiter := waiters.map (Waiter.notify i)

/-- The members of a work that a move takes over; `m_complete` is copied. -/
def State.take (s : State) (i other : Nat) (object : Object) : State :=
  let source := s.objects other
  (s.setObject other {source with work := none, context := none}).setObject i
    {object with work := source.work, context := source.context, complete := source.complete, submitted := source.submitted}

/-- `Submit` on a work not submitted, up to the creation of the pool's work. -/
def prepare (s : State) (i : Nat) : State :=
  {s.setObject i {s.objects i with context := some s.made, complete := false, submitted := true} with
    contexts := Function.update s.contexts s.made ⟨i⟩
    made := s.made + 1
    live := Function.update (free (s.objects i).context s.live) s.made true
    control := .creating i}

def cancelStep (s : State) (i : Nat) : Phase → Option State
  | .cancel => (s.objects i).work.map fun c =>
      {s with callbacks := Callbacks.cancel c s.callbacks, control := .cancelling i .drain}
  | .drain => (s.objects i).work.bind fun c =>
      if drained c s.callbacks then some {s with control := .cancelling i .close} else none
  | .close => some {s.setObject i {s.objects i with work := none, context := none} with
      live := free (s.objects i).context s.live, control := .cancelling i .finish}
  | .finish =>
      if (s.objects i).mutex = none then
        some {s.setObject i {s.objects i with complete := true} with waiters := notifyAll i s.waiters, control := .idle}
      else none

/-- The next step of the call in progress. A failed creation throws. -/
def advance (s : State) (created : Bool) : Option State :=
  match s.control with
  | .idle => none
  | .creating i =>
      if created then
        some {s.setObject i {s.objects i with work := (s.objects i).context} with control := .submitting i}
      else some {s.setObject i {s.objects i with work := none, context := none} with
        live := free (s.objects i).context s.live, control := .idle}
  | .submitting i => (s.objects i).work.map fun c =>
      {s with callbacks := s.callbacks ++ [⟨c,.queued⟩], control := .idle}
  | .cancelling i phase => cancelStep s i phase

/-- `WorkCallback`. The function's exceptions are caught, so it just ends. -/
def workCallback (s : State) (k : Nat) : Callback → Option State
  | ⟨c,.queued⟩ => some (s.goto k ⟨c,.running⟩)
  | ⟨c,.running⟩ =>
      let i := (s.contexts c).self
      if (s.objects i).mutex = none then
        some {(s.goto k ⟨c,.unlocking i⟩).setObject i {s.objects i with complete := true, mutex := some k} with
          waiters := notifyAll i s.waiters}
      else none
  | ⟨c,.unlocking i⟩ => some ((s.goto k ⟨c,.ended⟩).setObject i {s.objects i with mutex := none})
  | _ => none

/-- `IsComplete` returns once no callback is inside the mutex. -/
def isComplete (s : State) (i : Nat) : Option Bool :=
  if (s.objects i).mutex = none then some (s.objects i).complete else none

def State.resume (s : State) (j : Nat) (waiter : Waiter) : State :=
  {s with waiters := s.waiters.set j waiter}

def step (s : State) : Label → Option State
  | .construct i =>
      if s.control = .idle ∧ (s.objects i).alive = false then some (s.setObject i .new) else none
  | .moveConstruct i other =>
      if s.control = .idle ∧ (s.objects i).alive = false ∧ (s.objects other).alive = true then
        some (s.take i other .new)
      else none
  | .moveAssign i other =>
      if s.control = .idle ∧ (s.objects i).alive = true ∧ (s.objects other).alive = true then
        some (if i = other then s else {s.take i other (s.objects i) with live := free (s.objects i).context s.live})
      else none
  | .submit i =>
      if s.control = .idle ∧ (s.objects i).alive = true then
        some (if (s.objects i).work.isSome then s else prepare s i)
      else none
  | .cancel i =>
      if s.control = .idle ∧ (s.objects i).alive = true then
        some {s with control := .cancelling i (if (s.objects i).work.isSome then .cancel else .finish)}
      else none
  | .destroy i =>
      if s.control = .idle ∧ (s.objects i).alive = true then
        some {s.setObject i .absent with live := free (s.objects i).context s.live}
      else none
  | .control created => advance s created
  | .callback k => (s.callbacks[k]?).bind (workCallback s k)
  | .wait i timeoutMs =>
      if (s.objects i).alive = true then some {s with waiters := s.waiters ++ [⟨i,timeoutMs,.testing⟩]} else none
  | .test j =>
      match s.waiters[j]? with
      | some ⟨i,timeoutMs,.testing⟩ =>
          if (s.objects i).mutex = none then
            some (s.resume j ⟨i,timeoutMs,if (s.objects i).complete then .returned else .asleep false⟩)
          else none
      | _ => none
  | .wake j =>
      match s.waiters[j]? with
      | some ⟨i,timeoutMs,.asleep _⟩ => some (s.resume j ⟨i,timeoutMs,.testing⟩)
      | _ => none
  | .timeout j =>
      match s.waiters[j]? with
      | some ⟨i,timeoutMs,.asleep _⟩ => if timeoutMs ≠ INFINITE then some (s.resume j ⟨i,timeoutMs,.late⟩) else none
      | _ => none
  | .giveUp j =>
      match s.waiters[j]? with
      | some ⟨i,timeoutMs,.late⟩ =>
          if (s.objects i).mutex = none then some (s.resume j ⟨i,timeoutMs,.threw⟩) else none
      | _ => none

inductive Moves (s : State) : Label → State → Prop
  | construct (i) (idle : s.control = .idle) (absent : (s.objects i).alive = false) :
      Moves s (.construct i) (s.setObject i .new)
  | moveConstruct (i other) (idle : s.control = .idle) (absent : (s.objects i).alive = false)
      (present : (s.objects other).alive = true) : Moves s (.moveConstruct i other) (s.take i other .new)
  | assignSelf (i) : Moves s (.moveAssign i i) s
  | moveAssign (i other) (idle : s.control = .idle) (alive : (s.objects i).alive = true)
      (present : (s.objects other).alive = true) (different : i ≠ other) :
      Moves s (.moveAssign i other) {s.take i other (s.objects i) with live := free (s.objects i).context s.live}
  | refuse (i) : Moves s (.submit i) s
  | submit (i) (idle : s.control = .idle) (alive : (s.objects i).alive = true) (unsubmitted : (s.objects i).work = none) :
      Moves s (.submit i) (prepare s i)
  | cancel (i) (idle : s.control = .idle) (alive : (s.objects i).alive = true) (phase : Phase)
      (begins : phase = if (s.objects i).work.isSome then .cancel else .finish) :
      Moves s (.cancel i) {s with control := .cancelling i phase}
  | destroy (i) (idle : s.control = .idle) (alive : (s.objects i).alive = true) :
      Moves s (.destroy i) {s.setObject i .absent with live := free (s.objects i).context s.live}
  | create (i) (control : s.control = .creating i) : Moves s (.control true)
      {s.setObject i {s.objects i with work := (s.objects i).context} with control := .submitting i}
  | createFails (i) (control : s.control = .creating i) : Moves s (.control false)
      {s.setObject i {s.objects i with work := none, context := none} with
        live := free (s.objects i).context s.live, control := .idle}
  | queue (created i c) (control : s.control = .submitting i) (work : (s.objects i).work = some c) :
      Moves s (.control created) {s with callbacks := s.callbacks ++ [⟨c,.queued⟩], control := .idle}
  | cancelQueued (created i c) (control : s.control = .cancelling i .cancel) (work : (s.objects i).work = some c) :
      Moves s (.control created) {s with callbacks := Callbacks.cancel c s.callbacks, control := .cancelling i .drain}
  | drain (created i c) (control : s.control = .cancelling i .drain) (work : (s.objects i).work = some c)
      (drained : drained c s.callbacks = true) : Moves s (.control created) {s with control := .cancelling i .close}
  | close (created i) (control : s.control = .cancelling i .close) : Moves s (.control created)
      {s.setObject i {s.objects i with work := none, context := none} with
        live := free (s.objects i).context s.live, control := .cancelling i .finish}
  | finish (created i) (control : s.control = .cancelling i .finish) (unlocked : (s.objects i).mutex = none) :
      Moves s (.control created)
        {s.setObject i {s.objects i with complete := true} with waiters := notifyAll i s.waiters, control := .idle}
  | run (k c) (found : s.callbacks[k]? = some ⟨c,.queued⟩) : Moves s (.callback k) (s.goto k ⟨c,.running⟩)
  | complete (k c i) (found : s.callbacks[k]? = some ⟨c,.running⟩) (self : (s.contexts c).self = i)
      (unlocked : (s.objects i).mutex = none) : Moves s (.callback k)
        {(s.goto k ⟨c,.unlocking i⟩).setObject i {s.objects i with complete := true, mutex := some k} with
          waiters := notifyAll i s.waiters}
  | unlock (k c i) (found : s.callbacks[k]? = some ⟨c,.unlocking i⟩) : Moves s (.callback k)
      ((s.goto k ⟨c,.ended⟩).setObject i {s.objects i with mutex := none})
  | wait (i timeoutMs) (alive : (s.objects i).alive = true) :
      Moves s (.wait i timeoutMs) {s with waiters := s.waiters ++ [⟨i,timeoutMs,.testing⟩]}
  | pass (j i timeoutMs) (found : s.waiters[j]? = some ⟨i,timeoutMs,.testing⟩) (complete : (s.objects i).complete = true) :
      Moves s (.test j) (s.resume j ⟨i,timeoutMs,.returned⟩)
  | sleep (j i timeoutMs) (found : s.waiters[j]? = some ⟨i,timeoutMs,.testing⟩) (incomplete : (s.objects i).complete = false) :
      Moves s (.test j) (s.resume j ⟨i,timeoutMs,.asleep false⟩)
  | wake (j i timeoutMs notified) (found : s.waiters[j]? = some ⟨i,timeoutMs,.asleep notified⟩) :
      Moves s (.wake j) (s.resume j ⟨i,timeoutMs,.testing⟩)
  | timeout (j i timeoutMs notified) (found : s.waiters[j]? = some ⟨i,timeoutMs,.asleep notified⟩) :
      Moves s (.timeout j) (s.resume j ⟨i,timeoutMs,.late⟩)
  | giveUp (j i timeoutMs) (found : s.waiters[j]? = some ⟨i,timeoutMs,.late⟩) :
      Moves s (.giveUp j) (s.resume j ⟨i,timeoutMs,.threw⟩)

theorem cancelStep_moves {s t : State} {created : Bool} {i : Nat} {phase : Phase}
    (control : s.control = .cancelling i phase) (taken : cancelStep s i phase = some t) : Moves s (.control created) t := by
  cases phase with
  | cancel =>
    obtain ⟨c,work,rfl⟩ := Option.map_eq_some_iff.mp taken
    exact .cancelQueued created i c control work
  | drain =>
    obtain ⟨c,work,passed⟩ := Option.bind_eq_some_iff.mp taken
    split at passed
    next drained =>
      cases passed
      exact .drain created i c control work drained
    next => contradiction
  | close =>
    cases taken
    exact .close created i control
  | finish =>
    simp only [cancelStep] at taken
    split at taken
    next unlocked =>
      cases taken
      exact .finish created i control unlocked
    next => contradiction

theorem advance_moves {s t : State} {created : Bool} (taken : advance s created = some t) :
    Moves s (.control created) t := by
  unfold advance at taken
  split at taken
  next => contradiction
  next i control =>
    cases created with
    | true =>
      cases taken
      exact .create i control
    | false =>
      cases taken
      exact .createFails i control
  next i control =>
    obtain ⟨c,work,rfl⟩ := Option.map_eq_some_iff.mp taken
    exact .queue created i c control work
  next i phase control => exact cancelStep_moves control taken

theorem workCallback_moves {s t : State} {k : Nat} {callback : Callback} (found : s.callbacks[k]? = some callback)
    (taken : workCallback s k callback = some t) : Moves s (.callback k) t := by
  obtain ⟨c,point⟩ := callback
  cases point with
  | queued =>
    cases taken
    exact .run k c found
  | running =>
    simp only [workCallback] at taken
    split at taken
    next unlocked =>
      cases taken
      exact .complete k c _ found rfl unlocked
    next => contradiction
  | unlocking i =>
    cases taken
    exact .unlock k c i found
  | ended | cancelled => contradiction

theorem step_moves (s : State) (label : Label) (t : State) (taken : step s label = some t) : Moves s label t := by
  cases label with
  | construct i =>
    simp only [step] at taken
    split at taken
    next free =>
      cases taken
      exact .construct i free.1 free.2
    next => contradiction
  | moveConstruct i other =>
    simp only [step] at taken
    split at taken
    next free =>
      cases taken
      exact .moveConstruct i other free.1 free.2.1 free.2.2
    next => contradiction
  | moveAssign i other =>
    simp only [step] at taken
    split at taken
    next ready =>
      cases taken
      split
      next same =>
        subst same
        exact .assignSelf i
      next different => exact .moveAssign i other ready.1 ready.2.1 ready.2.2 different
    next => contradiction
  | submit i =>
    simp only [step] at taken
    split at taken
    next ready =>
      cases taken
      split
      next => exact .refuse i
      next unsubmitted => exact .submit i ready.1 ready.2 (Option.not_isSome_iff_eq_none.mp unsubmitted)
    next => contradiction
  | cancel i =>
    simp only [step] at taken
    split at taken
    next ready =>
      cases taken
      exact .cancel i ready.1 ready.2 _ rfl
    next => contradiction
  | destroy i =>
    simp only [step] at taken
    split at taken
    next ready =>
      cases taken
      exact .destroy i ready.1 ready.2
    next => contradiction
  | control created => exact advance_moves taken
  | callback k =>
    obtain ⟨callback,found,advanced⟩ := Option.bind_eq_some_iff.mp taken
    exact workCallback_moves found advanced
  | wait i timeoutMs =>
    simp only [step] at taken
    split at taken
    next alive =>
      cases taken
      exact .wait i timeoutMs alive
    next => contradiction
  | test j =>
    simp only [step] at taken
    split at taken
    next i timeoutMs found =>
      split at taken
      next =>
        cases taken
        split
        next complete => exact .pass j i timeoutMs found complete
        next incomplete => exact .sleep j i timeoutMs found (Bool.eq_false_iff.mpr incomplete)
      next => contradiction
    next => contradiction
  | wake j =>
    simp only [step] at taken
    split at taken
    next i timeoutMs notified found =>
      cases taken
      exact .wake j i timeoutMs notified found
    next => contradiction
  | timeout j =>
    simp only [step] at taken
    split at taken
    next i timeoutMs notified found =>
      split at taken
      next =>
        cases taken
        exact .timeout j i timeoutMs notified found
      next => contradiction
    next => contradiction
  | giveUp j =>
    simp only [step] at taken
    split at taken
    next i timeoutMs found =>
      split at taken
      next =>
        cases taken
        exact .giveUp j i timeoutMs found
      next => contradiction
    next => contradiction

end Ezthread.Work
