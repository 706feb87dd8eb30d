import Ezthread.Callbacks
import Ezthread.Transition

/-! `Timer` of async.cpp: any number of objects at addresses, used by one controlling
thread, with their callbacks on pool threads. A pool timer is known by the context it
was made with, and contexts are numbered as they are made. -/
namespace Ezthread.Timer
open Transition Activation Callbacks

abbrev DWORD := BitVec 32

/-- `cb` tells whether the callable is non-empty. -/
structure TimerContext where
  cb : Bool
  timer : Nat
  isOneShot : Bool

/-- `mutex` is the callback inside `m_mutex`; the controlling thread's blocks under it
are one step. `started` is no memory of the program: the context of the last `Start`
that no `Stop` has followed. -/
structure Object where
  timer : Option Nat
  context : Option Nat
  running : Bool
  mutex : Option Nat
  alive : Bool
  started : Option Nat

def Object.absent : Object := ⟨none,none,false,none,false,none⟩
def Object.new : Object := ⟨none,none,false,none,true,none⟩

/-- What the controlling thread does when `Stop` has returned. -/
inductive After
  | nothing
  | start (periodMs : DWORD) (cb : Bool)
  | destroy
  | assign (other : Nat)
deriving DecidableEq

inductive Phase
  | disarm
  | cancel
  | drain
  | close
  | reset
deriving DecidableEq

/-- Where the controlling thread stands in a call on an object. -/
inductive Control
  | idle
  | stopping (i : Nat) (phase : Phase) (after : After)
  | creating (i : Nat) (periodMs : DWORD) (cb : Bool)
  | arming (i : Nat)
  | setting (i : Nat)
  | destroying (i : Nat)
  | assigning (i other : Nat)
deriving DecidableEq

/-- `live` are the contexts not freed; `armed` is the pool's: the timers that fire. -/
structure State where
  objects : Nat → Object
  contexts : Nat → TimerContext
  made : Nat
  live : Nat → Bool
  armed : Nat → Bool
  callbacks : List Callback
  control : Control

def init : State := ⟨fun _ => .absent,fun _ => ⟨false,0,false⟩,0,fun _ => false,fun _ => false,[],.idle⟩

/-- The first seven are steps of the controlling thread, the last of them inside a
call, with the success of `CreateThreadpoolTimer`. -/
inductive Label
  | construct (i : Nat)
  | moveConstruct (i other : Nat)
  | moveAssign (i other : Nat)
  | start (i : Nat) (periodMs : DWORD) (cb : Bool)
  | stop (i : Nat)
  | destroy (i : Nat)
  | control (created : Bool)
  | fire (c : Nat)
  | callback (k : Nat)

def setOneShot (i : Nat) (cb : Bool) : Label := .start i 0 cb

def State.setObject (s : State) (i : Nat) (object : Object) : State :=
  {s with objects := Function.update s.objects i object}

def State.goto (s : State) (k : Nat) (callback : Callback) : State :=
  {s with callbacks := s.callbacks.set k callback}

/-- The members of a timer that a move takes over. -/
def State.take (s : State) (i other : Nat) (object : Object) : State :=
  let source := s.objects other
  (s.setObject other {source with timer := none, context := none, running := false, started := none}).setObject i
    {object with timer := source.timer, context := source.context, running := source.running, started := source.started}

def After.moves : After → Bool
  | .assign _ => true
  | _ => false

def After.next (i : Nat) : After → Control
  | .nothing => .idle
  | .start periodMs cb => .creating i periodMs cb
  | .destroy => .destroying i
  | .assign other => .assigning i other

def stopStep (s : State) (i : Nat) (after : After) : Phase → Option State
  | .disarm =>
      match (s.objects i).timer with
      | some c => some {s with armed := Function.update s.armed c false, control := .stopping i .cancel after}
      | none => some {s with control := .stopping i .reset after}
  | .cancel => (s.objects i).timer.map fun c =>
      {s with callbacks := cancel c s.callbacks, control := .stopping i .drain after}
  | .drain => (s.objects i).timer.bind fun c =>
      if drained c s.callbacks then some {s with control := .stopping i .close after} else none
  | .close => some {s.setObject i {s.objects i with timer := none} with control := .stopping i .reset after}
  | .reset =>
      if (s.objects i).mutex = none then
        some {s.setObject i {s.objects i with running := false, context := none, started := none} with
          live := free (s.objects i).context s.live, control := after.next i}
      else none

def create (s : State) (i : Nat) (periodMs : DWORD) (cb : Bool) : State :=
  {s.setObject i {s.objects i with timer := some s.made, context := some s.made} with
    contexts := Function.update s.contexts s.made ⟨cb,i,periodMs == 0⟩
    made := s.made + 1
    live := Function.update (free (s.objects i).context s.live) s.made true
    control := .arming i}

/-- The next step of the call in progress. A failed creation throws. -/
def advance (s : State) (created : Bool) : Option State :=
  match s.control with
  | .idle => none
  | .stopping i phase after => stopStep s i after phase
  | .creating i periodMs cb =>
      if created then some (create s i periodMs cb)
      else some {s.setObject i {s.objects i with timer := none, context := none} with
        live := free (s.objects i).context s.live, control := .idle}
  | .arming i => (s.objects i).timer.map fun c =>
      {s with armed := Function.update s.armed c true, control := .setting i}
  | .setting i =>
      if (s.objects i).mutex = none then
        some {s.setObject i {s.objects i with running := true, started := (s.objects i).context} with control := .idle}
      else none
  | .destroying i => some {s.setObject i .absent with control := .idle}
  | .assigning i other => some {s.take i other (s.objects i) with
      live := free (s.objects i).context s.live, control := .idle}

/-- `TimerCallback`. The callable's exceptions are caught, so it just ends. -/
def timerCallback (s : State) (k : Nat) : Callback → Option State
  | ⟨c,.queued⟩ => some (s.goto k ⟨c,if (s.contexts c).cb then .running else .ended⟩)
  | ⟨c,.running⟩ =>
      if (s.contexts c).isOneShot then
        let i := (s.contexts c).timer
        if (s.objects i).mutex = none then
          some ((s.goto k ⟨c,.unlocking i⟩).setObject i {s.objects i with running := false, mutex := some k})
        else none
      else some (s.goto k ⟨c,.ended⟩)
  | ⟨c,.unlocking i⟩ => some ((s.goto k ⟨c,.ended⟩).setObject i {s.objects i with mutex := none})
  | _ => none

/-- `IsRunning` returns once no callback is inside the mutex. -/
def isRunning (s : State) (i : Nat) : Option Bool :=
  if (s.objects i).mutex = none then some (s.objects i).running else none

/-- A call on a living object begins. -/
def State.begin (s : State) (i : Nat) (control : Control) : Option State :=
  if s.control = .idle ∧ (s.objects i).alive = true then some {s with control := control} else none

def step (s : State) : Label → Option State
  | .construct i =>
      if s.control = .idle ∧ (s.objects i).alive = false then some (s.setObject i .new) else none
  | .moveConstruct i other =>
      if s.control = .idle ∧ (s.objects i).alive = false ∧ (s.objects other).alive = true then
        some (s.take i other .new)
      else none
  | .moveAssign i other =>
      if (s.objects other).alive = true then
        s.begin i (if i = other then .idle else .stopping i .disarm (.assign other))
      else none
  | .start i periodMs cb => s.begin i (.stopping i .disarm (.start periodMs cb))
  | .stop i => s.begin i (.stopping i .disarm .nothing)
  | .destroy i => s.begin i (.stopping i .disarm .destroy)
  | .control created => advance s created
  | .fire c =>
      if s.armed c then some {s with
        callbacks := s.callbacks ++ [⟨c,.queued⟩]
        armed := if (s.contexts c).isOneShot then Function.update s.armed c false else s.armed}
      else none
  | .callback k => (s.callbacks[k]?).bind (timerCallback s k)

inductive Moves (s : State) : Label → State → Prop
  | construct (i) (idle : s.control = .idle) (absent : (s.objects i).alive = false) :
      Moves s (.construct i) (s.setObject i .new)
  | moveConstruct (i other) (idle : s.control = .idle) (absent : (s.objects i).alive = false)
      (present : (s.objects other).alive = true) : Moves s (.moveConstruct i other) (s.take i other .new)
  | assignSelf (i) : Moves s (.moveAssign i i) s
  | call (label i after) (idle : s.control = .idle) (alive : (s.objects i).alive = true) (stays : after.moves = false) :
      Moves s label {s with control := .stopping i .disarm after}
  | moveAssign (i other) (idle : s.control = .idle) (alive : (s.objects i).alive = true) (different : i ≠ other) :
      Moves s (.moveAssign i other) {s with control := .stopping i .disarm (.assign other)}
  | disarm (created i after c) (control : s.control = .stopping i .disarm after) (timer : (s.objects i).timer = some c) :
      Moves s (.control created) {s with armed := Function.update s.armed c false, control := .stopping i .cancel after}
  | skip (created i after) (control : s.control = .stopping i .disarm after) (timer : (s.objects i).timer = none) :
      Moves s (.control created) {s with control := .stopping i .reset after}
  | cancel (created i after c) (control : s.control = .stopping i .cancel after) (timer : (s.objects i).timer = some c) :
      Moves s (.control created) {s with callbacks := cancel c s.callbacks, control := .stopping i .drain after}
  | drain (created i after c) (control : s.control = .stopping i .drain after) (timer : (s.objects i).timer = some c)
      (drained : drained c s.callbacks = true) :
      Moves s (.control created) {s with control := .stopping i .close after}
  | close (created i after) (control : s.control = .stopping i .close after) :
      Moves s (.control created) {s.setObject i {s.objects i with timer := none} with control := .stopping i .reset after}
  | reset (created i after) (control : s.control = .stopping i .reset after) (unlocked : (s.objects i).mutex = none) :
      Moves s (.control created) {s.setObject i {s.objects i with running := false, context := none, started := none} with
        live := free (s.objects i).context s.live, control := after.next i}
  | create (i periodMs cb) (control : s.control = .creating i periodMs cb) :
      Moves s (.control true) (create s i periodMs cb)
  | createFails (i periodMs cb) (control : s.control = .creating i periodMs cb) :
      Moves s (.control false) {s.setObject i {s.objects i with timer := none, context := none} with
        live := free (s.objects i).context s.live, control := .idle}
  | arm (created i c) (control : s.control = .arming i) (timer : (s.objects i).timer = some c) :
      Moves s (.control created) {s with armed := Function.update s.armed c true, control := .setting i}
  | set (created i) (control : s.control = .setting i) (unlocked : (s.objects i).mutex = none) :
      Moves s (.control created)
        {s.setObject i {s.objects i with running := true, started := (s.objects i).context} with control := .idle}
  | destroy (created i) (control : s.control = .destroying i) :
      Moves s (.control created) {s.setObject i .absent with control := .idle}
  | assign (created i other) (control : s.control = .assigning i other) :
      Moves s (.control created) {s.take i other (s.objects i) with
        live := free (s.objects i).context s.live, control := .idle}
  | fire (c) (armed : s.armed c = true) : Moves s (.fire c) {s with
      callbacks := s.callbacks ++ [⟨c,.queued⟩]
      armed := if (s.contexts c).isOneShot then Function.update s.armed c false else s.armed}
  | run (k c) (found : s.callbacks[k]? = some ⟨c,.queued⟩) (callable : (s.contexts c).cb = true) :
      Moves s (.callback k) (s.goto k ⟨c,.running⟩)
  | empty (k c) (found : s.callbacks[k]? = some ⟨c,.queued⟩) (callable : (s.contexts c).cb = false) :
      Moves s (.callback k) (s.goto k ⟨c,.ended⟩)
  | finish (k c) (found : s.callbacks[k]? = some ⟨c,.running⟩) (periodic : (s.contexts c).isOneShot = false) :
      Moves s (.callback k) (s.goto k ⟨c,.ended⟩)
  | clear (k c i) (found : s.callbacks[k]? = some ⟨c,.running⟩) (oneShot : (s.contexts c).isOneShot = true)
      (owner : (s.contexts c).timer = i) (unlocked : (s.objects i).mutex = none) :
      Moves s (.callback k)
        ((s.goto k ⟨c,.unlocking i⟩).setObject i {s.objects i with running := false, mutex := some k})
  | unlock (k c i) (found : s.callbacks[k]? = some ⟨c,.unlocking i⟩) :
      Moves s (.callback k) ((s.goto k ⟨c,.ended⟩).setObject i {s.objects i with mutex := none})

theorem begin_iff {s t : State} {i : Nat} {control : Control} : s.begin i control = some t ↔
    (s.control = .idle ∧ (s.objects i).alive = true) ∧ t = {s with control := control} := by
  unfold State.begin
  split
  next ready => exact ⟨fun same => ⟨ready,(Option.some.inj same).symm⟩,fun known => congrArg some known.2.symm⟩
  next unready => exact ⟨by simp,fun known => absurd known.1 unready⟩

theorem stopStep_moves {s t : State} {created : Bool} {i : Nat} {phase : Phase} {after : After}
    (control : s.control = .stopping i phase after) (taken : stopStep s i after phase = some t) :
    Moves s (.control created) t := by
  cases phase with
  | disarm =>
    simp only [stopStep] at taken
    split at taken
    next c timer =>
      cases taken
      exact .disarm created i after c control timer
    next timer =>
      cases taken
      exact .skip created i after control timer
  | cancel =>
    obtain ⟨c,timer,rfl⟩ := Option.map_eq_some_iff.mp taken
    exact .cancel created i after c control timer
  | drain =>
    obtain ⟨c,timer,passed⟩ := Option.bind_eq_some_iff.mp taken
    split at passed
    next drained =>
      cases passed
      exact .drain created i after c control timer drained
    next => contradiction
  | close =>
    cases taken
    exact .close created i after control
  | reset =>
    simp only [stopStep] at taken
    split at taken
    next unlocked =>
      cases taken
      exact .reset created i after control unlocked
    next => contradiction

theorem advance_moves {s t : State} {created : Bool} (taken : advance s created = some t) :
    Moves s (.control created) t := by
  unfold advance at taken
  split at taken
  next => contradiction
  next i phase after control => exact stopStep_moves control taken
  next i periodMs cb control =>
    cases created with
    | true =>
      cases taken
      exact .create i periodMs cb control
    | false =>
      cases taken
      exact .createFails i periodMs cb control
  next i control =>
    obtain ⟨c,timer,rfl⟩ := Option.map_eq_some_iff.mp taken
    exact .arm created i c control timer
  next i control =>
    split at taken
    next unlocked =>
      cases taken
      exact .set created i control unlocked
    next => contradiction
  next i control =>
    cases taken
    exact .destroy created i control
  next i other control =>
    cases taken
    exact .assign created i other control

theorem timerCallback_moves {s t : State} {k : Nat} {callback : Callback} (found : s.callbacks[k]? = some callback)
    (taken : timerCallback s k callback = some t) : Moves s (.callback k) t := by
  obtain ⟨c,point⟩ := callback
  cases point with
  | queued =>
    cases taken
    split
    next callable => exact .run k c found callable
    next empty => exact .empty k c found (Bool.eq_false_iff.mpr empty)
  | running =>
    simp only [timerCallback] at taken
    split at taken
    next oneShot =>
      split at taken
      next unlocked =>
        cases taken
        exact .clear k c _ found oneShot rfl unlocked
      next => contradiction
    next periodic =>
      cases taken
      exact .finish k c found (Bool.eq_false_iff.mpr periodic)
  | unlocking i =>
    cases taken
    exact .unlock k c i found
  | ended | cancelled => contradiction

theorem step_moves (s : State) (label : Label) (t : State) (taken : step s label = some t) : Moves s label t := by
  cases label with
  | construct i =>
    simp only [step] at taken
    split at taken
    next free =>
      cases taken
      exact .construct i free.1 free.2
    next => contradiction
  | moveConstruct i other =>
    simp only [step] at taken
    split at taken
    next free =>
      cases taken
      exact .moveConstruct i other free.1 free.2.1 free.2.2
    next => contradiction
  | moveAssign i other =>
    simp only [step] at taken
    split at taken
    next =>
      obtain ⟨⟨idle,alive⟩,rfl⟩ := begin_iff.mp taken
      by_cases same : i = other
      · subst same
        rw [if_pos rfl,← idle]
        exact .assignSelf i
      · rw [if_neg same]
        exact .moveAssign i other idle alive same
    next => contradiction
  | start i periodMs cb =>
    obtain ⟨⟨idle,alive⟩,rfl⟩ := begin_iff.mp taken
    exact .call _ i (.start periodMs cb) idle alive rfl
  | stop i =>
    obtain ⟨⟨idle,alive⟩,rfl⟩ := begin_iff.mp taken
    exact .call _ i .nothing idle alive rfl
  | destroy i =>
    obtain ⟨⟨idle,alive⟩,rfl⟩ := begin_iff.mp taken
    exact .call _ i .destroy idle alive rfl
  | control created => exact advance_moves taken
  | fire c =>
    simp only [step] at taken
    split at taken
    next armed =>
      cases taken
      exact .fire c armed
    next => contradiction
  | callback k =>
    obtain ⟨callback,found,advanced⟩ := Option.bind_eq_some_iff.mp taken
    exact timerCallback_moves found advanced

end Ezthread.Timer
