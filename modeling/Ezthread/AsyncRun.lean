import Ezthread.FutureChain
import Ezthread.Mutex
import Ezthread.Ownership
import Ezthread.Transition

/-! `async::Run`, `async::RunDetached` of async.hpp and the constructor of `Thread` of
core.hpp. Each leaves a function on the heap to a callback of the system, which calls and
deletes it; where the system takes none, the caller deletes it and throws. -/
namespace Ezthread.AsyncRun
open Transition Activation Ownership
open Future (SharedState Assignment)
open Mutex (DWORD ThreadException)

variable {α ε : Type*}

inductive Function
  | run
  | runDetached
  | thread
deriving DecidableEq

/-- A `PTP_WORK` starts nothing before it is submitted, `CreateThread` starts the thread. -/
def Function.submits : Function → Bool
  | .run | .runDetached => true
  | .thread => false

def Function.failed : Function → String
  | .run | .runDetached => "CreateThreadpoolWork failed"
  | .thread => "CreateThread failed"

/-- `raised` is what allocating, or copying the function, throws. -/
inductive Thrown
  | raised
  | exception (thrown : ThreadException)

inductive Caller
  | entered
  | promised
  | allocated (context : Nat)
  | failed (context : Nat) (lastError : DWORD)
  | created (context work : Nat)
  | returned
  | threw (thrown : Thrown)

/-- `setting` and `failing` are in `SetValue` and in the catch clause of `Run`; `raised`
tells whether the function threw out of the callback's call. -/
inductive Callback (α ε : Type*)
  | absent
  | queued (context work : Nat)
  | setting (context work : Nat) (assignment : Assignment α ε)
  | failing (context work : Nat) (ex : ε)
  | deleting (context work : Nat) (raised : Bool)
  | closing (work : Nat)
  | closed
  | exited (code : DWORD)

/-- `state` is the shared state of the promise that `Run` makes; `invocations` and
`result`, none of the program's, tell how often the function was called and what it came to. -/
structure Call (α ε : Type*) where
  function : Function
  caller : Caller
  callback : Callback α ε
  state : SharedState α ε
  invocations : Nat
  result : Option (Except ε (Assignment α ε))

structure State (α ε : Type*) where
  contexts : Store Nat
  works : Store Nat
  calls : List (Call α ε)

def init : State α ε := ⟨.empty,.empty,[]⟩

inductive Label (α ε : Type*)
  | start (function : Function)
  | promise (i : Nat) (made : Bool)
  | allocate (i : Nat) (address : Option Nat)
  | create (i : Nat) (answer : Option Nat) (lastError : DWORD)
  | proceed (i : Nat)
  | invoke (i : Nat) (result : Except ε (Assignment α ε))
  | settle (i : Nat)
  | delete (i : Nat)
  | close (i : Nat)

def Call.new [Inhabited α] [Inhabited ε] (function : Function) : Call α ε :=
  ⟨function,.entered,.absent,SharedState.new,0,none⟩

def State.put (s : State α ε) (i : Nat) (call : Call α ε) : State α ε := {s with calls := s.calls.set i call}

/-- The callback's call of the function on the heap: `Run` catches what the function throws
to put it into the future, `RunDetached` to drop it, and a thread to exit with 1. -/
def invoked (function : Function) (context work : Nat) (result : Except ε (Assignment α ε)) : Callback α ε :=
  match function,result with
  | .run,.ok assignment => .setting context work assignment
  | .run,.error ex => .failing context work ex
  | .runDetached,_ => .deleting context work false
  | .thread,.ok _ => .deleting context work false
  | .thread,.error _ => .deleting context work true

/-- `promise->SetValue`; what it throws goes to the catch clause. -/
def setValue (threadException : String → ε) (context work : Nat) (assignment : Assignment α ε) (state : SharedState α ε) :
    SharedState α ε × Callback α ε :=
  match Future.setValue assignment state with
  | (after,.ok _) => (after,.deleting context work false)
  | (after,.error failure) => (after,.failing context work (FutureChain.caught threadException failure))

/-- `promise->SetException`; what it throws leaves the function for the callback, which drops it. -/
def setException (context work : Nat) (ex : ε) (state : SharedState α ε) : SharedState α ε × Callback α ε :=
  match Future.setException ex state with
  | (after,.ok _) => (after,.deleting context work false)
  | (after,.error _) => (after,.deleting context work true)

/-- What the callback does after `delete funcPtr`: a work is closed, a thread exits. -/
def deleted (function : Function) (work : Nat) (raised : Bool) : Callback α ε :=
  match function with
  | .run | .runDetached => .closing work
  | .thread => .exited (if raised then 1 else 0)

def State.on (s : State α ε) (i : Nat) (act : Call α ε → Option (State α ε)) : Option (State α ε) := (s.calls[i]?).bind act

/-- `new` of the function, which only `Run` does after making the promise. -/
def Call.allocates (call : Call α ε) : Bool :=
  match call.function,call.caller with
  | .run,.promised | .runDetached,.entered | .thread,.entered => true
  | _,_ => false

def allocate (s : State α ε) (i : Nat) (address : Option Nat) (call : Call α ε) : Option (State α ε) :=
  if call.allocates then
    match address with
    | none => some (s.put i {call with caller := .threw .raised})
    | some context =>
        if s.contexts.live context then none
        else some {s.put i {call with caller := .allocated context} with contexts := s.contexts.make context}
  else none

/-- `CreateThreadpoolWork` or `CreateThread`. -/
def create (s : State α ε) (i : Nat) (answer : Option Nat) (lastError : DWORD) (call : Call α ε) : Option (State α ε) :=
  match call.caller,answer with
  | .allocated context,none => some (s.put i {call with caller := .failed context lastError})
  | .allocated context,some work =>
      if call.function.submits then
        if s.works.live work then none
        else some {s.put i {call with caller := .created context work} with works := s.works.make work}
      else some (s.put i {call with caller := .created context work, callback := .queued context work})
  | _,_ => none

def proceed (s : State α ε) (i : Nat) (call : Call α ε) : Option (State α ε) :=
  match call.caller with
  | .failed context lastError =>
      some {s.put i {call with caller := .threw (.exception ⟨call.function.failed,lastError⟩)} with
        contexts := s.contexts.destroy context}
  | .created context work =>
      if call.function.submits then
        some {s.put i {call with caller := .returned, callback := .queued context work} with works := s.works.use work}
      else some (s.put i {call with caller := .returned})
  | _ => none

def invoke (s : State α ε) (i : Nat) (result : Except ε (Assignment α ε)) (call : Call α ε) : Option (State α ε) :=
  match call.callback with
  | .queued context work =>
      some {s.put i {call with
        callback := invoked call.function context work result
        invocations := call.invocations + 1
        result := some result} with contexts := s.contexts.use context}
  | _ => none

/-- The promise is reached through the function that holds it. -/
def settle (threadException : String → ε) (s : State α ε) (i : Nat) (call : Call α ε) : Option (State α ε) :=
  match call.callback with
  | .setting context work assignment =>
      let (state,callback) := setValue threadException context work assignment call.state
      some {s.put i {call with state := state, callback := callback} with contexts := s.contexts.use context}
  | .failing context work ex =>
      let (state,callback) := setException context work ex call.state
      some {s.put i {call with state := state, callback := callback} with contexts := s.contexts.use context}
  | _ => none

def delete (s : State α ε) (i : Nat) (call : Call α ε) : Option (State α ε) :=
  match call.callback with
  | .deleting context work raised =>
      some {s.put i {call with callback := deleted call.function work raised} with contexts := s.contexts.destroy context}
  | _ => none

def close (s : State α ε) (i : Nat) (call : Call α ε) : Option (State α ε) :=
  match call.callback with
  | .closing work => some {s.put i {call with callback := .closed} with works := s.works.destroy work}
  | _ => none

def promise (s : State α ε) (i : Nat) (made : Bool) (call : Call α ε) : Option (State α ε) :=
  match call.function,call.caller with
  | .run,.entered => some (s.put i {call with caller := if made then .promised else .threw .raised})
  | _,_ => none

/-- The caller and the callback of each call take their steps in any order. `new` returns an
address with nothing at it, and a new work is none that is open. -/
def step [Inhabited α] [Inhabited ε] (threadException : String → ε) (s : State α ε) : Label α ε → Option (State α ε)
  | .start function => some {s with calls := s.calls ++ [Call.new function]}
  | .promise i made => s.on i (promise s i made)
  | .allocate i address => s.on i (allocate s i address)
  | .create i answer lastError => s.on i (create s i answer lastError)
  | .proceed i => s.on i (proceed s i)
  | .invoke i result => s.on i (invoke s i result)
  | .settle i => s.on i (settle threadException s i)
  | .delete i => s.on i (delete s i)
  | .close i => s.on i (close s i)

/-- The function on the heap that the call still has to delete. -/
def Call.context (call : Call α ε) : Option Nat :=
  match call.callback with
  | .queued context _ | .setting context _ _ | .failing context _ _ | .deleting context _ _ => some context
  | .closing _ | .closed | .exited _ => none
  | .absent =>
      match call.caller with
      | .allocated context | .failed context _ | .created context _ => some context
      | _ => none

/-- The work that the call still has to close. -/
def Call.work (call : Call α ε) : Option Nat :=
  match call.function.submits,call.callback with
  | false,_ => none
  | true,.queued _ work | true,.setting _ work _ | true,.failing _ work _ | true,.deleting _ work _ | true,.closing work => some work
  | true,.closed | true,.exited _ => none
  | true,.absent =>
      match call.caller with
      | .created _ work => some work
      | _ => none

/-- The function and the work of a callback that has not deleted the function yet. -/
def Callback.holds : Callback α ε → Option (Nat × Nat)
  | .queued context work | .setting context work _ | .failing context work _ | .deleting context work _ => some (context,work)
  | .absent | .closing _ | .closed | .exited _ => none

/-- What a future of the call is to give: a value that could not be stored counts as thrown. -/
def outcome : Except ε (Assignment α ε) → Except ε α
  | .ok (.stores value) => .ok value
  | .ok (.throws _ ex) => .error ex
  | .error ex => .error ex

def raises : Except ε (Assignment α ε) → Bool
  | .ok _ => false
  | .error _ => true

/-- The function was called once, and the future of `Run` has what it came to. -/
def Call.Done (call : Call α ε) : Prop :=
  call.invocations = 1 ∧ ∃ result, call.result = some result ∧
    (call.function = .run → call.state.ready = true ∧ call.state.outcome = outcome result)

def Callback.begun : Callback α ε → Bool
  | .absent => false
  | _ => true

/-- The callback begins when the caller has started it, and a thread in the constructor. -/
def Call.Begun (call : Call α ε) : Prop :=
  match call.caller with
  | .entered | .allocated _ | .failed _ _ | .threw _ => call.callback.begun = false
  | .promised => call.callback.begun = false ∧ call.function = .run
  | .created _ _ => call.callback.begun = !call.function.submits
  | .returned => call.callback.begun = true

def Call.Progress [Inhabited α] [Inhabited ε] (call : Call α ε) : Prop :=
  match call.callback with
  | .absent | .queued _ _ => call.invocations = 0 ∧ call.result = none ∧ call.state = SharedState.new
  | .setting _ _ assignment =>
      call.function = .run ∧ call.invocations = 1 ∧ call.result = some (.ok assignment) ∧ call.state = SharedState.new
  | .failing _ _ ex =>
      call.function = .run ∧ call.invocations = 1 ∧ (∃ result, call.result = some result ∧ outcome result = .error ex) ∧
        call.state.ready = false
  | .deleting _ _ raised => call.Done ∧ (call.function = .thread → call.result.map raises = some raised)
  | .closing _ | .closed => call.Done ∧ call.function.submits = true
  | .exited code => call.Done ∧ call.function = .thread ∧ call.result.map raises = some (code == 1) ∧ code ≤ 1

theorem absent_of_idle {callback : Callback α ε} (idle : callback.begun = false) : callback = .absent := by
  cases callback with
  | absent => rfl
  | _ => contradiction

/-- Before its creation there is no work. -/
theorem work_uncreated {call : Call α ε} (absent : call.callback = .absent)
    (uncreated : ∀ context work, call.caller ≠ .created context work) : call.work = none := by
  unfold Call.work
  rw [absent]
  cases call.function.submits with
  | false => rfl
  | true =>
    cases caller : call.caller with
    | created context work => exact absurd caller (uncreated context work)
    | _ => rfl

theorem Call.Begun.allocates {call : Call α ε} (begun : call.Begun) (allocates : call.allocates = true) :
    call.callback = .absent ∧ call.context = none ∧ call.work = none := by
  obtain ⟨function,caller,callback,state,invocations,result⟩ := call
  unfold Call.allocates at allocates
  split at allocates
  next same entered =>
    simp only at same entered
    subst same entered
    cases absent_of_idle begun.1
    exact ⟨rfl,rfl,rfl⟩
  next same entered =>
    simp only at same entered
    subst same entered
    cases absent_of_idle begun
    exact ⟨rfl,rfl,rfl⟩
  next same entered =>
    simp only at same entered
    subst same entered
    cases absent_of_idle begun
    exact ⟨rfl,rfl,rfl⟩
  next => contradiction

theorem context_held {call : Call α ε} {context work : Nat} (holds : call.callback.holds = some (context,work)) :
    call.context = some context := by
  cases callback : call.callback <;> simp_all [Call.context,Callback.holds]

theorem work_held {call : Call α ε} {context work : Nat} (holds : call.callback.holds = some (context,work)) :
    call.work = if call.function.submits then some work else none := by
  cases callback : call.callback <;> cases submits : call.function.submits <;> simp_all [Call.work,Callback.holds]

theorem holds_begun {callback : Callback α ε} {held : Nat × Nat} (holds : callback.holds = some held) : callback.begun = true := by
  cases callback with
  | absent => contradiction
  | _ => rfl

theorem invoked_holds (function : Function) (context work : Nat) (result : Except ε (Assignment α ε)) :
    (invoked function context work result).holds = some (context,work) := by
  cases function <;> cases result <;> rfl

theorem setValue_holds (threadException : String → ε) (context work : Nat) (assignment : Assignment α ε)
    (state : SharedState α ε) : (setValue threadException context work assignment state).2.holds = some (context,work) := by
  unfold setValue
  split <;> rfl

theorem setException_holds (context work : Nat) (ex : ε) (state : SharedState α ε) :
    (setException context work ex state).2.holds = some (context,work) := by
  unfold setException
  split <;> rfl

/-- The steps of a callback say nothing to its caller. -/
theorem Call.Begun.goes {call next : Call α ε} (begun : call.Begun) (before : call.callback.begun = true)
    (after : next.callback.begun = true) (caller : next.caller = call.caller) (function : next.function = call.function) :
    next.Begun := by
  unfold Call.Begun at begun ⊢
  rw [caller,function,after]
  rw [before] at begun
  exact begun

theorem deleted_work {call : Call α ε} {work : Nat} {raised : Bool} :
    Call.work {call with callback := deleted call.function work raised} = if call.function.submits then some work else none := by
  obtain ⟨function,caller,callback,state,invocations,came⟩ := call
  cases function <;> rfl

def Callback.left : Callback α ε → Nat
  | .absent | .queued _ _ => 5
  | .setting _ _ _ => 4
  | .failing _ _ _ => 3
  | .deleting _ _ _ => 2
  | .closing _ => 1
  | .closed | .exited _ => 0

def Caller.left : Caller → Nat
  | .entered => 4
  | .promised => 3
  | .allocated _ => 2
  | .failed _ _ | .created _ _ => 1
  | .returned | .threw _ => 0

/-- More than the steps that are left for the call. -/
def Call.left (call : Call α ε) : Nat := call.caller.left + call.callback.left

def State.left (s : State α ε) : Nat := (s.calls.map Call.left).sum

/-- A call that is brought forward leaves fewer steps, and no more calls. -/
theorem left_put {s : State α ε} {i : Nat} {call next : Call α ε} (found : s.calls[i]? = some call) (less : next.left < call.left) :
    ((s.calls.set i next).map Call.left).sum < s.left ∧ (s.calls.set i next).length = s.calls.length := by
  have changed := sum_set Call.left next found
  unfold State.left
  exact ⟨by omega,List.length_set⟩

theorem invoked_left (function : Function) (context work : Nat) (result : Except ε (Assignment α ε)) :
    (invoked function context work result).left < 5 := by
  cases function <;> cases result <;> simp [invoked,Callback.left]

theorem setValue_left (threadException : String → ε) (context work : Nat) (assignment : Assignment α ε)
    (state : SharedState α ε) : (setValue threadException context work assignment state).2.left < 4 := by
  unfold setValue
  split <;> simp [Callback.left]

theorem setException_left (context work : Nat) (ex : ε) (state : SharedState α ε) :
    (setException context work ex state).2.left < 3 := by
  unfold setException
  split <;> simp [Callback.left]

theorem deleted_left (function : Function) (work : Nat) (raised : Bool) :
    (deleted function work raised : Callback α ε).left < 2 := by
  cases function <;> simp [deleted,Callback.left]

theorem allocates_left {call : Call α ε} (allocates : call.allocates = true) : 2 < call.caller.left := by
  cases function : call.function <;> cases caller : call.caller <;> simp_all [Call.allocates,Caller.left]

/-- A call is settled when its caller is told of a failure and nothing was called, or the
function was called and its callback has come to its end. -/
def Call.Settled (call : Call α ε) : Prop :=
  ((∃ thrown, call.caller = .threw thrown) ∧ call.invocations = 0 ∧ call.state.ready = false) ∨
    (call.caller = .returned ∧ call.Done ∧
      match call.callback with
      | .closed => call.function.submits = true
      | .exited code => call.function = .thread ∧ call.result.map raises = some (code == 1) ∧ code ≤ 1
      | _ => False)

theorem Call.Settled.releases {call : Call α ε} (begun : call.Begun) (settled : call.Settled) :
    call.context = none ∧ call.work = none := by
  rcases settled with ⟨⟨thrown,threw⟩,_,_⟩ | ⟨_,_,ended⟩
  · have absent := absent_of_idle (by simpa [Call.Begun,threw] using begun)
    exact ⟨by simp [Call.context,absent,threw],work_uncreated absent (by simp [threw])⟩
  · split at ended
    next closed =>
      exact ⟨by simp [Call.context,closed],by cases submits : call.function.submits <;> simp [Call.work,submits,closed]⟩
    next code exited =>
      exact ⟨by simp [Call.context,exited],by cases submits : call.function.submits <;> simp [Call.work,submits,exited]⟩
    next => contradiction

structure Inv [Inhabited α] [Inhabited ε] (s : State α ε) : Prop where
  contexts : Owned Call.context s.calls s.contexts
  works : Owned Call.work s.calls s.works
  begun : Every (fun _ call => call.Begun) s.calls
  progress : Every (fun _ call => call.Progress) s.calls

variable [Inhabited α] [Inhabited ε] {s t : State α ε} {i : Nat} {call next : Call α ε} {threadException : String → ε}

theorem Inv.init : Inv (init : State α ε) := ⟨.empty _,.empty _,.nil _,.nil _⟩

theorem Inv.start (inv : Inv s) (function : Function) : Inv {s with calls := s.calls ++ [Call.new function]} where
  contexts := inv.contexts.append rfl
  works := inv.works.append (by cases function <;> rfl)
  begun := inv.begun.append rfl
  progress := inv.progress.append ⟨rfl,rfl,rfl⟩

theorem Inv.promise {made : Bool} (inv : Inv s) (found : s.calls[i]? = some call) (taken : promise s i made call = some t) :
    Inv t := by
  unfold AsyncRun.promise at taken
  split at taken
  next same entered =>
    cases taken
    have idle : call.callback.begun = false := by simpa [Call.Begun,entered] using inv.begun i call found
    have absent := absent_of_idle idle
    cases made with
    | false =>
      exact ⟨inv.contexts.keep found (by simp [Call.context,absent,entered]),
        inv.works.keep found (by simp [Call.work,same,absent,entered]),inv.begun.set idle,inv.progress.set (inv.progress i call found)⟩
    | true =>
      exact ⟨inv.contexts.keep found (by simp [Call.context,absent,entered]),
        inv.works.keep found (by simp [Call.work,same,absent,entered]),inv.begun.set ⟨idle,same⟩,
        inv.progress.set (inv.progress i call found)⟩
  next => contradiction

theorem Inv.allocate {address : Option Nat} (inv : Inv s) (found : s.calls[i]? = some call)
    (taken : allocate s i address call = some t) : Inv t := by
  unfold AsyncRun.allocate at taken
  split at taken
  next allocates =>
    obtain ⟨absent,unowned,unused⟩ := (inv.begun i call found).allocates allocates
    have idle : call.callback.begun = false := by rw [absent]; rfl
    have progress := inv.progress i call found
    split at taken
    next =>
      cases taken
      have free : Call.work {call with caller := .threw .raised} = none := work_uncreated absent (by simp)
      exact ⟨inv.contexts.keep found (by rw [unowned]; simp [Call.context,absent]),
        inv.works.keep found (by rw [free,unused]),inv.begun.set idle,inv.progress.set progress⟩
    next context =>
      split at taken
      next => contradiction
      next fresh =>
        cases taken
        have free : Call.work {call with caller := .allocated context} = none := work_uncreated absent (by simp)
        exact ⟨inv.contexts.make found unowned (by simp [Call.context,absent]) (by simpa using fresh),
          inv.works.keep found (by rw [free,unused]),inv.begun.set idle,inv.progress.set progress⟩
  next => contradiction

theorem Inv.create {answer : Option Nat} {lastError : DWORD} (inv : Inv s) (found : s.calls[i]? = some call)
    (taken : create s i answer lastError call = some t) : Inv t := by
  have begun := inv.begun i call found
  have progress := inv.progress i call found
  unfold AsyncRun.create at taken
  split at taken
  next context allocated =>
    have idle : call.callback.begun = false := by simpa [Call.Begun,allocated] using begun
    have absent := absent_of_idle idle
    cases taken
    have free : Call.work {call with caller := .failed context lastError} = none := work_uncreated absent (by simp)
    exact ⟨inv.contexts.keep found (by simp [Call.context,absent,allocated]),
      inv.works.keep found (by rw [free,work_uncreated absent (by simp [allocated])]),inv.begun.set idle,inv.progress.set progress⟩
  next context work allocated =>
    have idle : call.callback.begun = false := by simpa [Call.Begun,allocated] using begun
    have absent := absent_of_idle idle
    split at taken
    next submits =>
      split at taken
      next => contradiction
      next fresh =>
        cases taken
        exact ⟨inv.contexts.keep found (by simp [Call.context,absent,allocated]),
          inv.works.make found (by simp [Call.work,submits,absent,allocated]) (by simp [Call.work,submits,absent])
            (by simpa using fresh),
          inv.begun.set (by simp [Call.Begun,idle,submits]),inv.progress.set progress⟩
    next unsubmitted =>
      cases taken
      have starts : call.function.submits = false := by simpa using unsubmitted
      have fresh : call.invocations = 0 ∧ call.result = none ∧ call.state = SharedState.new := by
        simpa [Call.Progress,absent] using progress
      exact ⟨inv.contexts.keep found (by simp [Call.context,absent,allocated]),
        inv.works.keep found (by simp [Call.work,starts]),
        inv.begun.set (by simp [Call.Begun,Callback.begun,starts]),inv.progress.set fresh⟩
  next => contradiction

theorem Inv.proceed (inv : Inv s) (found : s.calls[i]? = some call) (taken : proceed s i call = some t) : Inv t := by
  have begun := inv.begun i call found
  have progress := inv.progress i call found
  unfold AsyncRun.proceed at taken
  split at taken
  next context lastError failed =>
    have idle : call.callback.begun = false := by simpa [Call.Begun,failed] using begun
    have absent := absent_of_idle idle
    cases taken
    have free : Call.work {call with caller := .threw (.exception ⟨call.function.failed,lastError⟩)} = none :=
      work_uncreated absent (by simp)
    exact ⟨inv.contexts.destroy found (by simp [Call.context,absent,failed]) (by simp [Call.context,absent]),
      inv.works.keep found (by rw [free,work_uncreated absent (by simp [failed])]),inv.begun.set idle,inv.progress.set progress⟩
  next context work created =>
    have started : call.callback.begun = !call.function.submits := by simpa [Call.Begun,created] using begun
    split at taken
    next submits =>
      have absent := absent_of_idle (started.trans (by rw [submits]; rfl))
      have owns : call.work = some work := by simp [Call.work,submits,absent,created]
      have fresh : call.invocations = 0 ∧ call.result = none ∧ call.state = SharedState.new := by
        simpa [Call.Progress,absent] using progress
      cases taken
      rw [inv.works.use found owns]
      exact ⟨inv.contexts.keep found (by simp [Call.context,absent,created]),
        inv.works.keep found (by rw [owns]; simp [Call.work,submits]),inv.begun.set rfl,inv.progress.set fresh⟩
    next unsubmitted =>
      cases taken
      have starts : call.function.submits = false := by simpa using unsubmitted
      have running : call.callback.begun = true := by rw [started,starts]; rfl
      have same : Call.context {call with caller := .returned} = call.context := by
        cases callback : call.callback with
        | absent => simp [callback,Callback.begun] at running
        | _ => simp [Call.context,callback]
      exact ⟨inv.contexts.keep found same,inv.works.keep found (by simp [Call.work,starts]),inv.begun.set running,
        inv.progress.set progress⟩
  next => contradiction

/-- A step of the callback that uses the function and leaves it where it is. -/
theorem Inv.uses {context work : Nat} (inv : Inv s) (found : s.calls[i]? = some call)
    (before : call.callback.holds = some (context,work)) (after : next.callback.holds = some (context,work))
    (caller : next.caller = call.caller) (function : next.function = call.function) (progress : next.Progress) :
    Inv {s.put i next with contexts := s.contexts.use context} := by
  have used : s.contexts.use context = s.contexts := inv.contexts.use found (context_held before)
  rw [used]
  exact ⟨inv.contexts.keep found (by rw [context_held before,context_held after]),
    inv.works.keep found (by rw [work_held before,work_held after,function]),
    inv.begun.set ((inv.begun i call found).goes (holds_begun before) (holds_begun after) caller function),inv.progress.set progress⟩

theorem invoked_progress {context work : Nat} {result : Except ε (Assignment α ε)} (queued : call.callback = .queued context work)
    (progress : call.Progress) : Call.Progress {call with
      callback := invoked call.function context work result
      invocations := call.invocations + 1
      result := some result} := by
  obtain ⟨uncalled,_,new⟩ : call.invocations = 0 ∧ call.result = none ∧ call.state = SharedState.new := by
    simpa [Call.Progress,queued] using progress
  obtain ⟨function,caller,callback,state,invocations,came⟩ := call
  simp only at uncalled new
  subst uncalled new
  cases function with
  | run =>
    cases result with
    | ok assignment => exact ⟨rfl,rfl,rfl,rfl⟩
    | error ex => exact ⟨rfl,rfl,⟨.error ex,rfl,rfl⟩,rfl⟩
  | runDetached => exact ⟨⟨rfl,result,rfl,by simp⟩,by simp⟩
  | thread =>
    cases result with
    | ok assignment => exact ⟨⟨rfl,.ok assignment,rfl,by simp⟩,fun _ => rfl⟩
    | error ex => exact ⟨⟨rfl,.error ex,rfl,by simp⟩,fun _ => rfl⟩

/-- The promise is nobody else's, so it takes the value unless storing it throws. -/
theorem setValue_progress {context work : Nat} {assignment : Assignment α ε}
    (setting : call.callback = .setting context work assignment) (progress : call.Progress) : Call.Progress {call with
      state := (setValue threadException context work assignment call.state).1
      callback := (setValue threadException context work assignment call.state).2} := by
  obtain ⟨run,once,came,new⟩ : call.function = .run ∧ call.invocations = 1 ∧ call.result = some (.ok assignment) ∧
      call.state = SharedState.new := by simpa [Call.Progress,setting] using progress
  rw [new]
  cases assignment with
  | stores value => exact ⟨⟨once,.ok (.stores value),came,fun _ => ⟨rfl,rfl⟩⟩,by simp [run]⟩
  | throws left ex => exact ⟨run,once,⟨_,came,rfl⟩,rfl⟩

theorem setException_progress {context work : Nat} {ex : ε} (failing : call.callback = .failing context work ex)
    (progress : call.Progress) : Call.Progress {call with
      state := (setException context work ex call.state).1
      callback := (setException context work ex call.state).2} := by
  obtain ⟨run,once,⟨result,came,same⟩,unset⟩ : call.function = .run ∧ call.invocations = 1 ∧
      (∃ result, call.result = some result ∧ outcome result = .error ex) ∧ call.state.ready = false := by
    simpa [Call.Progress,failing] using progress
  simp only [setException,Future.setException,unset,Bool.false_eq_true,if_false]
  exact ⟨⟨once,result,came,fun _ => ⟨rfl,by simp [SharedState.outcome,same]⟩⟩,by simp [run]⟩

theorem Inv.invoke {result : Except ε (Assignment α ε)} (inv : Inv s) (found : s.calls[i]? = some call)
    (taken : invoke s i result call = some t) : Inv t := by
  unfold AsyncRun.invoke at taken
  split at taken
  next context work queued =>
    cases taken
    exact inv.uses found (by rw [queued]; rfl) (invoked_holds call.function context work result) rfl rfl
      (invoked_progress queued (inv.progress i call found))
  next => contradiction

theorem Inv.settle (inv : Inv s) (found : s.calls[i]? = some call) (taken : settle threadException s i call = some t) :
    Inv t := by
  unfold AsyncRun.settle at taken
  split at taken
  next context work assignment setting =>
    cases taken
    exact inv.uses found (by rw [setting]; rfl) (setValue_holds threadException context work assignment call.state) rfl rfl
      (setValue_progress setting (inv.progress i call found))
  next context work ex failing =>
    cases taken
    exact inv.uses found (by rw [failing]; rfl) (setException_holds context work ex call.state) rfl rfl
      (setException_progress failing (inv.progress i call found))
  next => contradiction

theorem deleted_progress {context work : Nat} {raised : Bool} (deleting : call.callback = .deleting context work raised)
    (progress : call.Progress) : Call.Progress {call with callback := deleted call.function work raised} := by
  obtain ⟨done,raising⟩ : call.Done ∧ (call.function = .thread → call.result.map raises = some raised) := by
    simpa [Call.Progress,deleting] using progress
  obtain ⟨function,caller,callback,state,invocations,came⟩ := call
  cases function with
  | run | runDetached => exact ⟨done,rfl⟩
  | thread =>
    refine ⟨done,rfl,(raising rfl).trans ?_,?_⟩
    · cases raised <;> rfl
    · cases raised <;> decide

theorem Inv.delete (inv : Inv s) (found : s.calls[i]? = some call) (taken : delete s i call = some t) : Inv t := by
  unfold AsyncRun.delete at taken
  split at taken
  next context work raised deleting =>
    cases taken
    have before : call.callback.holds = some (context,work) := by rw [deleting]; rfl
    have running : (deleted call.function work raised : Callback α ε).begun = true := by cases call.function <;> rfl
    have gone : Call.context {call with callback := deleted call.function work raised} = none := by
      obtain ⟨function,caller,callback,state,invocations,came⟩ := call
      cases function <;> rfl
    exact ⟨inv.contexts.destroy found (context_held before) gone,
      inv.works.keep found (by rw [work_held before,deleted_work]),
      inv.begun.set ((inv.begun i call found).goes (holds_begun before) running rfl rfl),
      inv.progress.set (deleted_progress deleting (inv.progress i call found))⟩
  next => contradiction

theorem Inv.close (inv : Inv s) (found : s.calls[i]? = some call) (taken : close s i call = some t) : Inv t := by
  unfold AsyncRun.close at taken
  split at taken
  next work closing =>
    cases taken
    obtain ⟨done,submits⟩ : call.Done ∧ call.function.submits = true := by
      simpa [Call.Progress,closing] using inv.progress i call found
    exact ⟨inv.contexts.keep found (by simp [Call.context,closing]),
      inv.works.destroy found (by simp [Call.work,closing,submits]) (by simp [Call.work,submits]),
      inv.begun.set ((inv.begun i call found).goes (by rw [closing]; rfl) rfl rfl rfl),inv.progress.set ⟨done,submits⟩⟩
  next => contradiction

theorem inv_step (s : State α ε) (label : Label α ε) (t : State α ε) (inv : Inv s)
    (taken : step threadException s label = some t) : Inv t := by
  cases label with
  | start function =>
    cases taken
    exact inv.start function
  | promise i made =>
    obtain ⟨call,found,done⟩ := Option.bind_eq_some_iff.mp taken
    exact inv.promise found done
  | allocate i address =>
    obtain ⟨call,found,done⟩ := Option.bind_eq_some_iff.mp taken
    exact inv.allocate found done
  | create i answer lastError =>
    obtain ⟨call,found,done⟩ := Option.bind_eq_some_iff.mp taken
    exact inv.create found done
  | proceed i =>
    obtain ⟨call,found,done⟩ := Option.bind_eq_some_iff.mp taken
    exact inv.proceed found done
  | invoke i result =>
    obtain ⟨call,found,done⟩ := Option.bind_eq_some_iff.mp taken
    exact inv.invoke found done
  | settle i =>
    obtain ⟨call,found,done⟩ := Option.bind_eq_some_iff.mp taken
    exact inv.settle found done
  | delete i =>
    obtain ⟨call,found,done⟩ := Option.bind_eq_some_iff.mp taken
    exact inv.delete found done
  | close i =>
    obtain ⟨call,found,done⟩ := Option.bind_eq_some_iff.mp taken
    exact inv.close found done

theorem inv_run {labels : List (Label α ε)} (reached : run (step threadException) init labels = some s) : Inv s :=
  run_invariant Inv inv_step .init reached

theorem Call.Progress.called (progress : call.Progress) : call.invocations ≤ 1 ∧
    (call.state.ready = true → ∃ result, call.result = some result ∧ (call.function = .run → call.state.outcome = outcome result)) := by
  have finished (done : call.Done) : call.invocations ≤ 1 ∧ (call.state.ready = true →
      ∃ result, call.result = some result ∧ (call.function = .run → call.state.outcome = outcome result)) := by
    obtain ⟨once,result,came,settled⟩ := done
    exact ⟨once.le,fun _ => ⟨result,came,fun same => (settled same).2⟩⟩
  unfold Call.Progress at progress
  split at progress
  next =>
    obtain ⟨uncalled,_,new⟩ := progress
    exact ⟨uncalled.trans_le (Nat.zero_le 1),fun ready => by rw [new] at ready; contradiction⟩
  next =>
    obtain ⟨uncalled,_,new⟩ := progress
    exact ⟨uncalled.trans_le (Nat.zero_le 1),fun ready => by rw [new] at ready; contradiction⟩
  next =>
    obtain ⟨_,once,_,new⟩ := progress
    exact ⟨once.le,fun ready => by rw [new] at ready; contradiction⟩
  next =>
    obtain ⟨_,once,_,unset⟩ := progress
    exact ⟨once.le,fun ready => absurd (unset.symm.trans ready) Bool.false_ne_true⟩
  next => exact finished progress.1
  next => exact finished progress.1
  next => exact finished progress.1
  next => exact finished progress.1

def Label.continues : Label α ε → Bool
  | .start _ => false
  | _ => true

theorem step_left {label : Label α ε} (inv : Inv s) (taken : step threadException s label = some t)
    (continues : label.continues = true) : t.left < s.left ∧ t.calls.length = s.calls.length := by
  cases label with
  | start function => contradiction
  | promise i made =>
    obtain ⟨call,found,done⟩ := Option.bind_eq_some_iff.mp taken
    unfold promise at done
    split at done
    next same entered =>
      cases done
      refine left_put found ?_
      cases made <;> simp [Call.left,Caller.left,entered]
    next => contradiction
  | allocate i address =>
    obtain ⟨call,found,done⟩ := Option.bind_eq_some_iff.mp taken
    unfold allocate at done
    split at done
    next allocates =>
      have waits := allocates_left allocates
      split at done
      next =>
        cases done
        exact left_put found (Nat.add_lt_add_right (Nat.zero_lt_of_lt waits) _)
      next =>
        split at done
        next => contradiction
        next =>
          cases done
          exact left_put found (Nat.add_lt_add_right waits _)
    next => contradiction
  | create i answer lastError =>
    obtain ⟨call,found,done⟩ := Option.bind_eq_some_iff.mp taken
    have begun := inv.begun i call found
    unfold create at done
    split at done
    next context allocated =>
      cases done
      exact left_put found (by simp [Call.left,Caller.left,allocated])
    next context work allocated =>
      have absent := absent_of_idle (by simpa [Call.Begun,allocated] using begun)
      split at done
      next =>
        split at done
        next => contradiction
        next =>
          cases done
          exact left_put found (by simp [Call.left,Caller.left,allocated])
      next =>
        cases done
        exact left_put found (by simp [Call.left,Caller.left,Callback.left,allocated,absent])
    next => contradiction
  | proceed i =>
    obtain ⟨call,found,done⟩ := Option.bind_eq_some_iff.mp taken
    have begun := inv.begun i call found
    unfold proceed at done
    split at done
    next context lastError failed =>
      cases done
      exact left_put found (by simp [Call.left,Caller.left,failed])
    next context work created =>
      split at done
      next submits =>
        have absent := absent_of_idle (by simpa [Call.Begun,created,submits] using begun)
        cases done
        exact left_put found (by simp [Call.left,Caller.left,Callback.left,created,absent])
      next =>
        cases done
        exact left_put found (by simp [Call.left,Caller.left,created])
    next => contradiction
  | invoke i result =>
    obtain ⟨call,found,done⟩ := Option.bind_eq_some_iff.mp taken
    unfold invoke at done
    split at done
    next context work queued =>
      cases done
      have fewer := invoked_left call.function context work result
      exact left_put found (Nat.add_lt_add_left (fewer.trans_eq (by rw [queued]; rfl)) _)
    next => contradiction
  | settle i =>
    obtain ⟨call,found,done⟩ := Option.bind_eq_some_iff.mp taken
    unfold settle at done
    split at done
    next context work assignment setting =>
      cases done
      have fewer := setValue_left threadException context work assignment call.state
      exact left_put found (Nat.add_lt_add_left (fewer.trans_eq (by rw [setting]; rfl)) _)
    next context work ex failing =>
      cases done
      have fewer := setException_left context work ex call.state
      exact left_put found (Nat.add_lt_add_left (fewer.trans_eq (by rw [failing]; rfl)) _)
    next => contradiction
  | delete i =>
    obtain ⟨call,found,done⟩ := Option.bind_eq_some_iff.mp taken
    unfold delete at done
    split at done
    next context work raised deleting =>
      cases done
      have fewer : (deleted call.function work raised : Callback α ε).left < 2 := deleted_left call.function work raised
      exact left_put found (Nat.add_lt_add_left (fewer.trans_eq (by rw [deleting]; rfl)) _)
    next => contradiction
  | close i =>
    obtain ⟨call,found,done⟩ := Option.bind_eq_some_iff.mp taken
    unfold close at done
    split at done
    next work closing =>
      cases done
      exact left_put found (by simp [Call.left,closing,Callback.left])
    next => contradiction

theorem bounded_run {labels : List (Label α ε)} (reached : run (step threadException) init labels = some s) :
    labels.length + s.left ≤ 10 * s.calls.length := by
  have initial : Inv (init : State α ε) ∧ ([] : List (Label α ε)).length + (init : State α ε).left ≤ 10 * (init : State α ε).calls.length :=
    ⟨.init,Nat.le_refl 0⟩
  refine (run_history (fun state past => Inv state ∧ past.length + state.left ≤ 10 * state.calls.length) ?_ [] initial reached).2
  intro before past label after known taken
  refine ⟨inv_step before label after known.1 taken,?_⟩
  have bound := known.2
  rw [List.length_append,List.length_singleton]
  cases continues : label.continues with
  | true =>
    obtain ⟨fewer,same⟩ := step_left known.1 taken continues
    omega
  | false =>
    obtain ⟨function,rfl⟩ : ∃ function, label = .start function := by
      cases label with
      | start function => exact ⟨function,rfl⟩
      | _ => contradiction
    cases taken
    simp only [State.left,List.map_append,List.sum_append,List.length_append,List.map_cons,List.map_nil,List.sum_cons,
      List.sum_nil,List.length_singleton,Call.new,Call.left,Caller.left,Callback.left] at bound ⊢
    omega

theorem on_found {label : Label α ε} {act : Call α ε → Option (State α ε)} (found : s.calls[i]? = some call)
    (same : step threadException s label = s.on i act) (acts : act call = some t) : step threadException s label = some t := by
  rw [same,State.on,found]
  exact acts

/-- The callback goes on until the call is settled. -/
theorem callback_steps (inv : Inv s) (found : s.calls[i]? = some call) (running : call.callback.begun = true)
    (returned : call.caller = .returned) :
    call.Settled ∨ ∃ label t, label.continues = true ∧ step threadException s label = some t := by
  have progress := inv.progress i call found
  cases callback : call.callback with
  | absent => simp [callback,Callback.begun] at running
  | queued context work =>
    exact Or.inr ⟨.invoke i (.ok (.stores default)),_,rfl,on_found found rfl (by simp only [invoke,callback]; rfl)⟩
  | setting context work assignment =>
    exact Or.inr ⟨.settle i,_,rfl,on_found found rfl (by simp only [settle,callback]; rfl)⟩
  | failing context work ex =>
    exact Or.inr ⟨.settle i,_,rfl,on_found found rfl (by simp only [settle,callback]; rfl)⟩
  | deleting context work raised =>
    exact Or.inr ⟨.delete i,_,rfl,on_found found rfl (by simp only [delete,callback]; rfl)⟩
  | closing work =>
    exact Or.inr ⟨.close i,_,rfl,on_found found rfl (by simp only [close,callback]; rfl)⟩
  | closed =>
    obtain ⟨done,submits⟩ : call.Done ∧ call.function.submits = true := by simpa [Call.Progress,callback] using progress
    exact Or.inl (Or.inr ⟨returned,done,by simpa [callback] using submits⟩)
  | exited code =>
    simp only [Call.Progress,callback] at progress
    exact Or.inl (Or.inr ⟨returned,progress.1,by simpa [callback] using progress.2⟩)

theorem settled_or_steps (threadException : String → ε) (inv : Inv s) (found : s.calls[i]? = some call) :
    call.Settled ∨ ∃ label t, label.continues = true ∧ step threadException s label = some t := by
  have begun := inv.begun i call found
  cases caller : call.caller with
  | entered =>
    cases function : call.function with
    | run => exact Or.inr ⟨.promise i false,_,rfl,on_found found rfl (by simp only [promise,function,caller]; rfl)⟩
    | runDetached | thread =>
      exact Or.inr ⟨.allocate i none,_,rfl,on_found found rfl (by simp only [allocate,Call.allocates,function,caller]; rfl)⟩
  | promised =>
    have same : call.function = .run := by
      simp only [Call.Begun,caller] at begun
      exact begun.2
    exact Or.inr ⟨.allocate i none,_,rfl,on_found found rfl (by simp only [allocate,Call.allocates,same,caller]; rfl)⟩
  | allocated context =>
    exact Or.inr ⟨.create i none 0,_,rfl,on_found found rfl (by simp only [create,caller]; rfl)⟩
  | failed context lastError =>
    exact Or.inr ⟨.proceed i,_,rfl,on_found found rfl (by simp only [proceed,caller]; rfl)⟩
  | created context work =>
    cases submits : call.function.submits with
    | true => exact Or.inr ⟨.proceed i,_,rfl,on_found found rfl (by simp only [proceed,caller,submits,if_true]; rfl)⟩
    | false =>
      exact Or.inr ⟨.proceed i,_,rfl,on_found found rfl (by
        simp only [proceed,caller,submits,Bool.false_eq_true,if_false]; rfl)⟩
  | returned => exact callback_steps inv found (by simpa [Call.Begun,caller] using begun) caller
  | threw thrown =>
    have absent := absent_of_idle (by simpa [Call.Begun,caller] using begun)
    obtain ⟨uncalled,_,new⟩ : call.invocations = 0 ∧ call.result = none ∧ call.state = SharedState.new := by
      simpa [Call.Progress,absent] using inv.progress i call found
    exact Or.inl (Or.inl ⟨⟨thrown,caller⟩,uncalled,by rw [new]; rfl⟩)

/-- However callers and callbacks interleave and whatever addresses the system uses again, no
function is used or deleted when it is not there and no work is submitted or closed when it is not
open, each has one call that is to delete or close it, and no function is called twice. -/
theorem contexts_owned {labels : List (Label α ε)} (reached : run (step threadException) init labels = some s) :
    Owned Call.context s.calls s.contexts ∧ Owned Call.work s.calls s.works ∧
      ∀ call ∈ s.calls, call.invocations ≤ 1 ∧ (call.state.ready = true →
        ∃ result, call.result = some result ∧ (call.function = .run → call.state.outcome = outcome result)) := by
  have inv := inv_run reached
  refine ⟨inv.contexts,inv.works,fun call member => ?_⟩
  obtain ⟨i,found⟩ := List.mem_iff_getElem?.mp member
  exact (inv.progress i call found).called

/-- The second call is given the address of the first, which the system took no work for. -/
def reuses : List (Label Nat Nat) :=
  [.start .run,.promise 0 true,.allocate 0 (some 7),.create 0 none 8,.proceed 0,.start .thread,.allocate 1 (some 7),
    .create 1 (some 3) 0,.invoke 1 (.error 5),.delete 1,.proceed 1,.start .runDetached,.allocate 2 (some 7)]

theorem contexts_owned_reuses : ∃ s, run (step fun _ => 0) init reuses = some s ∧
    s.contexts.made = [7,7,7] ∧ s.contexts.destroyed = [7,7] ∧ Owned Call.context s.calls s.contexts := by
  obtain ⟨s,reached,made,destroyed⟩ : ∃ s, run (step fun _ => 0) init reuses = some s ∧
      s.contexts.made = [7,7,7] ∧ s.contexts.destroyed = [7,7] := ⟨_,rfl,rfl,rfl⟩
  exact ⟨s,reached,made,destroyed,(contexts_owned reached).1⟩

/-- Every run comes to an end, and when nothing is left to do every function is deleted, every work is
closed, and every call either threw and called nothing or called its function and made its future ready. -/
theorem calls_settle {labels : List (Label α ε)} (reached : run (step threadException) init labels = some s) :
    labels.length ≤ 10 * s.calls.length ∧
      ((∀ label, label.continues = true → step threadException s label = none) →
        (∀ context, s.contexts.live context = false ∧ s.contexts.made.count context = s.contexts.destroyed.count context) ∧
        (∀ work, s.works.live work = false ∧ s.works.made.count work = s.works.destroyed.count work) ∧
        ∀ call ∈ s.calls, call.Settled) := by
  have inv := inv_run reached
  constructor
  · have bounded := bounded_run reached
    omega
  · intro stuck
    have settled (call : Call α ε) (member : call ∈ s.calls) : call.Settled := by
      obtain ⟨i,found⟩ := List.mem_iff_getElem?.mp member
      rcases settled_or_steps threadException inv found with done | ⟨label,t,continues,taken⟩
      · exact done
      · exact absurd taken (by simp [stuck label continues])
    have released (call : Call α ε) (member : call ∈ s.calls) : call.context = none ∧ call.work = none := by
      obtain ⟨i,found⟩ := List.mem_iff_getElem?.mp member
      exact (settled call member).releases (inv.begun i call found)
    exact ⟨inv.contexts.settled fun call member => (released call member).1,
      inv.works.settled fun call member => (released call member).2,settled⟩

/-- The value cannot be stored, and the future gets what storing it threw. -/
def unstorable : List (Label Nat Nat) :=
  [.start .run,.promise 0 true,.allocate 0 (some 7),.create 0 (some 3) 0,.proceed 0,.invoke 0 (.ok (.throws 1 9)),.settle 0,
    .settle 0,.delete 0,.close 0]

theorem calls_settle_unstorable : ∃ s, run (step fun _ => 0) init unstorable = some s ∧
    unstorable.length = 10 * s.calls.length ∧ ∀ call ∈ s.calls, call.Settled := by
  obtain ⟨s,reached,stuck⟩ : ∃ s, run (step fun _ => 0) init unstorable = some s ∧
      ∀ label, label.continues = true → step (fun _ => 0) s label = none := by
    refine ⟨_,rfl,fun label continues => ?_⟩
    cases label with
    | start => contradiction
    | promise i _ | allocate i _ | create i _ _ | proceed i | invoke i _ | settle i | delete i | close i =>
      cases i <;> rfl
  have settled := calls_settle reached
  have single : s.calls.length = 1 := by
    cases reached
    rfl
  exact ⟨s,reached,by rw [single]; rfl,(settled.2 stuck).2.2⟩

end Ezthread.AsyncRun
