import Ezthread.Future

/-! `ThreadPool` of pool.cpp. A step is one atomic access, one block under a lock
that has no atomic access in it, or the part of `m_queueMutex` blocks between two
of their atomic accesses; so the flags change under a worker that holds the lock.
A worker asleep on `m_queueCV` may wake at any time, so notifications change
nothing. -/
namespace Ezthread.ThreadPool
open Transition Activation Future

variable {α ε : Type*}

/-- `size_t` has `width` bits; `currentException` is `std::current_exception()`. -/
structure Platform (ε : Type*) where
  width : Nat
  hardwareConcurrency : Nat
  currentException : Failure ε → ε

structure Config where
  minThreads : Nat
  maxThreads : Nat

inductive Actor
  | worker (k : Nat)
  | call (i : Nat)
  deriving DecidableEq

/-- The program points of `WorkerLoop`, with its local `task`. From `waitStopping`
to `unlock` it holds `m_queueMutex`. -/
inductive Worker (α ε : Type*)
  | test
  | testPaused
  | sleeping
  | lockQueue
  | waitStopping
  | asleep
  | takeStopping
  | take
  | fetchSub (id : Nat)
  | unlock (task : Option Nat)
  | markActive (id : Nat)
  | execute (id : Nat)
  | running (id : Nat)
  | settle (id : Nat) (outcome : Except ε α)
  | markIdle
  | exited

inductive Request
  | submit
  | submitDetached
  | pause
  | resume
  | stop (waitForTasks : Bool)
  | getPendingTaskCount

/-- What a call returns. `task` and `first` are no memory of the program: they tell
which task a `SubmitDetached` has enqueued and which `Stop` found the pool not
stopping. -/
inductive Answer
  | nothing (task : Option Nat)
  | future (id : Nat)
  | count (value : Nat)
  | stopped (first : Bool)

/-- From `fetchAdd` to `unlock` a call holds `m_queueMutex`. -/
inductive Point
  | entering
  | fetchAdd (id : Nat)
  | unlock (id : Nat)
  | notifyOne (id : Nat)
  | notifyResumed
  | notifyStopping (waitForTasks : Bool)
  | poll
  | takeWorkers
  | join (workers : List Nat)
  | clear
  | storePending
  | storeStopping
  | threw
  | returned (answer : Answer)

/-- `enqueued` is no memory of the program: the number of tasks enqueued when the
call began. -/
structure Call where
  request : Request
  enqueued : Nat
  point : Point

/-- Tasks are numbered as they are enqueued. `promises` holds the shared state of
each, none for a detached one. From `dequeued` on nothing is memory of the program:
it is what became of the tasks. -/
structure State (α ε : Type*) where
  queueMutex : Option Actor
  taskQueue : List Nat
  threads : List Nat
  workerActive : List Bool
  stopping : Bool
  paused : Bool
  pendingTasks : Nat
  workers : List (Worker α ε)
  calls : List Call
  promises : List (Option (SharedState α ε))
  dequeued : List Nat
  discarded : List Nat
  executed : List Nat
  finished : List (Nat × Except ε α)

inductive Label (α ε : Type*)
  | invoke (request : Request)
  | call (i : Nat)
  | fail (i : Nat)
  | worker (k : Nat)
  | finish (k : Nat) (outcome : Except ε α)

def Config.default (platform : Platform ε) : Config := ⟨0,platform.hardwareConcurrency⟩

/-- `m_config` as the constructor leaves it. -/
def Config.adjust (platform : Platform ε) (config : Config) : Config :=
  let maxThreads := if config.maxThreads = 0 then platform.hardwareConcurrency else config.maxThreads
  ⟨if config.minThreads > maxThreads then maxThreads else config.minThreads,maxThreads⟩

def empty : State α ε where
  queueMutex := none
  taskQueue := []
  threads := []
  workerActive := []
  stopping := false
  paused := false
  pendingTasks := 0
  workers := []
  calls := []
  promises := []
  dequeued := []
  discarded := []
  executed := []
  finished := []

def createWorker (s : State α ε) : State α ε :=
  {s with
    threads := s.threads ++ [s.threads.length]
    workerActive := s.workerActive ++ [false]
    workers := s.workers ++ [.test]}

def createWorkers : Nat → State α ε → State α ε
  | 0,s => s
  | n + 1,s => createWorkers n (createWorker s)

def construct (platform : Platform ε) (config : Config) : State α ε :=
  createWorkers (config.adjust platform).minThreads empty

/-- `Submit` returns a future of the task, `SubmitDetached` nothing. -/
def Request.enqueued (id : Nat) : Request → Answer
  | .submit => .future id
  | _ => .nothing (some id)

def State.goto (s : State α ε) (k : Nat) (worker : Worker α ε) : State α ε :=
  {s with workers := s.workers.set k worker}

def State.proceed (s : State α ε) (i : Nat) (call : Call) (point : Point) : State α ε :=
  {s with calls := s.calls.set i {call with point := point}}

/-- The end of a task from `Submit`: `SetValue` with the value its function
returned, or `SetException` with what that call or `SetValue` threw. -/
def settle (platform : Platform ε) (outcome : Except ε α) (promise : SharedState α ε) :
    SharedState α ε × Except (Failure ε) Unit :=
  match outcome with
  | .ok value =>
      match setValue (.stores value) promise with
      | (after,.ok _) => (after,.ok ())
      | (after,.error failure) => setException (platform.currentException failure) after
  | .error ex => setException ex promise

/-- A detached task swallows every exception. -/
def settleTask (platform : Platform ε) (outcome : Except ε α) :
    Option (SharedState α ε) → Option (SharedState α ε) × Except (Failure ε) Unit
  | none => (none,.ok ())
  | some promise => ((settle platform outcome promise).1,(settle platform outcome promise).2)

def stepWorker (platform : Platform ε) (s : State α ε) (k : Nat) : Worker α ε → Option (State α ε)
  | .test => some (s.goto k (if s.stopping then .exited else .testPaused))
  | .testPaused => some (s.goto k (if s.paused then .sleeping else .lockQueue))
  | .sleeping => some (s.goto k .test)
  | .lockQueue | .asleep =>
      if s.queueMutex = none then
        some (({s with queueMutex := some (.worker k)} : State α ε).goto k
          (if s.taskQueue = [] then .waitStopping else .takeStopping))
      else none
  | .waitStopping =>
      if s.stopping then some (s.goto k (.unlock none))
      else some (({s with queueMutex := none} : State α ε).goto k .asleep)
  | .takeStopping => some (s.goto k (if s.stopping then .unlock none else .take))
  | .take =>
      match s.taskQueue with
      | [] => none
      | id :: rest =>
          some (({s with taskQueue := rest, dequeued := s.dequeued ++ [id]} : State α ε).goto k (.fetchSub id))
  | .fetchSub id =>
      some (({s with
        pendingTasks := (s.pendingTasks + (2 ^ platform.width - 1)) % 2 ^ platform.width} : State α ε).goto k
          (.unlock (some id)))
  | .unlock none => some (({s with queueMutex := none} : State α ε).goto k .test)
  | .unlock (some id) => some (({s with queueMutex := none} : State α ε).goto k (.markActive id))
  | .markActive id => some (({s with workerActive := s.workerActive.set k true} : State α ε).goto k (.execute id))
  | .execute id => some (({s with executed := s.executed ++ [id]} : State α ε).goto k (.running id))
  | .settle id outcome =>
      match s.promises[id]? with
      | some promise =>
          match settleTask platform outcome promise with
          | (after,.ok _) =>
              some (({s with
                promises := s.promises.set id after
                finished := s.finished ++ [(id,outcome)]} : State α ε).goto k .markIdle)
          -- thrown out of the catch clause: the thread function ends
          | (after,.error _) =>
              some (({s with promises := s.promises.set id after} : State α ε).goto k .exited)
      | none => none
  | .markIdle => some (({s with workerActive := s.workerActive.set k false} : State α ε).goto k .test)
  | .running _ | .exited => none

/-- The block of `Submit` and `SubmitDetached`, up to its atomic access. A queue of
pointers cannot hold one for each `size_t`. -/
def push (platform : Platform ε) (s : State α ε) (i : Nat) (call : Call) (promise : Option (SharedState α ε)) :
    Option (State α ε) :=
  if s.queueMutex = none ∧ s.taskQueue.length + 1 < 2 ^ platform.width then
    some (({s with
      queueMutex := some (.call i)
      taskQueue := s.taskQueue ++ [s.promises.length]
      promises := s.promises ++ [promise]} : State α ε).proceed i call (.fetchAdd s.promises.length))
  else none

def stepCall [Inhabited α] [Inhabited ε] (platform : Platform ε) (s : State α ε) (i : Nat) (call : Call) :
    Option (State α ε) :=
  match call.point with
  | .entering =>
      match call.request with
      | .submit => push platform s i call (some SharedState.new)
      | .submitDetached => push platform s i call none
      | .pause => some (({s with paused := true} : State α ε).proceed i call (.returned (.nothing none)))
      | .resume => some (({s with paused := false} : State α ε).proceed i call .notifyResumed)
      | .stop waitForTasks =>
          if s.stopping then some (s.proceed i call (.returned (.stopped false)))
          else some (({s with stopping := true} : State α ε).proceed i call (.notifyStopping waitForTasks))
      | .getPendingTaskCount => some (s.proceed i call (.returned (.count s.pendingTasks)))
  | .fetchAdd id =>
      some (({s with pendingTasks := (s.pendingTasks + 1) % 2 ^ platform.width} : State α ε).proceed i call
        (.unlock id))
  | .unlock id => some (({s with queueMutex := none} : State α ε).proceed i call (.notifyOne id))
  | .notifyOne id => some (s.proceed i call (.returned (call.request.enqueued id)))
  | .notifyResumed => some (s.proceed i call (.returned (.nothing none)))
  | .notifyStopping waitForTasks => some (s.proceed i call (if waitForTasks then .poll else .takeWorkers))
  | .poll => some (s.proceed i call (if s.pendingTasks > 0 then .poll else .takeWorkers))
  | .takeWorkers =>
      some (({s with threads := [], workerActive := []} : State α ε).proceed i call (.join s.threads))
  | .join [] => some (s.proceed i call .clear)
  | .join (k :: rest) =>
      match s.workers[k]? with
      | some .exited => some (s.proceed i call (.join rest))
      | _ => none
  | .clear =>
      if s.queueMutex = none then
        some (({s with taskQueue := [], discarded := s.discarded ++ s.taskQueue} : State α ε).proceed i call
          .storePending)
      else none
  | .storePending => some (({s with pendingTasks := 0} : State α ε).proceed i call .storeStopping)
  | .storeStopping => some (({s with stopping := true} : State α ε).proceed i call (.returned (.stopped true)))
  | .threw | .returned _ => none

def step [Inhabited α] [Inhabited ε] (platform : Platform ε) (s : State α ε) : Label α ε → Option (State α ε)
  | .invoke request => some {s with calls := s.calls ++ [⟨request,s.promises.length,.entering⟩]}
  | .call i =>
      match s.calls[i]? with
      | some call => stepCall platform s i call
      | none => none
  -- an allocation or the push itself throws
  | .fail i =>
      match s.calls[i]? with
      | some ⟨.submit,enqueued,.entering⟩ => some (s.proceed i ⟨.submit,enqueued,.entering⟩ .threw)
      | some ⟨.submitDetached,enqueued,.entering⟩ => some (s.proceed i ⟨.submitDetached,enqueued,.entering⟩ .threw)
      | _ => none
  | .worker k =>
      match s.workers[k]? with
      | some worker => stepWorker platform s k worker
      | none => none
  -- the function of a task returns or throws
  | .finish k outcome =>
      match s.workers[k]? with
      | some (.running id) => some (s.goto k (.settle id outcome))
      | _ => none

/-- The moves of a worker that change nothing but its program point (and its
`m_workerActive`, which nothing reads). -/
inductive Walks (s : State α ε) : Worker α ε → Worker α ε → Prop
  | exit (stopping : s.stopping = true) : Walks s .test .exited
  | enter (running : s.stopping = false) : Walks s .test .testPaused
  | pause (paused : s.paused = true) : Walks s .testPaused .sleeping
  | pass (unpaused : s.paused = false) : Walks s .testPaused .lockQueue
  | wake : Walks s .sleeping .test
  | giveUp (stopping : s.stopping = true) : Walks s .waitStopping (.unlock none)
  | leave (stopping : s.stopping = true) : Walks s .takeStopping (.unlock none)
  | commit (running : s.stopping = false) : Walks s .takeStopping .take
  | mark (id) : Walks s (.markActive id) (.execute id)
  | finish (id outcome) : Walks s (.running id) (.settle id outcome)
  | unmark : Walks s .markIdle .test

inductive Releases (s : State α ε) : Worker α ε → Worker α ε → Prop
  | sleep (running : s.stopping = false) : Releases s .waitStopping .asleep
  | idle : Releases s (.unlock none) .test
  | task (id) : Releases s (.unlock (some id)) (.markActive id)

/-- The moves of a call that change nothing but its program point. -/
inductive Proceeds (s : State α ε) (request : Request) : Point → Point → Prop
  | count (asks : request = .getPendingTaskCount) : Proceeds s request .entering (.returned (.count s.pendingTasks))
  | lose (waitForTasks) (asks : request = .stop waitForTasks) (stopping : s.stopping = true) :
      Proceeds s request .entering (.returned (.stopped false))
  | fail (asks : request = .submit ∨ request = .submitDetached) : Proceeds s request .entering .threw
  | returnFuture (id) (asks : request = .submit) : Proceeds s request (.notifyOne id) (.returned (.future id))
  | returnNothing (id) (other : request ≠ .submit) : Proceeds s request (.notifyOne id) (.returned (.nothing (some id)))
  | notifyResumed : Proceeds s request .notifyResumed (.returned (.nothing none))
  | await : Proceeds s request (.notifyStopping true) .poll
  | skip : Proceeds s request (.notifyStopping false) .takeWorkers
  | poll (pending : 0 < s.pendingTasks) : Proceeds s request .poll .poll
  | drained (drained : s.pendingTasks = 0) : Proceeds s request .poll .takeWorkers
  | join (k rest) (exited : s.workers[k]? = some .exited) : Proceeds s request (.join (k :: rest)) (.join rest)
  | noneLeft : Proceeds s request (.join []) .clear

inductive Enqueues [Inhabited α] [Inhabited ε] : Request → Option (SharedState α ε) → Prop
  | submit : Enqueues .submit (some SharedState.new)
  | submitDetached : Enqueues .submitDetached none

/-- All a step of one worker can do. -/
inductive WorkerMoves (platform : Platform ε) (s : State α ε) (k : Nat) : State α ε → Prop
  | walk (before after active) (found : s.workers[k]? = some before) (walks : Walks s before after) :
      WorkerMoves platform s k (({s with workerActive := active} : State α ε).goto k after)
  | lock (before) (found : s.workers[k]? = some before) (waits : before = .lockQueue ∨ before = .asleep)
      (free : s.queueMutex = none) :
      WorkerMoves platform s k (({s with queueMutex := some (.worker k)} : State α ε).goto k
        (if s.taskQueue = [] then .waitStopping else .takeStopping))
  | release (before after) (found : s.workers[k]? = some before) (releases : Releases s before after) :
      WorkerMoves platform s k (({s with queueMutex := none} : State α ε).goto k after)
  | take (id rest) (found : s.workers[k]? = some .take) (front : s.taskQueue = id :: rest) :
      WorkerMoves platform s k
        (({s with taskQueue := rest, dequeued := s.dequeued ++ [id]} : State α ε).goto k (.fetchSub id))
  | fetchSub (id) (found : s.workers[k]? = some (.fetchSub id)) :
      WorkerMoves platform s k (({s with
        pendingTasks := (s.pendingTasks + (2 ^ platform.width - 1)) % 2 ^ platform.width} : State α ε).goto k
          (.unlock (some id)))
  | execute (id) (found : s.workers[k]? = some (.execute id)) :
      WorkerMoves platform s k (({s with executed := s.executed ++ [id]} : State α ε).goto k (.running id))
  | settle (id outcome promise after) (found : s.workers[k]? = some (.settle id outcome))
      (present : s.promises[id]? = some promise) (settled : settleTask platform outcome promise = (after,.ok ())) :
      WorkerMoves platform s k (({s with
        promises := s.promises.set id after
        finished := s.finished ++ [(id,outcome)]} : State α ε).goto k .markIdle)
  | abort (id outcome promise after failure) (found : s.workers[k]? = some (.settle id outcome))
      (present : s.promises[id]? = some promise)
      (settled : settleTask platform outcome promise = (after,.error failure)) :
      WorkerMoves platform s k (({s with promises := s.promises.set id after} : State α ε).goto k .exited)

inductive CallMoves [Inhabited α] [Inhabited ε] (platform : Platform ε) (s : State α ε) (i : Nat) (call : Call) :
    State α ε → Prop
  | proceed (point) (proceeds : Proceeds s call.request call.point point) :
      CallMoves platform s i call (s.proceed i call point)
  | push (promise) (entering : call.point = .entering) (enqueues : Enqueues call.request promise)
      (free : s.queueMutex = none) (room : s.taskQueue.length + 1 < 2 ^ platform.width) :
      CallMoves platform s i call (({s with
        queueMutex := some (.call i)
        taskQueue := s.taskQueue ++ [s.promises.length]
        promises := s.promises ++ [promise]} : State α ε).proceed i call (.fetchAdd s.promises.length))
  | fetchAdd (id) (adds : call.point = .fetchAdd id) :
      CallMoves platform s i call
        (({s with pendingTasks := (s.pendingTasks + 1) % 2 ^ platform.width} : State α ε).proceed i call (.unlock id))
  | unlock (id) (unlocks : call.point = .unlock id) :
      CallMoves platform s i call (({s with queueMutex := none} : State α ε).proceed i call (.notifyOne id))
  | pause (entering : call.point = .entering) (asks : call.request = .pause) :
      CallMoves platform s i call (({s with paused := true} : State α ε).proceed i call (.returned (.nothing none)))
  | resume (entering : call.point = .entering) (asks : call.request = .resume) :
      CallMoves platform s i call (({s with paused := false} : State α ε).proceed i call .notifyResumed)
  | exchange (waitForTasks) (entering : call.point = .entering) (asks : call.request = .stop waitForTasks)
      (running : s.stopping = false) :
      CallMoves platform s i call
        (({s with stopping := true} : State α ε).proceed i call (.notifyStopping waitForTasks))
  | takeWorkers (takes : call.point = .takeWorkers) :
      CallMoves platform s i call
        (({s with threads := [], workerActive := []} : State α ε).proceed i call (.join s.threads))
  | clear (clears : call.point = .clear) (free : s.queueMutex = none) :
      CallMoves platform s i call
        (({s with taskQueue := [], discarded := s.discarded ++ s.taskQueue} : State α ε).proceed i call .storePending)
  | storePending (stores : call.point = .storePending) :
      CallMoves platform s i call (({s with pendingTasks := 0} : State α ε).proceed i call .storeStopping)
  | storeStopping (stores : call.point = .storeStopping) :
      CallMoves platform s i call
        (({s with stopping := true} : State α ε).proceed i call (.returned (.stopped true)))

inductive Moves [Inhabited α] [Inhabited ε] (platform : Platform ε) (s : State α ε) : State α ε → Prop
  | invoke (request) : Moves platform s {s with calls := s.calls ++ [⟨request,s.promises.length,.entering⟩]}
  | worker (k t) (moves : WorkerMoves platform s k t) : Moves platform s t
  | call (i call t) (found : s.calls[i]? = some call) (moves : CallMoves platform s i call t) : Moves platform s t

theorem stepWorker_moves {platform : Platform ε} {s t : State α ε} {k : Nat}
    {worker : Worker α ε} (found : s.workers[k]? = some worker) (taken : stepWorker platform s k worker = some t) :
    WorkerMoves platform s k t := by
  cases worker with
  | test =>
    cases taken
    cases stopping : s.stopping with
    | true => exact .walk _ _ s.workerActive found (.exit stopping)
    | false => exact .walk _ _ s.workerActive found (.enter stopping)
  | testPaused =>
    cases taken
    cases paused : s.paused with
    | true => exact .walk _ _ s.workerActive found (.pause paused)
    | false => exact .walk _ _ s.workerActive found (.pass paused)
  | sleeping =>
    cases taken
    exact .walk _ _ s.workerActive found .wake
  | lockQueue =>
    simp only [stepWorker] at taken
    split at taken
    next free =>
      cases taken
      exact .lock _ found (Or.inl rfl) free
    next => contradiction
  | asleep =>
    simp only [stepWorker] at taken
    split at taken
    next free =>
      cases taken
      exact .lock _ found (Or.inr rfl) free
    next => contradiction
  | waitStopping =>
    simp only [stepWorker] at taken
    split at taken
    next stopping =>
      cases taken
      exact .walk _ _ s.workerActive found (.giveUp stopping)
    next running =>
      cases taken
      exact .release _ _ found (.sleep (by simpa using running))
  | takeStopping =>
    cases taken
    cases stopping : s.stopping with
    | true => exact .walk _ _ s.workerActive found (.leave stopping)
    | false => exact .walk _ _ s.workerActive found (.commit stopping)
  | take =>
    simp only [stepWorker] at taken
    split at taken
    next => contradiction
    next id rest front =>
      cases taken
      exact .take id rest found front
  | fetchSub id =>
    cases taken
    exact .fetchSub id found
  | unlock task =>
    cases task with
    | none =>
      cases taken
      exact .release _ _ found .idle
    | some id =>
      cases taken
      exact .release _ _ found (.task id)
  | markActive id =>
    cases taken
    exact .walk _ _ _ found (.mark id)
  | execute id =>
    cases taken
    exact .execute id found
  | settle id outcome =>
    simp only [stepWorker] at taken
    split at taken
    next promise present =>
      split at taken
      next after _ settled =>
        cases taken
        exact .settle id outcome promise after found present settled
      next after failure settled =>
        cases taken
        exact .abort id outcome promise after failure found present settled
    next => contradiction
  | markIdle =>
    cases taken
    exact .walk _ _ _ found .unmark
  | running | exited => contradiction

theorem push_moves [Inhabited α] [Inhabited ε] {platform : Platform ε} {s t : State α ε} {i : Nat} {call : Call}
    {promise : Option (SharedState α ε)} (entering : call.point = .entering)
    (enqueues : Enqueues call.request promise) (taken : push platform s i call promise = some t) :
    CallMoves platform s i call t := by
  unfold push at taken
  split at taken
  next enabled =>
    cases taken
    exact .push promise entering enqueues enabled.1 enabled.2
  next => contradiction

theorem stepCall_moves [Inhabited α] [Inhabited ε] {platform : Platform ε} {s t : State α ε} {i : Nat} {call : Call}
    (taken : stepCall platform s i call = some t) : CallMoves platform s i call t := by
  obtain ⟨request,enqueued,point⟩ := call
  cases point with
  | entering =>
    cases request with
    | submit => exact push_moves rfl .submit taken
    | submitDetached => exact push_moves rfl .submitDetached taken
    | pause =>
      cases taken
      exact .pause rfl rfl
    | resume =>
      cases taken
      exact .resume rfl rfl
    | stop waitForTasks =>
      simp only [stepCall] at taken
      split at taken
      next stopping =>
        cases taken
        exact .proceed _ (.lose waitForTasks rfl stopping)
      next running =>
        cases taken
        exact .exchange waitForTasks rfl rfl (by simpa using running)
    | getPendingTaskCount =>
      cases taken
      exact .proceed _ (.count rfl)
  | fetchAdd id =>
    cases taken
    exact .fetchAdd id rfl
  | unlock id =>
    cases taken
    exact .unlock id rfl
  | notifyOne id =>
    cases taken
    cases request with
    | submit => exact .proceed _ (.returnFuture id rfl)
    | submitDetached | pause | resume | stop | getPendingTaskCount => exact .proceed _ (.returnNothing id nofun)
  | notifyResumed =>
    cases taken
    exact .proceed _ .notifyResumed
  | notifyStopping waitForTasks =>
    cases taken
    cases waitForTasks with
    | true => exact .proceed _ .await
    | false => exact .proceed _ .skip
  | poll =>
    simp only [stepCall] at taken
    cases taken
    split
    next pending => exact .proceed _ (.poll pending)
    next drained => exact .proceed _ (.drained (by omega))
  | takeWorkers =>
    cases taken
    exact .takeWorkers rfl
  | join workers =>
    cases workers with
    | nil =>
      cases taken
      exact .proceed _ .noneLeft
    | cons k rest =>
      simp only [stepCall] at taken
      split at taken
      next exited =>
        cases taken
        exact .proceed _ (.join k rest exited)
      next => contradiction
  | clear =>
    simp only [stepCall] at taken
    split at taken
    next free =>
      cases taken
      exact .clear rfl free
    next => contradiction
  | storePending =>
    cases taken
    exact .storePending rfl
  | storeStopping =>
    cases taken
    exact .storeStopping rfl
  | threw | returned => contradiction

def Label.internal : Label α ε → Bool
  | .invoke _ => false
  | _ => true

theorem step_internal [Inhabited α] [Inhabited ε] {platform : Platform ε} {s t : State α ε} {label : Label α ε}
    (internal : label.internal = true) (taken : step platform s label = some t) :
    (∃ k, WorkerMoves platform s k t) ∨ ∃ i call, s.calls[i]? = some call ∧ CallMoves platform s i call t := by
  cases label with
  | invoke request => contradiction
  | call i =>
    simp only [step] at taken
    split at taken
    next call found => exact Or.inr ⟨i,call,found,stepCall_moves taken⟩
    next => contradiction
  | fail i =>
    simp only [step] at taken
    split at taken
    next enqueued found =>
      cases taken
      exact Or.inr ⟨i,_,found,.proceed _ (.fail (Or.inl rfl))⟩
    next enqueued found =>
      cases taken
      exact Or.inr ⟨i,_,found,.proceed _ (.fail (Or.inr rfl))⟩
    next => contradiction
  | worker k =>
    simp only [step] at taken
    split at taken
    next worker found => exact Or.inl ⟨k,stepWorker_moves found taken⟩
    next => contradiction
  | finish k outcome =>
    simp only [step] at taken
    split at taken
    next id found =>
      cases taken
      exact Or.inl ⟨k,.walk _ _ s.workerActive found (.finish id outcome)⟩
    next => contradiction

theorem step_moves [Inhabited α] [Inhabited ε] {platform : Platform ε} {s t : State α ε} {label : Label α ε}
    (taken : step platform s label = some t) : Moves platform s t := by
  cases internal : label.internal with
  | true =>
    rcases step_internal internal taken with ⟨k,moves⟩ | ⟨i,call,found,moves⟩
    · exact .worker k t moves
    · exact .call i call t found moves
  | false =>
    cases label with
    | invoke request =>
      cases taken
      exact .invoke request
    | _ => contradiction

theorem CallMoves.calls [Inhabited α] [Inhabited ε] {platform : Platform ε} {s t : State α ε} {i : Nat} {call : Call}
    (moves : CallMoves platform s i call t) : ∃ point, t.calls = s.calls.set i {call with point := point} := by
  cases moves <;> exact ⟨_,rfl⟩

end Ezthread.ThreadPool
