import Ezthread.ThreadPool

/-! Who holds `m_queueMutex`, what `m_pendingTasks` counts and how far `Stop` has
come, in every reachable state of a pool. -/
namespace Ezthread.ThreadPool
open Transition Activation Future

variable {α ε : Type*}

def Worker.inside : Worker α ε → Bool
  | .waitStopping | .takeStopping | .take | .fetchSub _ | .unlock _ => true
  | _ => false

def Point.inside : Point → Bool
  | .fetchAdd _ | .unlock _ => true
  | _ => false

def State.inside (s : State α ε) : Actor → Bool
  | .worker k => s.workers[k]?.any Worker.inside
  | .call i => s.calls[i]?.any fun call => call.point.inside

/-- The mutex knows who is inside its blocks. -/
def Locked (s : State α ε) : Prop :=
  ∀ actor, s.inside actor = true ↔ s.queueMutex = some actor

def Worker.subtracting : Worker α ε → Bool
  | .fetchSub _ => true
  | _ => false

def Call.adding (call : Call) : Bool :=
  match call.point with
  | .fetchAdd _ => true
  | _ => false

/-- `m_pendingTasks` is the length of the queue, but for the one who holds the
lock between the two. -/
def Counted (s : State α ε) : Prop :=
  s.pendingTasks + s.calls.countP Call.adding = s.taskQueue.length + s.workers.countP Worker.subtracting

/-- How far the `Stop` that stops the pool has come. -/
def Point.stage : Point → Nat
  | .notifyStopping _ => 1
  | .poll => 2
  | .takeWorkers => 3
  | .join _ => 4
  | .clear => 5
  | .storePending => 6
  | .storeStopping => 7
  | .returned (.stopped true) => 8
  | _ => 0

def Reached (stage : Nat) (calls : List Call) : Prop :=
  ∃ (i : Nat) (call : Call), calls[i]? = some call ∧ stage ≤ call.point.stage

/-- The workers a `Stop` has not joined yet. -/
def Point.unjoined : Point → Option (List Nat)
  | .join workers => some workers
  | .clear | .storePending | .storeStopping | .returned (.stopped true) => some []
  | _ => none

def Joined (workers : List (Worker α ε)) (call : Call) : Prop :=
  ∀ unjoined, call.point.unjoined = some unjoined → Every (fun k worker => k ∉ unjoined → worker = .exited) workers

def Queued (taskQueue : List Nat) : Worker α ε → Prop
  | .waitStopping => taskQueue = []
  | .takeStopping | .take => taskQueue ≠ []
  | _ => True

structure Control (platform : Platform ε) (s : State α ε) : Prop where
  locked : Locked s
  room : s.taskQueue.length < 2 ^ platform.width
  single : ∀ (i j : Nat) (a b : Call), s.calls[i]? = some a → s.calls[j]? = some b →
    1 ≤ a.point.stage → 1 ≤ b.point.stage → i = j
  stopping : Reached 1 s.calls → s.stopping = true
  threads : s.threads = List.range s.workers.length ∨ Reached 4 s.calls
  joined : Every (fun _ call => Joined s.workers call) s.calls
  counted : (Counted s ∧ s.discarded = []) ∨ Reached 6 s.calls
  queued : Every (fun _ worker => Queued s.taskQueue worker) s.workers

theorem inside_goto {s : State α ε} {k : Nat} {before : Worker α ε} (found : s.workers[k]? = some before)
    (after : Worker α ε) (actor : Actor) :
    (s.goto k after).inside actor = if actor = .worker k then after.inside else s.inside actor := by
  cases actor with
  | call i => rfl
  | worker j =>
    by_cases own : j = k
    · subst own
      simp [State.inside,State.goto,get_self found]
    · simp [State.inside,State.goto,own,List.getElem?_set_ne (Ne.symm own)]

theorem inside_proceed {s : State α ε} {i : Nat} {call : Call} (found : s.calls[i]? = some call)
    (point : Point) (actor : Actor) :
    (s.proceed i call point).inside actor = if actor = .call i then point.inside else s.inside actor := by
  cases actor with
  | worker k => rfl
  | call j =>
    by_cases own : j = i
    · subst own
      simp [State.inside,State.proceed,get_self found]
    · simp [State.inside,State.proceed,own,List.getElem?_set_ne (Ne.symm own)]

theorem inside_worker {s : State α ε} {k : Nat} {worker : Worker α ε} (found : s.workers[k]? = some worker) :
    s.inside (.worker k) = worker.inside := by
  simp [State.inside,found]

theorem inside_call {s : State α ε} {i : Nat} {call : Call} (found : s.calls[i]? = some call) :
    s.inside (.call i) = call.point.inside := by
  simp [State.inside,found]

theorem Locked.keep {s t : State α ε} (locked : Locked s) (own : Actor) (after : Bool)
    (inside : ∀ actor, t.inside actor = if actor = own then after else s.inside actor)
    (same : s.inside own = after) (mutex : t.queueMutex = s.queueMutex) : Locked t := by
  intro actor
  rw [inside,mutex]
  split
  next equal =>
    subst equal
    rw [← same]
    exact locked actor
  next => exact locked actor

theorem Locked.acquire {s t : State α ε} (locked : Locked s) (own : Actor)
    (inside : ∀ actor, t.inside actor = if actor = own then true else s.inside actor)
    (free : s.queueMutex = none) (mutex : t.queueMutex = some own) : Locked t := by
  intro actor
  rw [inside,mutex]
  split
  next equal => simp [equal]
  next other =>
    have outside := locked actor
    rw [free] at outside
    simp only [outside,Option.some.injEq,reduceCtorEq,false_iff]
    exact fun equal => other equal.symm

theorem Locked.release {s t : State α ε} (locked : Locked s) (own : Actor)
    (inside : ∀ actor, t.inside actor = if actor = own then false else s.inside actor)
    (holds : s.inside own = true) (mutex : t.queueMutex = none) : Locked t := by
  intro actor
  rw [inside,mutex]
  split
  next => simp
  next other =>
    have outside := locked actor
    rw [(locked own).mp holds] at outside
    simp only [outside,Option.some.injEq,reduceCtorEq,iff_false]
    exact fun equal => other equal.symm

theorem Locked.outside {s : State α ε} (locked : Locked s) (free : s.queueMutex = none) (actor : Actor) :
    s.inside actor = false := by
  cases shape : s.inside actor with
  | false => rfl
  | true =>
    have held := (locked actor).mp shape
    simp [free] at held

theorem Locked.alone {s : State α ε} (locked : Locked s) {own : Actor} (holds : s.inside own = true) (other : Actor)
    (different : other ≠ own) : s.inside other = false := by
  cases shape : s.inside other with
  | false => rfl
  | true =>
    have equal := ((locked other).mp shape).symm.trans ((locked own).mp holds)
    exact absurd (Option.some.inj equal) different

theorem queued_outside (taskQueue : List Nat) {worker : Worker α ε} (outside : worker.inside = false) :
    Queued taskQueue worker := by
  cases worker with
  | waitStopping | takeStopping | take => contradiction
  | _ => trivial

theorem queued_all_outside {s : State α ε} (taskQueue : List Nat)
    (outside : ∀ k, s.inside (.worker k) = false) : Every (fun _ worker => Queued taskQueue worker) s.workers := by
  intro k worker found
  exact queued_outside taskQueue ((inside_worker found).symm.trans (outside k))

theorem not_adding_of_outside {call : Call} (outside : call.point.inside = false) : call.adding = false := by
  obtain ⟨request,enqueued,point⟩ := call
  cases point with
  | fetchAdd => contradiction
  | _ => rfl

theorem not_subtracting_of_outside {worker : Worker α ε} (outside : worker.inside = false) :
    worker.subtracting = false := by
  cases worker with
  | fetchSub => contradiction
  | _ => rfl

theorem not_adding {s : State α ε} (outside : ∀ i, s.inside (.call i) = false) : s.calls.countP Call.adding = 0 :=
  count_none fun i _ found => not_adding_of_outside ((inside_call found).symm.trans (outside i))

theorem not_subtracting {s : State α ε} (outside : ∀ k, s.inside (.worker k) = false) :
    s.workers.countP Worker.subtracting = 0 :=
  count_none fun k _ found => not_subtracting_of_outside ((inside_worker found).symm.trans (outside k))

/-- At most one worker is inside the blocks. -/
theorem Locked.count_inside {s : State α ε} (locked : Locked s) {which : Worker α ε → Bool}
    (inside : ∀ worker, which worker = true → worker.inside = true) : s.workers.countP which ≤ 1 := by
  by_contra many
  obtain ⟨k,worker,found,one⟩ := count_some (Nat.lt_of_lt_of_le Nat.zero_lt_one (Nat.le_of_lt (Nat.not_le.mp many)))
  have holds : s.inside (.worker k) = true := (inside_worker found).trans (inside worker one)
  have outside : which .exited = false := by
    cases shape : which .exited with
    | false => rfl
    | true => exact absurd (inside .exited shape) (by simp [Worker.inside])
  have others : (s.goto k .exited).workers.countP which = 0 := by
    apply count_none
    intro j other present
    cases shape : which other with
    | false => rfl
    | true =>
      have second := (inside_worker present).trans (inside other shape)
      rw [inside_goto found] at second
      split at second
      next => contradiction
      next different => exact absurd second (by simp [locked.alone holds (.worker j) different])
  have count := count_set which .exited found
  change (s.workers.set k .exited).countP which = 0 at others
  rw [others,one,outside] at count
  simp only [if_true,Bool.false_eq_true,if_false] at count
  omega

theorem Locked.one_subtracting {s : State α ε} (locked : Locked s) {k : Nat} {worker : Worker α ε}
    (found : s.workers[k]? = some worker) (subtracts : worker.subtracting = true) :
    s.workers.countP Worker.subtracting = 1 := by
  have some := count_pos Worker.subtracting found subtracts
  have one : s.workers.countP Worker.subtracting ≤ 1 := locked.count_inside fun worker subtracts => by
    cases worker <;> trivial
  omega

theorem Reached.mono {low high : Nat} {calls : List Call} (reached : Reached high calls) (below : low ≤ high) :
    Reached low calls := by
  obtain ⟨i,call,found,above⟩ := reached
  exact ⟨i,call,found,Nat.le_trans below above⟩

theorem Reached.set {stage i : Nat} {calls : List Call} {before after : Call} (reached : Reached stage calls)
    (found : calls[i]? = some before) (forward : before.point.stage ≤ after.point.stage) :
    Reached stage (calls.set i after) := by
  obtain ⟨j,call,present,above⟩ := reached
  by_cases own : j = i
  · subst own
    have equal : call = before := Option.some.inj (present.symm.trans found)
    subst equal
    exact ⟨j,after,get_self found,Nat.le_trans above forward⟩
  · exact ⟨j,call,by rw [List.getElem?_set_ne (Ne.symm own)]; exact present,above⟩

theorem Reached.of_set {stage i : Nat} {calls : List Call} {after : Call} (reached : Reached stage (calls.set i after)) :
    stage ≤ after.point.stage ∨ Reached stage calls := by
  obtain ⟨j,call,present,above⟩ := reached
  rcases get_set present with ⟨rfl,rfl⟩ | ⟨_,kept⟩
  · exact Or.inl above
  · exact Or.inr ⟨j,call,kept,above⟩

/-- Past the joins every worker has ended. -/
theorem Control.exited {platform : Platform ε} {s : State α ε} (control : Control platform s)
    (reached : Reached 5 s.calls) : Every (fun _ worker => worker = .exited) s.workers := by
  obtain ⟨i,⟨request,enqueued,point⟩,found,above⟩ := reached
  have joined := control.joined i _ found
  have all (none : point.unjoined = some []) : Every (fun _ worker => worker = .exited) s.workers :=
    fun k worker present => joined [] none k worker present (by simp)
  cases point with
  | clear | storePending | storeStopping => exact all rfl
  | returned answer =>
    cases answer with
    | stopped first =>
      cases first with
      | true => exact all rfl
      | false => simp [Point.stage] at above
    | nothing | future | count => simp [Point.stage] at above
  | _ => simp [Point.stage] at above

theorem control_worker {platform : Platform ε} {s t : State α ε} {k : Nat} {before after : Worker α ε}
    (control : Control platform s) (found : s.workers[k]? = some before) (alive : before ≠ .exited)
    (workers : t.workers = s.workers.set k after) (calls : t.calls = s.calls) (stopping : t.stopping = s.stopping)
    (threads : t.threads = s.threads) (discarded : t.discarded = s.discarded) (locked : Locked t)
    (room : t.taskQueue.length ≤ s.taskQueue.length) (counted : Counted s → Counted t)
    (queued : Every (fun _ worker => Queued t.taskQueue worker) t.workers) : Control platform t where
  locked := locked
  room := Nat.lt_of_le_of_lt room control.room
  single := by
    rw [calls]
    exact control.single
  stopping := by
    rw [calls,stopping]
    exact control.stopping
  threads := by
    rw [calls,threads,workers,List.length_set]
    exact control.threads
  joined := by
    rw [calls,workers]
    intro i call present unjoined rest
    have known := control.joined i call present unjoined rest
    exact known.set fun absent => absurd (known k before found absent) alive
  counted := by
    rw [calls,discarded]
    rcases control.counted with ⟨equal,none⟩ | late
    · exact Or.inl ⟨counted equal,none⟩
    · exact Or.inr late
  queued := queued

theorem control_call {platform : Platform ε} {s t : State α ε} {i : Nat} {call : Call} {point : Point}
    (control : Control platform s) (found : s.calls[i]? = some call)
    (calls : t.calls = s.calls.set i {call with point := point}) (workers : t.workers = s.workers)
    (forward : call.point.stage ≤ point.stage)
    (first : 1 ≤ point.stage → 1 ≤ call.point.stage ∨ s.stopping = false)
    (stopping : s.stopping = true ∨ 1 ≤ point.stage → t.stopping = true)
    (threads : t.threads = s.threads ∨ 4 ≤ point.stage) (joined : Joined s.workers {call with point := point})
    (locked : Locked t) (room : t.taskQueue.length < 2 ^ platform.width)
    (counted : (t.discarded = s.discarded ∧ (Counted s → Counted t)) ∨ 6 ≤ point.stage)
    (queued : Every (fun _ worker => Queued t.taskQueue worker) t.workers) : Control platform t where
  locked := locked
  room := room
  single := by
    rw [calls]
    have fresh (j : Nat) (other : Call) (present : s.calls[j]? = some other) (wins : 1 ≤ other.point.stage)
        (starts : 1 ≤ point.stage) : i = j := by
      rcases first starts with already | running
      · exact control.single i j call other found present already wins
      · have stopped := control.stopping ⟨j,other,present,wins⟩
        simp [running] at stopped
    intro m n a b one two winsOne winsTwo
    rcases get_set one with ⟨rfl,rfl⟩ | ⟨_,keptOne⟩ <;> rcases get_set two with ⟨rfl,rfl⟩ | ⟨_,keptTwo⟩
    · rfl
    · exact fresh n b keptTwo winsTwo winsOne
    · exact (fresh m a keptOne winsOne winsTwo).symm
    · exact control.single m n a b keptOne keptTwo winsOne winsTwo
  stopping := by
    rw [calls]
    intro reached
    rcases reached.of_set with starts | before
    · exact stopping (Or.inr starts)
    · exact stopping (Or.inl (control.stopping before))
  threads := by
    rw [calls,workers]
    rcases threads with same | taken
    · rw [same]
      exact control.threads.imp_right fun reached => reached.set found forward
    · exact Or.inr ⟨i,_,get_self found,taken⟩
  joined := by
    rw [calls,workers]
    exact control.joined.set joined
  counted := by
    rw [calls]
    rcases counted with ⟨same,kept⟩ | late
    · rw [same]
      rcases control.counted with ⟨equal,none⟩ | late
      · exact Or.inl ⟨kept equal,none⟩
      · exact Or.inr (late.set found forward)
    · exact Or.inr ⟨i,_,get_self found,late⟩
  queued := queued

theorem Walks.alive {s : State α ε} {before after : Worker α ε} (walks : Walks s before after) :
    before ≠ .exited := by
  cases walks <;> simp

theorem Walks.inside {s : State α ε} {before after : Worker α ε} (walks : Walks s before after) :
    after.inside = before.inside := by
  cases walks <;> rfl

theorem Walks.subtracting {s : State α ε} {before after : Worker α ε} (walks : Walks s before after) :
    after.subtracting = before.subtracting := by
  cases walks <;> rfl

theorem Walks.queued {s : State α ε} {before after : Worker α ε} (walks : Walks s before after)
    {taskQueue : List Nat} (queued : Queued taskQueue before) : Queued taskQueue after := by
  cases walks with
  | commit => exact queued
  | _ => trivial

theorem Releases.alive {s : State α ε} {before after : Worker α ε} (releases : Releases s before after) :
    before ≠ .exited := by
  cases releases <;> simp

/-- A worker that has ended takes no step. -/
theorem WorkerMoves.alive {platform : Platform ε} {s t : State α ε} {k : Nat} (moves : WorkerMoves platform s k t) :
    ∃ worker, s.workers[k]? = some worker ∧ worker ≠ .exited := by
  cases moves with
  | walk before after active found walks => exact ⟨before,found,walks.alive⟩
  | lock before found waits =>
    refine ⟨before,found,?_⟩
    rcases waits with rfl | rfl <;> simp
  | release before after found releases => exact ⟨before,found,releases.alive⟩
  | take id rest found | fetchSub id found | execute id found | settle id outcome promise after found
  | abort id outcome promise after failure found => exact ⟨_,found,by simp⟩

theorem Releases.inside {s : State α ε} {before after : Worker α ε} (releases : Releases s before after) :
    before.inside = true ∧ after.inside = false ∧ before.subtracting = false ∧ after.subtracting = false := by
  cases releases <;> exact ⟨rfl,rfl,rfl,rfl⟩

theorem Proceeds.inside {s : State α ε} {request : Request} {before after : Point}
    (proceeds : Proceeds s request before after) : before.inside = false ∧ after.inside = false := by
  cases proceeds <;> exact ⟨rfl,rfl⟩

theorem Proceeds.forward {s : State α ε} {request : Request} {before after : Point}
    (proceeds : Proceeds s request before after) :
    before.stage ≤ after.stage ∧ (1 ≤ after.stage → 1 ≤ before.stage) := by
  cases proceeds <;> simp [Point.stage]

theorem Proceeds.joined {s : State α ε} {request : Request} {enqueued : Nat} {before after : Point}
    (proceeds : Proceeds s request before after) (joined : Joined s.workers ⟨request,enqueued,before⟩) :
    Joined s.workers ⟨request,enqueued,after⟩ := by
  intro unjoined rest
  cases proceeds with
  | join k _ exited =>
    cases rest
    intro j worker found absent
    by_cases own : j = k
    · subst own
      exact Option.some.inj (found.symm.trans exited)
    · exact joined (k :: unjoined) rfl j worker found (by simp [own,absent])
  | noneLeft =>
    cases rest
    exact joined [] rfl
  | _ => contradiction

theorem Counted.worker {s t : State α ε} {k : Nat} {before after : Worker α ε} (counted : Counted s)
    (found : s.workers[k]? = some before) (workers : t.workers = s.workers.set k after) (calls : t.calls = s.calls)
    (moved : t.pendingTasks + s.taskQueue.length + (if before.subtracting then 1 else 0) =
      s.pendingTasks + t.taskQueue.length + (if after.subtracting then 1 else 0)) : Counted t := by
  have count := count_set Worker.subtracting after found
  unfold Counted at counted ⊢
  rw [workers,calls]
  omega

theorem Counted.call {s t : State α ε} {i : Nat} {before after : Call} (counted : Counted s)
    (found : s.calls[i]? = some before) (calls : t.calls = s.calls.set i after) (workers : t.workers = s.workers)
    (moved : t.pendingTasks + s.taskQueue.length + (if after.adding then 1 else 0) =
      s.pendingTasks + t.taskQueue.length + (if before.adding then 1 else 0)) : Counted t := by
  have count := count_set Call.adding after found
  unfold Counted at counted ⊢
  rw [workers,calls]
  omega

theorem Counted.below {platform : Platform ε} {s : State α ε} {i id : Nat} {call : Call}
    (control : Control platform s) (counted : Counted s) (found : s.calls[i]? = some call)
    (adds : call.point = .fetchAdd id) : (s.pendingTasks + 1) % 2 ^ platform.width = s.pendingTasks + 1 := by
  have holds : s.inside (.call i) = true := by rw [inside_call found,adds]; rfl
  have none := not_subtracting fun k => control.locked.alone holds (.worker k) (by simp)
  have own : call.adding = true := by simp [Call.adding,adds]
  have some := count_pos Call.adding found own
  have room := control.room
  unfold Counted at counted
  exact Nat.mod_eq_of_lt (by omega)

theorem Counted.above {platform : Platform ε} {s : State α ε} {k id : Nat} (control : Control platform s)
    (counted : Counted s) (found : s.workers[k]? = some (.fetchSub id)) :
    0 < s.pendingTasks ∧
      (s.pendingTasks + (2 ^ platform.width - 1)) % 2 ^ platform.width = s.pendingTasks - 1 := by
  have holds : s.inside (.worker k) = true := by rw [inside_worker found]; rfl
  have none := not_adding fun i => control.locked.alone holds (.call i) (by simp)
  have one := control.locked.one_subtracting found rfl
  have room := control.room
  unfold Counted at counted
  have positive : 0 < s.pendingTasks := by omega
  refine ⟨positive,?_⟩
  rw [show s.pendingTasks + (2 ^ platform.width - 1) = s.pendingTasks - 1 + 2 ^ platform.width by omega,
    Nat.add_mod_right,Nat.mod_eq_of_lt (by omega)]

theorem control_silent {platform : Platform ε} {s t : State α ε} {k : Nat} {before : Worker α ε}
    (control : Control platform s) (found : s.workers[k]? = some before) (after : Worker α ε) (alive : before ≠ .exited)
    (same : after.inside = before.inside) (quiet : after.subtracting = before.subtracting)
    (queued : Queued s.taskQueue before → Queued s.taskQueue after)
    (workers : t.workers = s.workers.set k after) (calls : t.calls = s.calls) (stopping : t.stopping = s.stopping)
    (threads : t.threads = s.threads) (discarded : t.discarded = s.discarded)
    (mutex : t.queueMutex = s.queueMutex) (taskQueue : t.taskQueue = s.taskQueue)
    (pendingTasks : t.pendingTasks = s.pendingTasks) : Control platform t := by
  have inside (actor : Actor) : t.inside actor = if actor = .worker k then after.inside else s.inside actor := by
    rw [← inside_goto found after actor]
    cases actor <;> simp only [State.inside,State.goto,workers,calls]
  refine control_worker control found alive workers calls stopping threads discarded
    (control.locked.keep _ _ inside ((inside_worker found).trans same.symm) mutex) (by rw [taskQueue]) ?_ ?_
  · exact fun counted => counted.worker found workers calls (by rw [taskQueue,pendingTasks,quiet])
  · rw [taskQueue,workers]
    exact control.queued.set (queued (control.queued k before found))

theorem control_lock {platform : Platform ε} {s : State α ε} {k : Nat} {before : Worker α ε}
    (control : Control platform s) (found : s.workers[k]? = some before)
    (waits : before = .lockQueue ∨ before = .asleep) (free : s.queueMutex = none) :
    Control platform (({s with queueMutex := some (.worker k)} : State α ε).goto k
      (if s.taskQueue = [] then .waitStopping else .takeStopping)) := by
  have alive : before ≠ .exited := by rcases waits with rfl | rfl <;> simp
  have quiet : before.subtracting = false := by rcases waits with rfl | rfl <;> rfl
  have silent : (if s.taskQueue = [] then .waitStopping else .takeStopping : Worker α ε).subtracting = false := by
    split <;> rfl
  have outside := queued_all_outside s.taskQueue fun j => control.locked.outside free (.worker j)
  refine control_worker control found alive rfl rfl rfl rfl rfl
    (control.locked.acquire (.worker k) (fun actor => ?_) free rfl) (Nat.le_refl _)
    (fun counted => counted.worker found rfl rfl ?_) (outside.set ?_)
  · apply (inside_goto (s := {s with queueMutex := some (.worker k)}) found _ actor).trans
    split
    · split <;> rfl
    · rfl
  · rw [quiet,silent]
    rfl
  · split
    next none => exact none
    next some => exact some

theorem control_release {platform : Platform ε} {s : State α ε} {k : Nat} {before after : Worker α ε}
    (control : Control platform s) (found : s.workers[k]? = some before) (releases : Releases s before after) :
    Control platform (({s with queueMutex := none} : State α ε).goto k after) := by
  obtain ⟨inside,outside,quiet,silent⟩ := releases.inside
  have alive : before ≠ .exited := by
    intro same
    subst same
    contradiction
  refine control_worker control found alive rfl rfl rfl rfl rfl
    (control.locked.release (.worker k) (fun actor => ?_) ((inside_worker found).trans inside) rfl)
    (Nat.le_refl _) (fun counted => counted.worker found rfl rfl ?_)
    (control.queued.set (queued_outside s.taskQueue outside))
  · exact (inside_goto (s := {s with queueMutex := none}) found after actor).trans (by rw [outside]; rfl)
  · rw [quiet,silent]
    rfl

theorem control_take {platform : Platform ε} {s : State α ε} {k id : Nat} {rest : List Nat}
    (control : Control platform s) (found : s.workers[k]? = some .take) (front : s.taskQueue = id :: rest) :
    Control platform (({s with taskQueue := rest, dequeued := s.dequeued ++ [id]} : State α ε).goto k
      (.fetchSub id)) := by
  have holds : s.inside (.worker k) = true := by rw [inside_worker found]; rfl
  refine control_worker control found (by simp) rfl rfl rfl rfl rfl
    (control.locked.keep (.worker k) true (fun actor => ?_) holds rfl) ?_
    (fun counted => counted.worker found rfl rfl ?_) ?_
  · exact inside_goto (s := {s with taskQueue := rest, dequeued := s.dequeued ++ [id]}) found _ actor
  · rw [front]
    exact Nat.le_succ _
  · rw [front]
    change s.pendingTasks + (rest.length + 1) + 0 = s.pendingTasks + rest.length + 1
    omega
  · -- whoever else is not inside knows nothing of the queue
    intro j worker present
    rcases get_set present with ⟨_,rfl⟩ | ⟨different,kept⟩
    · trivial
    · exact queued_outside _ ((inside_worker kept).symm.trans
        (control.locked.alone holds (.worker j) (by simpa using different)))

theorem control_fetchSub {platform : Platform ε} {s : State α ε} {k id : Nat}
    (control : Control platform s) (found : s.workers[k]? = some (.fetchSub id)) :
    Control platform (({s with
      pendingTasks := (s.pendingTasks + (2 ^ platform.width - 1)) % 2 ^ platform.width} : State α ε).goto k
        (.unlock (some id))) := by
  refine control_worker control found (by simp) rfl rfl rfl rfl rfl
    (control.locked.keep (.worker k) true (fun actor => ?_) ((inside_worker found).trans rfl) rfl)
    (Nat.le_refl _) (fun counted => counted.worker found rfl rfl ?_) (control.queued.set trivial)
  · exact inside_goto (s := {s with pendingTasks := _}) found _ actor
  · obtain ⟨positive,down⟩ := counted.above control found
    change (s.pendingTasks + (2 ^ platform.width - 1)) % 2 ^ platform.width + s.taskQueue.length + 1 =
      s.pendingTasks + s.taskQueue.length + 0
    omega

theorem control_proceed {platform : Platform ε} {s t : State α ε} {i : Nat} {call : Call} {point : Point}
    (control : Control platform s) (found : s.calls[i]? = some call)
    (outside : call.point.inside = false) (after : point.inside = false)
    (calls : t.calls = s.calls.set i {call with point := point}) (workers : t.workers = s.workers)
    (mutex : t.queueMutex = s.queueMutex) (taskQueue : t.taskQueue = s.taskQueue)
    (discarded : t.discarded = s.discarded) (forward : call.point.stage ≤ point.stage)
    (first : 1 ≤ point.stage → 1 ≤ call.point.stage ∨ s.stopping = false)
    (stopping : s.stopping = true ∨ 1 ≤ point.stage → t.stopping = true)
    (threads : t.threads = s.threads ∨ 4 ≤ point.stage) (joined : Joined s.workers {call with point := point})
    (pendingTasks : t.pendingTasks = s.pendingTasks ∨ 6 ≤ point.stage) : Control platform t := by
  have inside (actor : Actor) : t.inside actor = if actor = .call i then false else s.inside actor := by
    rw [← after,← inside_proceed found point actor]
    cases actor <;> simp only [State.inside,State.proceed,workers,calls]
  refine control_call control found calls workers forward first stopping threads joined
    (control.locked.keep _ _ inside ((inside_call found).trans outside) mutex) (by rw [taskQueue]; exact control.room) ?_
    (by rw [taskQueue,workers]; exact control.queued)
  refine pendingTasks.imp_left fun same => ⟨discarded,fun counted => counted.call found calls workers ?_⟩
  have silent : Call.adding {call with point := point} = false := not_adding_of_outside after
  rw [same,taskQueue,not_adding_of_outside outside,silent]

theorem control_push [Inhabited α] [Inhabited ε] {platform : Platform ε} {s : State α ε} {i : Nat} {call : Call}
    {promise : Option (SharedState α ε)} (control : Control platform s) (found : s.calls[i]? = some call)
    (entering : call.point = .entering) (free : s.queueMutex = none)
    (room : s.taskQueue.length + 1 < 2 ^ platform.width) :
    Control platform (({s with
      queueMutex := some (.call i)
      taskQueue := s.taskQueue ++ [s.promises.length]
      promises := s.promises ++ [promise]} : State α ε).proceed i call (.fetchAdd s.promises.length)) := by
  have quiet : call.adding = false := by simp [Call.adding,entering]
  refine control_call control found rfl rfl (by simp [entering,Point.stage]) (by simp [Point.stage])
    (fun stopped => stopped.resolve_right (by simp [Point.stage])) (Or.inl rfl) (fun unjoined rest => by contradiction)
    (control.locked.acquire (.call i) (fun actor => ?_) free rfl) ?_
    (Or.inl ⟨rfl,fun counted => counted.call found rfl rfl ?_⟩)
    (queued_all_outside _ fun k => control.locked.outside free (.worker k))
  · exact inside_proceed (s := {s with queueMutex := _, taskQueue := _, promises := _}) found _ actor
  · simpa [State.proceed] using room
  · rw [quiet]
    change s.pendingTasks + s.taskQueue.length + 1 = s.pendingTasks + (s.taskQueue ++ [s.promises.length]).length + 0
    rw [List.length_append]
    rfl

theorem control_fetchAdd {platform : Platform ε} {s : State α ε} {i id : Nat} {call : Call}
    (control : Control platform s) (found : s.calls[i]? = some call) (adds : call.point = .fetchAdd id) :
    Control platform (({s with pendingTasks := (s.pendingTasks + 1) % 2 ^ platform.width} : State α ε).proceed i call
      (.unlock id)) := by
  have own : call.adding = true := by simp [Call.adding,adds]
  refine control_call control found rfl rfl (by simp [adds,Point.stage]) (by simp [Point.stage])
    (fun stopped => stopped.resolve_right (by simp [Point.stage])) (Or.inl rfl) (fun unjoined rest => by contradiction)
    (control.locked.keep (.call i) true (fun actor => ?_) ((inside_call found).trans (by rw [adds]; rfl)) rfl)
    control.room (Or.inl ⟨rfl,fun counted => counted.call found rfl rfl ?_⟩) control.queued
  · exact inside_proceed (s := {s with pendingTasks := _}) found _ actor
  · rw [own]
    change (s.pendingTasks + 1) % 2 ^ platform.width + s.taskQueue.length + 0 =
      s.pendingTasks + s.taskQueue.length + 1
    rw [counted.below control found adds]
    omega

theorem control_unlock {platform : Platform ε} {s : State α ε} {i id : Nat} {call : Call}
    (control : Control platform s) (found : s.calls[i]? = some call) (unlocks : call.point = .unlock id) :
    Control platform (({s with queueMutex := none} : State α ε).proceed i call (.notifyOne id)) := by
  have holds : s.inside (.call i) = true := by rw [inside_call found,unlocks]; rfl
  have quiet : call.adding = false := by simp [Call.adding,unlocks]
  refine control_call control found rfl rfl (by simp [unlocks,Point.stage]) (by simp [Point.stage])
    (fun stopped => stopped.resolve_right (by simp [Point.stage])) (Or.inl rfl) (fun unjoined rest => by contradiction)
    (control.locked.release (.call i) (fun actor => ?_) holds rfl) control.room
    (Or.inl ⟨rfl,fun counted => counted.call found rfl rfl ?_⟩) control.queued
  · exact inside_proceed (s := {s with queueMutex := none}) found _ actor
  · rw [quiet]
    rfl

theorem Control.threads_of_stage {platform : Platform ε} {s : State α ε} (control : Control platform s) {i : Nat}
    {call : Call} (found : s.calls[i]? = some call) (starts : 1 ≤ call.point.stage) (early : call.point.stage < 4) :
    s.threads = List.range s.workers.length := by
  rcases control.threads with all | ⟨j,other,present,taken⟩
  · exact all
  · obtain rfl := control.single i j call other found present starts (Nat.le_trans (by decide) taken)
    obtain rfl : call = other := Option.some.inj (found.symm.trans present)
    omega

theorem Control.counted_of_stage {platform : Platform ε} {s : State α ε} (control : Control platform s) {i : Nat}
    {call : Call} (found : s.calls[i]? = some call) (starts : 1 ≤ call.point.stage) (early : call.point.stage < 6) :
    Counted s ∧ s.discarded = [] := by
  rcases control.counted with counted | ⟨j,other,present,late⟩
  · exact counted
  · obtain rfl := control.single i j call other found present starts (Nat.le_trans (by decide) late)
    obtain rfl : call = other := Option.some.inj (found.symm.trans present)
    omega

theorem Control.counted_running {platform : Platform ε} {s : State α ε} (control : Control platform s)
    (running : s.stopping = false) : Counted s ∧ s.discarded = [] := by
  rcases control.counted with counted | late
  · exact counted
  · have stopping := control.stopping (late.mono (by decide))
    simp [running] at stopping

theorem control_takeWorkers {platform : Platform ε} {s : State α ε} {i : Nat} {call : Call}
    (control : Control platform s) (found : s.calls[i]? = some call) (takes : call.point = .takeWorkers) :
    Control platform (({s with threads := [], workerActive := []} : State α ε).proceed i call (.join s.threads)) := by
  have all := control.threads_of_stage found (by simp [takes,Point.stage]) (by simp [takes,Point.stage])
  have stopped := control.stopping ⟨i,call,found,by simp [takes,Point.stage]⟩
  refine control_proceed control found (by simp [takes,Point.inside]) rfl rfl rfl rfl rfl rfl
    (by simp [takes,Point.stage]) (fun _ => Or.inl (by simp [takes,Point.stage])) (fun _ => stopped)
    (Or.inr (Nat.le_refl 4)) ?_ (Or.inl rfl)
  intro unjoined rest
  cases rest
  intro k worker present absent
  rw [all] at absent
  exact absurd (List.mem_range.mpr (get_lt present)) absent

theorem control_clear {platform : Platform ε} {s : State α ε} {i : Nat} {call : Call}
    (control : Control platform s) (found : s.calls[i]? = some call) (clears : call.point = .clear)
    (free : s.queueMutex = none) :
    Control platform
      (({s with taskQueue := [], discarded := s.discarded ++ s.taskQueue} : State α ε).proceed i call .storePending) := by
  have stopped := control.stopping ⟨i,call,found,by simp [clears,Point.stage]⟩
  refine control_call control found rfl rfl (by simp [clears,Point.stage])
    (fun _ => Or.inl (by simp [clears,Point.stage])) (fun _ => stopped) (Or.inl rfl) ?_
    (control.locked.keep (.call i) false (fun actor => ?_) ((inside_call found).trans (by rw [clears]; rfl)) rfl)
    (Nat.two_pow_pos _) (Or.inr (Nat.le_refl 6))
    (queued_all_outside _ fun k => control.locked.outside free (.worker k))
  · intro unjoined rest
    cases rest
    exact control.joined i call found [] (by rw [clears]; rfl)
  · exact inside_proceed (s := {s with taskQueue := [], discarded := _}) found _ actor

theorem joined_late {platform : Platform ε} {s : State α ε} {i : Nat} {call : Call} {point : Point}
    (control : Control platform s) (found : s.calls[i]? = some call) (before : call.point.unjoined = some [])
    (after : point.unjoined = some []) : Joined s.workers {call with point := point} := by
  intro unjoined rest
  have known := control.joined i call found [] before
  have equal : unjoined = [] := Option.some.inj (rest.symm.trans after)
  exact equal ▸ known

theorem Reached.append {stage : Nat} {calls : List Call} (reached : Reached stage calls) (call : Call) :
    Reached stage (calls ++ [call]) := by
  obtain ⟨i,old,found,above⟩ := reached
  exact ⟨i,old,get_grows found,above⟩

theorem Reached.of_append {stage : Nat} {calls : List Call} {call : Call} (reached : Reached stage (calls ++ [call]))
    (unstarted : call.point.stage < stage) : Reached stage calls := by
  obtain ⟨i,old,found,above⟩ := reached
  rcases get_append found with kept | ⟨_,rfl⟩
  · exact ⟨i,old,kept,above⟩
  · omega

theorem control_invoke {platform : Platform ε} {s : State α ε} (control : Control platform s) (request : Request) :
    Control platform {s with calls := s.calls ++ [⟨request,s.promises.length,.entering⟩]} := by
  have inside (actor : Actor) :
      ({s with calls := s.calls ++ [⟨request,s.promises.length,.entering⟩]} : State α ε).inside actor =
        s.inside actor := by
    cases actor with
    | worker k => rfl
    | call i =>
      simp only [State.inside,List.getElem?_append,List.getElem?_singleton]
      split
      · rfl
      · rw [List.getElem?_eq_none (by omega)]
        split <;> rfl
  constructor
  · intro actor
    rw [inside]
    exact control.locked actor
  · exact control.room
  · intro i j a b first second winsFirst winsSecond
    rcases get_append first with keptFirst | ⟨_,rfl⟩
    · rcases get_append second with keptSecond | ⟨_,rfl⟩
      · exact control.single i j a b keptFirst keptSecond winsFirst winsSecond
      · simp [Point.stage] at winsSecond
    · simp [Point.stage] at winsFirst
  · exact fun reached => control.stopping (reached.of_append (by simp [Point.stage]))
  · exact control.threads.imp_right fun reached => reached.append _
  · exact control.joined.append fun unjoined rest => by contradiction
  · refine control.counted.imp (fun ⟨counted,kept⟩ => ⟨?_,kept⟩) fun reached => reached.append _
    unfold Counted at counted ⊢
    simpa [List.countP_append,Call.adding] using counted
  · exact control.queued

theorem control_workerMoves {platform : Platform ε} {s t : State α ε} {k : Nat} (control : Control platform s)
    (moves : WorkerMoves platform s k t) : Control platform t := by
  cases moves with
  | walk before after active found walks =>
    exact control_silent control found after walks.alive walks.inside walks.subtracting walks.queued
      rfl rfl rfl rfl rfl rfl rfl rfl
  | lock before found waits free => exact control_lock control found waits free
  | release before after found releases => exact control_release control found releases
  | take id rest found front => exact control_take control found front
  | fetchSub id found => exact control_fetchSub control found
  | execute id found =>
    exact control_silent control found (.running id) (by simp) rfl rfl (fun _ => trivial)
      rfl rfl rfl rfl rfl rfl rfl rfl
  | settle id outcome promise after found =>
    exact control_silent control found .markIdle (by simp) rfl rfl (fun _ => trivial)
      rfl rfl rfl rfl rfl rfl rfl rfl
  | abort id outcome promise after failure found =>
    exact control_silent control found .exited (by simp) rfl rfl (fun _ => trivial)
      rfl rfl rfl rfl rfl rfl rfl rfl

theorem control_callMoves [Inhabited α] [Inhabited ε] {platform : Platform ε} {s t : State α ε} {i : Nat} {call : Call}
    (control : Control platform s) (found : s.calls[i]? = some call) (moves : CallMoves platform s i call t) :
    Control platform t := by
  cases moves with
  | proceed point proceeds =>
    obtain ⟨forward,first⟩ := proceeds.forward
    refine control_proceed control found proceeds.inside.1 proceeds.inside.2 rfl rfl rfl rfl rfl forward
      (fun starts => Or.inl (first starts)) ?_ (Or.inl rfl) (proceeds.joined (control.joined i call found)) (Or.inl rfl)
    intro either
    rcases either with stopped | starts
    · exact stopped
    · exact control.stopping ⟨i,call,found,first starts⟩
  | push promise entering enqueues free room => exact control_push control found entering free room
  | fetchAdd id adds => exact control_fetchAdd control found adds
  | unlock id unlocks => exact control_unlock control found unlocks
  | pause entering asks =>
    exact control_proceed control found (by simp [entering,Point.inside]) rfl rfl rfl rfl rfl rfl
      (by simp [entering,Point.stage]) (by simp [Point.stage])
      (fun stopped => stopped.resolve_right (by simp [Point.stage])) (Or.inl rfl)
      (fun unjoined rest => by contradiction) (Or.inl rfl)
  | resume entering asks =>
    exact control_proceed control found (by simp [entering,Point.inside]) rfl rfl rfl rfl rfl rfl
      (by simp [entering,Point.stage]) (by simp [Point.stage])
      (fun stopped => stopped.resolve_right (by simp [Point.stage])) (Or.inl rfl)
      (fun unjoined rest => by contradiction) (Or.inl rfl)
  | exchange waitForTasks entering asks running =>
    exact control_proceed control found (by simp [entering,Point.inside]) rfl rfl rfl rfl rfl rfl
      (by simp [entering,Point.stage]) (fun _ => Or.inr running) (fun _ => rfl)
      (Or.inl rfl) (fun unjoined rest => by contradiction) (Or.inl rfl)
  | takeWorkers takes => exact control_takeWorkers control found takes
  | clear clears free => exact control_clear control found clears free
  | storePending stores =>
    have stopped := control.stopping ⟨i,call,found,by simp [stores,Point.stage]⟩
    exact control_proceed control found (by simp [stores,Point.inside]) rfl rfl rfl rfl rfl rfl
      (by simp [stores,Point.stage]) (fun _ => Or.inl (by simp [stores,Point.stage])) (fun _ => stopped)
      (Or.inl rfl) (joined_late control found (by rw [stores]; rfl) rfl) (Or.inr (by simp [Point.stage]))
  | storeStopping stores =>
    exact control_proceed control found (by simp [stores,Point.inside]) rfl rfl rfl rfl rfl rfl
      (by simp [stores,Point.stage]) (fun _ => Or.inl (by simp [stores,Point.stage])) (fun _ => rfl)
      (Or.inl rfl) (joined_late control found (by rw [stores]; rfl) rfl) (Or.inr (by simp [Point.stage]))

theorem control_step [Inhabited α] [Inhabited ε] {platform : Platform ε} {s t : State α ε}
    (control : Control platform s) (moves : Moves platform s t) : Control platform t := by
  cases moves with
  | invoke request => exact control_invoke control request
  | worker k t moves => exact control_workerMoves control moves
  | call i call t found moves => exact control_callMoves control found moves

theorem createWorkers_eq (n : Nat) (s : State α ε) :
    createWorkers n s = {s with
      threads := s.threads ++ List.range' s.threads.length n
      workerActive := s.workerActive ++ List.replicate n false
      workers := s.workers ++ List.replicate n .test} := by
  induction n generalizing s with
  | zero => simp [createWorkers]
  | succ n ih =>
    rw [createWorkers,ih]
    simp [createWorker,List.range'_succ,List.replicate_succ]

theorem construct_eq (platform : Platform ε) (config : Config) :
    construct platform config = ({(empty : State α ε) with
      threads := List.range (config.adjust platform).minThreads
      workerActive := List.replicate (config.adjust platform).minThreads false
      workers := List.replicate (config.adjust platform).minThreads .test}) := by
  simp [construct,createWorkers_eq,empty,List.range_eq_range']

theorem control_init (platform : Platform ε) (config : Config) :
    Control platform (construct platform config : State α ε) := by
  rw [construct_eq]
  have starts (k : Nat) (worker : Worker α ε)
      (found : (List.replicate (config.adjust platform).minThreads Worker.test)[k]? = some worker) :
      worker = .test :=
    List.eq_of_mem_replicate (List.mem_of_getElem? found)
  constructor
  · intro actor
    cases actor with
    | worker k =>
      simp only [State.inside,List.getElem?_replicate]
      split <;> simp [empty,Worker.inside]
    | call i => simp [State.inside,empty]
  · exact Nat.two_pow_pos _
  · intro i j a b found
    simp [empty] at found
  · intro given
    obtain ⟨i,call,found,_⟩ := given
    simp [empty] at found
  · exact Or.inl (by simp)
  · exact Every.nil _
  · refine Or.inl ⟨?_,rfl⟩
    simp [Counted,empty,Worker.subtracting,List.countP_replicate]
  · intro k worker found
    rw [starts k worker found]
    trivial

end Ezthread.ThreadPool
