import Ezthread.PoolLedger
import Mathlib.Data.Prod.Lex

/-! A pool that neither pauses nor stops and has a worker can always empty its
queue and finish every task. -/
namespace Ezthread.ThreadPool
open Transition Activation Future

variable {α ε : Type*} [Inhabited α] [Inhabited ε]

/-- The program points of a call are those of its function. -/
def Fits (workers : Nat) (call : Call) : Prop :=
  match call.point with
  | .entering => True
  | .fetchAdd _ | .unlock _ | .notifyOne _ | .threw => call.request = .submit ∨ call.request = .submitDetached
  | .returned (.future _) => call.request = .submit
  | .returned (.nothing (some _)) => call.request = .submitDetached
  | .notifyResumed => call.request = .resume
  | .notifyStopping waitForTasks => call.request = .stop waitForTasks
  | .poll => call.request = .stop true
  | .join unjoined => (∃ waitForTasks, call.request = .stop waitForTasks) ∧ ∀ k ∈ unjoined, k < workers
  | .takeWorkers | .clear | .storePending | .storeStopping | .returned (.stopped _) =>
      ∃ waitForTasks, call.request = .stop waitForTasks
  | .returned (.nothing none) => call.request = .pause ∨ call.request = .resume
  | .returned (.count _) => call.request = .getPendingTaskCount

def State.requests (s : State α ε) : List Request := s.calls.map Call.request

structure Conduct (s : State α ε) : Prop where
  exited : Every (fun _ worker => worker = .exited → s.stopping = true) s.workers
  fits : Every (fun _ call => Fits s.workers.length call) s.calls
  enqueued : Every (fun _ call => call.enqueued ≤ s.promises.length) s.calls
  paused : s.paused = true → .pause ∈ s.requests
  stopped : s.stopping = true → ∃ waitForTasks, .stop waitForTasks ∈ s.requests

omit [Inhabited α] [Inhabited ε] in
theorem WorkerMoves.frame {platform : Platform ε} {s t : State α ε} {k : Nat} (moves : WorkerMoves platform s k t) :
    t.calls = s.calls ∧ t.stopping = s.stopping ∧ t.paused = s.paused ∧ t.threads = s.threads ∧
      t.workers.length = s.workers.length ∧ t.promises.length = s.promises.length := by
  cases moves <;> simp [State.goto]

omit [Inhabited α] [Inhabited ε] in
theorem Proceeds.fits {s : State α ε} {request : Request} {enqueued workers : Nat} {before after : Point}
    (proceeds : Proceeds s request before after) (fits : Fits workers ⟨request,enqueued,before⟩) :
    Fits workers ⟨request,enqueued,after⟩ := by
  cases proceeds with
  | count asks => exact asks
  | lose waitForTasks asks => exact ⟨waitForTasks,asks⟩
  | fail asks => exact asks
  | returnFuture id asks => exact asks
  | returnNothing id other => exact fits.resolve_left other
  | notifyResumed => exact Or.inr fits
  | await => exact fits
  | skip => exact ⟨false,fits⟩
  | poll => exact fits
  | drained => exact ⟨true,fits⟩
  | join k rest => exact ⟨fits.1,fun j member => fits.2 j (List.mem_cons_of_mem k member)⟩
  | noneLeft => exact fits.1

theorem CallMoves.fits {platform : Platform ε} {s t : State α ε} {i : Nat} {call : Call}
    (control : Control platform s) (found : s.calls[i]? = some call) (fits : Fits s.workers.length call)
    (moves : CallMoves platform s i call t) :
    ∃ point, t.calls = s.calls.set i {call with point := point} ∧ Fits s.workers.length {call with point := point} := by
  obtain ⟨request,enqueued,before⟩ := call
  cases moves with
  | proceed point proceeds => exact ⟨_,rfl,proceeds.fits fits⟩
  | push promise entering enqueues =>
    refine ⟨_,rfl,?_⟩
    cases enqueues with
    | submit => exact Or.inl rfl
    | submitDetached => exact Or.inr rfl
  | fetchAdd id adds =>
    cases adds
    exact ⟨_,rfl,fits⟩
  | unlock id unlocks =>
    cases unlocks
    exact ⟨_,rfl,fits⟩
  | pause entering asks => exact ⟨_,rfl,Or.inl asks⟩
  | resume entering asks => exact ⟨_,rfl,asks⟩
  | exchange waitForTasks entering asks => exact ⟨_,rfl,asks⟩
  | takeWorkers takes =>
    cases takes
    refine ⟨_,rfl,fits,fun k member => ?_⟩
    rw [control.threads_of_stage found (by simp [Point.stage]) (by simp [Point.stage])] at member
    exact List.mem_range.mp member
  | clear clears =>
    cases clears
    exact ⟨_,rfl,fits⟩
  | storePending stores =>
    cases stores
    exact ⟨_,rfl,fits⟩
  | storeStopping stores =>
    cases stores
    exact ⟨_,rfl,fits⟩

theorem CallMoves.frame {platform : Platform ε} {s t : State α ε} {i : Nat} {call : Call}
    (moves : CallMoves platform s i call t) :
    t.workers = s.workers ∧ s.promises.length ≤ t.promises.length ∧ (s.stopping = true → t.stopping = true) := by
  cases moves with
  | push => exact ⟨rfl,by simp [State.proceed],id⟩
  | exchange | storeStopping => exact ⟨rfl,Nat.le_refl _,fun _ => rfl⟩
  | _ => exact ⟨rfl,Nat.le_refl _,id⟩

theorem CallMoves.requests {platform : Platform ε} {s t : State α ε} {i : Nat} {call : Call}
    (found : s.calls[i]? = some call) (moves : CallMoves platform s i call t) : t.requests = s.requests := by
  obtain ⟨point,calls⟩ := moves.calls
  obtain ⟨inside,rfl⟩ := List.getElem?_eq_some_iff.mp found
  calc t.requests = (s.calls.map Call.request).set i s.calls[i].request := by rw [State.requests,calls,List.map_set]
    _ = (s.calls.set i s.calls[i]).map Call.request := List.map_set.symm
    _ = s.requests := by rw [List.set_getElem_self,State.requests]

theorem CallMoves.flags {platform : Platform ε} {s t : State α ε} {i workers : Nat} {call : Call}
    (fits : Fits workers call) (moves : CallMoves platform s i call t) :
    (t.paused = true → s.paused = true ∨ call.request = .pause) ∧
      (t.stopping = true → s.stopping = true ∨ ∃ waitForTasks, call.request = .stop waitForTasks) := by
  cases moves with
  | pause entering asks => exact ⟨fun _ => Or.inr asks,Or.inl⟩
  | resume => exact ⟨fun set => by contradiction,Or.inl⟩
  | exchange waitForTasks entering asks => exact ⟨Or.inl,fun _ => Or.inr ⟨waitForTasks,asks⟩⟩
  | storeStopping stores =>
    refine ⟨Or.inl,fun _ => Or.inr ?_⟩
    unfold Fits at fits
    rw [stores] at fits
    exact fits
  | _ => exact ⟨Or.inl,Or.inl⟩

theorem WorkerMoves.exits {platform : Platform ε} {s t : State α ε} {k : Nat} (ledger : Ledger s)
    (moves : WorkerMoves platform s k t)
    (exited : Every (fun _ worker => worker = .exited → s.stopping = true) s.workers) :
    Every (fun _ worker => worker = .exited → s.stopping = true) t.workers := by
  cases moves with
  | walk before after active found walks =>
    apply exited.set
    intro ended
    cases walks with
    | exit stopping => exact stopping
    | _ => contradiction
  | lock before found waits free => exact exited.set fun ended => by split at ended <;> contradiction
  | release before after found releases => exact exited.set fun ended => by cases releases <;> contradiction
  | abort id outcome promise after failure found present settled =>
    obtain ⟨other,same,_⟩ := ledger.settles platform found present
    exact absurd (congrArg Prod.snd (same.symm.trans settled)) (by simp)
  | _ => exact exited.set fun ended => by contradiction

theorem conduct_step {platform : Platform ε} {s t : State α ε} (control : Control platform s) (ledger : Ledger s)
    (conduct : Conduct s) (moves : Moves platform s t) : Conduct t := by
  cases moves with
  | invoke request =>
    have requests : ({s with calls := s.calls ++ [⟨request,s.promises.length,.entering⟩]} : State α ε).requests =
        s.requests ++ [request] := List.map_append
    refine ⟨conduct.exited,conduct.fits.append trivial,conduct.enqueued.append (Nat.le_refl _),fun set => ?_,
      fun set => ?_⟩
    · rw [requests]
      exact List.mem_append_left _ (conduct.paused set)
    · rw [requests]
      exact (conduct.stopped set).imp fun _ member => List.mem_append_left _ member
  | worker k t moves =>
    obtain ⟨calls,stopping,paused,_,workers,promises⟩ := moves.frame
    have requests : t.requests = s.requests := congrArg (List.map Call.request) calls
    refine ⟨?_,?_,?_,?_,?_⟩
    · rw [stopping]
      exact moves.exits ledger conduct.exited
    · rw [calls,workers]
      exact conduct.fits
    · rw [calls,promises]
      exact conduct.enqueued
    · rw [paused,requests]
      exact conduct.paused
    · rw [stopping,requests]
      exact conduct.stopped
  | call i call t found moves =>
    obtain ⟨point,calls,fits⟩ := moves.fits control found (conduct.fits i call found)
    obtain ⟨workers,promises,stopping⟩ := moves.frame
    obtain ⟨pauses,stops⟩ := moves.flags (conduct.fits i call found)
    have asks : call.request ∈ s.requests := List.mem_map_of_mem (List.mem_of_getElem? found)
    refine ⟨?_,?_,?_,?_,?_⟩
    · rw [workers]
      exact conduct.exited.imp fun _ _ _ known ended => stopping (known ended)
    · rw [calls,workers]
      exact conduct.fits.set fits
    · rw [calls]
      exact (conduct.enqueued.imp fun _ _ _ known => Nat.le_trans known promises).set
        (Nat.le_trans (conduct.enqueued i call found) promises)
    · rw [moves.requests found]
      intro set
      rcases pauses set with already | own
      · exact conduct.paused already
      · exact own ▸ asks
    · rw [moves.requests found]
      intro set
      rcases stops set with already | ⟨waitForTasks,own⟩
      · exact conduct.stopped already
      · exact ⟨waitForTasks,own ▸ asks⟩

structure Sane (platform : Platform ε) (s : State α ε) : Prop extends Inv platform s where
  conduct : Conduct s

theorem sane_step {platform : Platform ε} (s : State α ε) (label : Label α ε) (t : State α ε)
    (sane : Sane platform s) (taken : step platform s label = some t) : Sane platform t :=
  ⟨inv_step s label t sane.toInv taken,conduct_step sane.control sane.ledger sane.conduct (step_moves taken)⟩

theorem sane_init (platform : Platform ε) (config : Config) : Sane platform (construct platform config : State α ε) := by
  refine ⟨⟨control_init platform config,ledger_init platform config⟩,?_⟩
  rw [construct_eq]
  refine ⟨fun k worker found ended => ?_,Every.nil _,Every.nil _,fun set => by contradiction,
    fun set => by contradiction⟩
  have starts := List.eq_of_mem_replicate (List.mem_of_getElem? found)
  exact absurd (starts.symm.trans ended) (by simp)

theorem sane_run {platform : Platform ε} {config : Config} {labels : List (Label α ε)} {s : State α ε}
    (reached : run (step platform) (construct platform config) labels = some s) : Sane platform s :=
  run_invariant (Sane platform) sane_step (sane_init platform config) reached

def Label.request : Label α ε → Option Request
  | .invoke request => some request
  | _ => none

theorem step_requests {platform : Platform ε} {s t : State α ε} {label : Label α ε}
    (taken : step platform s label = some t) : t.requests = s.requests ++ label.request.toList := by
  cases internal : label.internal with
  | true =>
    have silent : label.request = none := by cases label <;> trivial
    rw [silent,Option.toList_none,List.append_nil]
    rcases step_internal internal taken with ⟨k,moves⟩ | ⟨i,call,found,moves⟩
    · exact congrArg (List.map Call.request) moves.frame.1
    · exact moves.requests found
  | false =>
    cases label with
    | invoke request =>
      cases taken
      exact List.map_append
    | _ => contradiction

theorem run_requests {platform : Platform ε} {s t : State α ε} {labels : List (Label α ε)}
    (reached : run (step platform) s labels = some t) : t.requests = s.requests ++ labels.filterMap Label.request := by
  induction labels generalizing s with
  | nil =>
    cases reached
    simp
  | cons label rest ih =>
    obtain ⟨next,taken,remaining⟩ := run_cons_some reached
    rw [ih remaining,step_requests taken,List.append_assoc]
    cases shape : label.request <;> simp [shape]

theorem requested {platform : Platform ε} {config : Config} {s : State α ε} {labels : List (Label α ε)}
    (reached : run (step platform) (construct platform config) labels = some s) {request : Request}
    (member : request ∈ s.requests) : .invoke request ∈ labels := by
  rw [run_requests reached,construct_eq] at member
  obtain ⟨label,present,shape⟩ := List.mem_filterMap.mp member
  cases label with
  | invoke other =>
    cases shape
    exact present
  | _ => contradiction

def Worker.waits : Worker α ε → Bool
  | .lockQueue | .asleep => true
  | _ => false

theorem stepWorker_enabled {platform : Platform ε} {s : State α ε} (inv : Inv platform s) {k : Nat} {worker : Worker α ε}
    (found : s.workers[k]? = some worker) (alive : worker ≠ .exited) (idle : ∀ id, worker ≠ .running id)
    (free : worker.waits = true → s.queueMutex = none) : ∃ t, stepWorker platform s k worker = some t := by
  cases worker with
  | lockQueue | asleep => exact ⟨_,if_pos (free rfl)⟩
  | waitStopping => simp only [stepWorker]; split <;> exact ⟨_,rfl⟩
  | take =>
    have some := inv.control.queued k _ found
    simp only [stepWorker]
    split
    next none => exact absurd none some
    next => exact ⟨_,rfl⟩
  | unlock task => cases task <;> exact ⟨_,rfl⟩
  | settle id outcome =>
    obtain ⟨inside,_⟩ := inv.ledger.unfinished found rfl
    have present := List.getElem?_eq_getElem inside
    obtain ⟨after,settled,_⟩ := inv.ledger.settles platform found present
    simp only [stepWorker,present,settled]
    exact ⟨_,rfl⟩
  | running id => exact absurd rfl (idle id)
  | exited => exact absurd rfl alive
  | _ => exact ⟨_,rfl⟩

/-- A worker that has not ended and does not wait for a lock that is held can
step, its task returning if it is executing one. -/
theorem worker_ready {platform : Platform ε} {s : State α ε} (inv : Inv platform s) {k : Nat} {worker : Worker α ε}
    (found : s.workers[k]? = some worker) (alive : worker ≠ .exited)
    (free : worker.waits = true → s.queueMutex = none) :
    ∃ label t, label.internal = true ∧ step platform s label = some t ∧ WorkerMoves platform s k t := by
  by_cases executing : ∃ id, worker = .running id
  · obtain ⟨id,rfl⟩ := executing
    exact ⟨.finish k (.ok default),_,rfl,by simp only [step,found],
      .walk _ _ s.workerActive found (.finish id (.ok default))⟩
  · obtain ⟨t,taken⟩ := stepWorker_enabled inv found alive (fun id same => executing ⟨id,same⟩) free
    exact ⟨.worker k,t,rfl,by simp only [step,found,taken],stepWorker_moves found taken⟩

/-- How far a worker is from the next pop of a queue that is not empty. -/
def Worker.distance : Worker α ε → Nat
  | .exited => 0
  | .take => 1
  | .takeStopping => 2
  | .lockQueue | .asleep => 3
  | .waitStopping | .testPaused => 4
  | .test => 5
  | .sleeping | .unlock none | .markIdle => 6
  | .settle _ _ => 7
  | .running _ => 8
  | .execute _ => 9
  | .markActive _ => 10
  | .unlock (some _) => 11
  | .fetchSub _ => 12

def Call.distance (call : Call) : Nat :=
  match call.point with
  | .fetchAdd _ => 2
  | .unlock _ => 1
  | _ => 0

def State.distance (s : State α ε) : Nat :=
  (s.workers.map Worker.distance).sum + (s.calls.map Call.distance).sum

/-- Pops first, then the way to the next one. -/
def State.drainRank (s : State α ε) : Nat ×ₗ Nat := toLex (s.taskQueue.length,s.distance)

def Drained (s : State α ε) : Prop := s.queueMutex = none ∧ s.taskQueue = [] ∧ ∀ id, s.held id = 0

omit [Inhabited α] [Inhabited ε] in
theorem weight_lower {weight : Worker α ε → Nat} {workers : List (Worker α ε)} {k : Nat} {before after : Worker α ε}
    (found : workers[k]? = some before) (lower : weight after < weight before) :
    ((workers.set k after).map weight).sum < (workers.map weight).sum := by
  have moved := sum_set weight after found
  omega

omit [Inhabited α] [Inhabited ε] in
theorem drainRank_queue {s t : State α ε} (shorter : t.taskQueue.length < s.taskQueue.length) :
    t.drainRank < s.drainRank :=
  Prod.Lex.toLex_lt_toLex.mpr (Or.inl shorter)

omit [Inhabited α] [Inhabited ε] in
theorem drainRank_distance {s t : State α ε} (same : t.taskQueue = s.taskQueue) (nearer : t.distance < s.distance) :
    t.drainRank < s.drainRank :=
  Prod.Lex.toLex_lt_toLex.mpr (Or.inr ⟨congrArg List.length same,nearer⟩)

omit [Inhabited α] [Inhabited ε] in
/-- Every step of a worker brings a running pool nearer to the next pop, but for
one that takes the lock to find the queue empty. -/
theorem WorkerMoves.nearer {platform : Platform ε} {s t : State α ε} {k : Nat} (moves : WorkerMoves platform s k t)
    (running : s.stopping = false) (unpaused : s.workers[k]? = some .testPaused → s.paused = false)
    (busy : s.taskQueue = [] → ∀ worker, s.workers[k]? = some worker → worker.waits = false) :
    t.drainRank < s.drainRank := by
  have nearer {u : State α ε} {before after : Worker α ε} (found : s.workers[k]? = some before)
      (lower : after.distance < before.distance) (workers : u.workers = s.workers.set k after)
      (calls : u.calls = s.calls) (same : u.taskQueue = s.taskQueue) : u.drainRank < s.drainRank := by
    apply drainRank_distance same
    unfold State.distance
    rw [workers,calls]
    exact Nat.add_lt_add_right (weight_lower found lower) _
  cases moves with
  | walk before after active found walks =>
    refine nearer found ?_ rfl rfl rfl
    cases walks with
    | exit stopping | giveUp stopping | leave stopping => simp [running] at stopping
    | pause paused => simp [unpaused found] at paused
    | _ => simp [Worker.distance]
  | lock before found waits free =>
    have some : s.taskQueue ≠ [] := by
      intro none
      have idle := busy none before found
      rcases waits with rfl | rfl <;> contradiction
    refine nearer found ?_ rfl rfl rfl
    rw [if_neg some]
    rcases waits with rfl | rfl <;> simp [Worker.distance]
  | release before after found releases =>
    refine nearer found ?_ rfl rfl rfl
    cases releases <;> simp [Worker.distance]
  | take id rest found front =>
    apply drainRank_queue
    rw [front]
    exact Nat.lt_succ_self _
  | fetchSub id found => exact nearer found (by simp [Worker.distance]) rfl rfl rfl
  | execute id found => exact nearer found (by simp [Worker.distance]) rfl rfl rfl
  | settle id outcome promise after found => exact nearer found (by simp [Worker.distance]) rfl rfl rfl
  | abort id outcome promise after failure found => exact nearer found (by simp [Worker.distance]) rfl rfl rfl

omit [Inhabited α] [Inhabited ε] in
theorem Locked.holder_worker {s : State α ε} (locked : Locked s) {k : Nat} (held : s.queueMutex = some (.worker k)) :
    ∃ worker, s.workers[k]? = some worker ∧ worker.inside = true :=
  (Option.any_eq_true _ _).mp ((locked (.worker k)).mpr held)

omit [Inhabited α] [Inhabited ε] in
theorem Locked.holder_call {s : State α ε} (locked : Locked s) {i : Nat} (held : s.queueMutex = some (.call i)) :
    ∃ call, s.calls[i]? = some call ∧ ∃ id, call.point = .fetchAdd id ∨ call.point = .unlock id := by
  obtain ⟨⟨request,enqueued,point⟩,found,inside⟩ := (Option.any_eq_true _ _).mp ((locked (.call i)).mpr held)
  cases point with
  | fetchAdd id => exact ⟨_,found,id,Or.inl rfl⟩
  | unlock id => exact ⟨_,found,id,Or.inr rfl⟩
  | _ => contradiction

inductive Leaves : Point → Point → Prop
  | count (id) : Leaves (.fetchAdd id) (.unlock id)
  | release (id) : Leaves (.unlock id) (.notifyOne id)

theorem Leaves.distance {call : Call} {after : Point} (leaves : Leaves call.point after) :
    Call.distance {call with point := after} < call.distance := by
  obtain ⟨request,enqueued,before⟩ := call
  cases leaves <;> simp [Call.distance]

/-- A call that holds the lock goes on to release it and touches no worker. -/
theorem holder_steps (platform : Platform ε) {s : State α ε} {i id : Nat} {call : Call}
    (found : s.calls[i]? = some call) (holds : call.point = .fetchAdd id ∨ call.point = .unlock id) :
    ∃ t point, step platform s (.call i) = some t ∧ t.calls = s.calls.set i {call with point := point} ∧
      Leaves call.point point ∧ t.workers = s.workers ∧ t.taskQueue = s.taskQueue ∧
      t.stopping = s.stopping ∧ t.paused = s.paused ∧ t.threads = s.threads ∧ t.promises = s.promises ∧
      t.dequeued = s.dequeued := by
  rcases holds with adds | unlocks
  · refine ⟨({s with pendingTasks := (s.pendingTasks + 1) % 2 ^ platform.width} : State α ε).proceed i call (.unlock id),
      .unlock id,by simp only [step,found,stepCall,adds],rfl,?_,rfl,rfl,rfl,rfl,rfl,rfl,rfl⟩
    rw [adds]
    exact .count id
  · refine ⟨({s with queueMutex := none} : State α ε).proceed i call (.notifyOne id),
      .notifyOne id,by simp only [step,found,stepCall,unlocks],rfl,?_,rfl,rfl,rfl,rfl,rfl,rfl,rfl⟩
    rw [unlocks]
    exact .release id

omit [Inhabited α] [Inhabited ε] in
theorem inside_alive {worker : Worker α ε} (inside : worker.inside = true) :
    worker ≠ .exited ∧ worker.waits = false := by
  cases worker <;> simp_all [Worker.inside,Worker.waits]

omit [Inhabited α] [Inhabited ε] in
/-- Who can step next: a call that holds the lock, or else a worker, which holds it
or is one that is chosen where the lock is free. -/
theorem Locked.next {s : State α ε} (locked : Locked s) {Chosen : Worker α ε → Prop}
    (chooses : s.queueMutex = none →
      ∃ (k : Nat) (worker : Worker α ε), s.workers[k]? = some worker ∧ worker ≠ .exited ∧ Chosen worker) :
    (∃ (i : Nat) (call : Call) (id : Nat), s.calls[i]? = some call ∧
      (call.point = .fetchAdd id ∨ call.point = .unlock id)) ∨
    ∃ (k : Nat) (worker : Worker α ε), s.workers[k]? = some worker ∧ worker ≠ .exited ∧
      (worker.waits = true → s.queueMutex = none) ∧ (worker.inside = true ∨ Chosen worker) := by
  cases mutex : s.queueMutex with
  | none =>
    obtain ⟨k,worker,found,alive,chosen⟩ := chooses mutex
    exact Or.inr ⟨k,worker,found,alive,fun _ => rfl,Or.inr chosen⟩
  | some actor =>
    cases actor with
    | worker k =>
      obtain ⟨worker,found,inside⟩ := locked.holder_worker mutex
      obtain ⟨alive,awake⟩ := inside_alive inside
      exact Or.inr ⟨k,worker,found,alive,fun waits => by simp [awake] at waits,Or.inl inside⟩
    | call i =>
      obtain ⟨call,found,id,holds⟩ := locked.holder_call mutex
      exact Or.inl ⟨i,call,id,found,holds⟩

omit [Inhabited α] [Inhabited ε] in
theorem Leaves.nearer {s t : State α ε} {i : Nat} {call : Call} {point : Point} (leaves : Leaves call.point point)
    (found : s.calls[i]? = some call) (calls : t.calls = s.calls.set i {call with point := point})
    (workers : t.workers = s.workers) (taskQueue : t.taskQueue = s.taskQueue) : t.drainRank < s.drainRank := by
  apply drainRank_distance taskQueue
  have moved := sum_set Call.distance {call with point := point} found
  have nearer := leaves.distance
  unfold State.distance
  rw [calls,workers]
  omega

structure Onward (s t : State α ε) : Prop where
  running : t.stopping = false
  unpaused : t.paused = false
  workers : t.workers.length = s.workers.length
  promises : t.promises.length = s.promises.length
  entering : ∀ (i : Nat) (call : Call), s.calls[i]? = some call → call.point = .entering → t.calls[i]? = some call

omit [Inhabited α] [Inhabited ε] in
theorem Onward.trans {r s t : State α ε} (first : Onward r s) (second : Onward s t) : Onward r t where
  running := second.running
  unpaused := second.unpaused
  workers := second.workers.trans first.workers
  promises := second.promises.trans first.promises
  entering i call found entering := second.entering i call (first.entering i call found entering) entering

omit [Inhabited α] [Inhabited ε] in
theorem WorkerMoves.onward {platform : Platform ε} {s t : State α ε} {k : Nat} (moves : WorkerMoves platform s k t)
    (running : s.stopping = false) (unpaused : s.paused = false) : Onward s t := by
  obtain ⟨calls,stopping,paused,_,workers,promises⟩ := moves.frame
  exact ⟨stopping.trans running,paused.trans unpaused,workers,promises,fun i call found _ => calls ▸ found⟩

omit [Inhabited α] [Inhabited ε] in
/-- In a pool with work left and the lock free, any worker has some while there is
work in the queue, and else one that holds a task. -/
theorem undrained_chooses {s : State α ε} (alive : Every (fun _ worker => worker ≠ .exited) s.workers)
    (staffed : 0 < s.workers.length) (undrained : ¬ Drained s) (free : s.queueMutex = none) :
    ∃ (k : Nat) (worker : Worker α ε), s.workers[k]? = some worker ∧ worker ≠ .exited ∧
      (s.taskQueue = [] → worker.waits = false) := by
  by_cases empty : s.taskQueue = []
  · have holding : ∃ id, s.held id ≠ 0 := by
      by_contra idle
      push Not at idle
      exact undrained ⟨free,empty,idle⟩
    obtain ⟨id,some⟩ := holding
    obtain ⟨k,worker,found,holds⟩ := count_some (Nat.pos_of_ne_zero some)
    refine ⟨k,worker,found,alive k worker found,fun _ => ?_⟩
    cases worker with
    | lockQueue | asleep => contradiction
    | _ => rfl
  · have found := List.getElem?_eq_getElem staffed
    exact ⟨0,_,found,alive 0 _ found,fun none => absurd none empty⟩

theorem drain_step {platform : Platform ε} {s : State α ε} (sane : Sane platform s) (running : s.stopping = false)
    (unpaused : s.paused = false) (staffed : 0 < s.workers.length) (undrained : ¬ Drained s) :
    ∃ label t, label.internal = true ∧ step platform s label = some t ∧ Onward s t ∧ t.drainRank < s.drainRank := by
  have alive : Every (fun _ worker => worker ≠ .exited) s.workers := by
    intro k worker found ended
    have stopping := sane.conduct.exited k worker found ended
    simp [running] at stopping
  rcases sane.control.locked.next (undrained_chooses alive staffed undrained) with
    ⟨i,call,id,found,holds⟩ | ⟨k,worker,found,alive,free,ready⟩
  · obtain ⟨t,point,taken,calls,leaves,workers,taskQueue,stopping,paused,_,promises,_⟩ :=
      holder_steps platform found holds
    refine ⟨.call i,t,rfl,taken,⟨stopping.trans running,paused.trans unpaused,by rw [workers],by rw [promises],?_⟩,
      leaves.nearer found calls workers taskQueue⟩
    intro j other present entering
    have different : i ≠ j := by
      intro same
      subst same
      obtain rfl : call = other := Option.some.inj (found.symm.trans present)
      rcases holds with adds | unlocks
      · simp [entering] at adds
      · simp [entering] at unlocks
    rw [calls,List.getElem?_set_ne different]
    exact present
  · obtain ⟨label,t,internal,taken,moves⟩ := worker_ready sane.toInv found alive free
    refine ⟨label,t,internal,taken,moves.onward running unpaused,moves.nearer running (fun _ => unpaused) ?_⟩
    intro none other present
    obtain rfl : worker = other := Option.some.inj (found.symm.trans present)
    rcases ready with inside | busy
    · exact (inside_alive inside).2
    · exact busy none

theorem drain {platform : Platform ε} {s : State α ε} (sane : Sane platform s) (running : s.stopping = false)
    (unpaused : s.paused = false) (staffed : 0 < s.workers.length) :
    ∃ labels t, (∀ label ∈ labels, label.internal = true) ∧ run (step platform) s labels = some t ∧
      Sane platform t ∧ Onward s t ∧ Drained t := by
  have rest (u : State α ε) (known : Sane platform u ∧ Onward s u) (undrained : ¬ Drained u) :
      ∃ label next, label.internal = true ∧ step platform u label = some next ∧
        (Sane platform next ∧ Onward s next) ∧ next.drainRank < u.drainRank := by
    obtain ⟨sane,onward⟩ := known
    obtain ⟨label,next,internal,taken,further,lower⟩ :=
      drain_step sane onward.running onward.unpaused (onward.workers ▸ staffed) undrained
    exact ⟨label,next,internal,taken,⟨sane_step u label next sane taken,onward.trans further⟩,lower⟩
  obtain ⟨labels,t,internal,reached,⟨sane,onward⟩,drained⟩ := run_to_goal (fun label : Label α ε => label.internal = true)
    State.drainRank rest s ⟨sane,⟨running,unpaused,rfl,rfl,fun _ _ found _ => found⟩⟩
  exact ⟨labels,t,internal,reached,sane,onward,drained⟩

theorem Drained.executed {platform : Platform ε} {s : State α ε} (inv : Inv platform s) (drained : Drained s)
    (running : s.stopping = false) {id : Nat} (accepted : id < s.promises.length) :
    s.executed.count id = 1 ∧ s.done id = 1 := by
  obtain ⟨_,empty,idle⟩ := drained
  have place := inv.ledger.place id
  have none := (inv.control.counted_running running).2
  have executed := inv.ledger.executed id
  have once := inv.ledger.executed_once id
  rw [empty,none,idle,if_pos accepted] at place
  simp only [List.count_nil] at place
  omega

/-- The task at the front can be executed by steps of the calls and workers there
are. -/
def Served (platform : Platform ε) (s : State α ε) : Prop :=
  ∀ id rest, s.taskQueue = id :: rest →
    ∃ labels t, (∀ label ∈ labels, label.internal = true) ∧ run (step platform) s labels = some t ∧
      t.executed.count id = 1 ∧ t.done id = 1

omit [Inhabited ε] in
theorem adjust_pos (platform : Platform ε) (config : Config) :
    0 < (config.adjust platform).minThreads ↔
      0 < config.minThreads ∧ (0 < config.maxThreads ∨ 0 < platform.hardwareConcurrency) := by
  unfold Config.adjust
  dsimp only
  split <;> split <;> omega

theorem run_workers {platform : Platform ε} {s t : State α ε} {labels : List (Label α ε)}
    (reached : run (step platform) s labels = some t) : t.workers.length = s.workers.length := by
  refine run_invariant (fun u => u.workers.length = s.workers.length) (fun u label v same taken => ?_) rfl reached
  cases step_moves taken with
  | invoke => exact same
  | worker k v moves => exact moves.frame.2.2.2.2.1.trans same
  | call i call v found moves => exact (congrArg List.length moves.frame.1).trans same

theorem staffed_run {platform : Platform ε} {config : Config} {labels : List (Label α ε)} {s : State α ε}
    (reached : run (step platform) (construct platform config) labels = some s) :
    s.workers.length = (config.adjust platform).minThreads := by
  rw [run_workers reached,construct_eq]
  exact List.length_replicate

theorem unpaused_run {platform : Platform ε} {config : Config} {labels : List (Label α ε)} {s : State α ε}
    (reached : run (step platform) (construct platform config) labels = some s) (unpaused : .invoke .pause ∉ labels) :
    s.paused = false := by
  cases shape : s.paused with
  | false => rfl
  | true => exact absurd (requested reached ((sane_run reached).conduct.paused shape)) unpaused

theorem unstopped_run {platform : Platform ε} {config : Config} {labels : List (Label α ε)} {s : State α ε}
    (reached : run (step platform) (construct platform config) labels = some s)
    (unstopped : ∀ waitForTasks, .invoke (.stop waitForTasks) ∉ labels) : s.stopping = false := by
  cases shape : s.stopping with
  | false => rfl
  | true =>
    obtain ⟨waitForTasks,member⟩ := (sane_run reached).conduct.stopped shape
    exact absurd (requested reached member) (unstopped waitForTasks)

theorem staffed_served {platform : Platform ε} {config : Config} (staffed : 0 < (config.adjust platform).minThreads)
    {labels : List (Label α ε)} {s : State α ε} (reached : run (step platform) (construct platform config) labels = some s)
    (unpaused : .invoke .pause ∉ labels) (unstopped : ∀ waitForTasks, .invoke (.stop waitForTasks) ∉ labels) :
    Served platform s := by
  have sane := sane_run reached
  have running := unstopped_run reached unstopped
  rw [← staffed_run reached] at staffed
  intro id rest front
  obtain ⟨more,t,internal,run,after,onward,drained⟩ := drain sane running (unpaused_run reached unpaused) staffed
  have accepted : id < t.promises.length := by
    rw [onward.promises]
    have member : id ∈ List.range s.promises.length := by
      rw [← sane.ledger.order,front]
      simp
    exact List.mem_range.mp member
  exact ⟨more,t,internal,run,drained.executed after.toInv onward.running accepted⟩

theorem unstaffed_idle {platform : Platform ε} {s t : State α ε} {labels : List (Label α ε)}
    (unstaffed : s.workers = []) (idle : s.executed = []) (reached : run (step platform) s labels = some t) :
    t.executed = [] := by
  refine (run_invariant (fun u => u.workers = [] ∧ u.executed = []) (fun u label v known taken => ?_)
    ⟨unstaffed,idle⟩ reached).2
  obtain ⟨none,idle⟩ := known
  cases step_moves taken with
  | invoke => exact ⟨none,idle⟩
  | worker k v moves =>
    have absent : u.workers[k]? = Option.none := by simp [none]
    cases moves <;> simp_all
  | call i call v found moves => cases moves <;> exact ⟨none,idle⟩

theorem unstaffed_stuck {platform : Platform ε} {config : Config} (wide : 0 < platform.width)
    (unstaffed : (config.adjust platform).minThreads = 0) :
    ∃ s : State α ε, run (step platform) (construct platform config) [.invoke .submit,.call 0] = some s ∧
      s.taskQueue = [0] ∧ s.workers.length = 0 ∧ ¬ Served platform s := by
  have room : 1 < 2 ^ platform.width := Nat.one_lt_two_pow (by omega)
  rw [construct_eq,unstaffed]
  let first : State α ε := {empty with calls := [⟨.submit,0,.entering⟩]}
  have taken : step platform first (.call 0) = some (({first with
      queueMutex := some (.call 0)
      taskQueue := [0]
      promises := [some SharedState.new]} : State α ε).proceed 0 ⟨.submit,0,.entering⟩ (.fetchAdd 0)) :=
    if_pos ⟨rfl,room⟩
  refine ⟨_,run_step rfl (run_step taken rfl),rfl,rfl,fun served => ?_⟩
  obtain ⟨labels,t,_,reached,executed,_⟩ := served 0 [] rfl
  have none := unstaffed_idle rfl rfl reached
  simp [none] at executed

/-- In every run without `Pause` and `Stop` the front task can be executed, for
exactly the configurations that give the pool a worker. -/
theorem served_iff {platform : Platform ε} (config : Config) (wide : 0 < platform.width) :
    (∀ (labels : List (Label α ε)) (s : State α ε), .invoke .pause ∉ labels →
      (∀ waitForTasks, .invoke (.stop waitForTasks) ∉ labels) →
      run (step platform) (construct platform config) labels = some s → Served platform s) ↔
    0 < config.minThreads ∧ (0 < config.maxThreads ∨ 0 < platform.hardwareConcurrency) := by
  rw [← adjust_pos]
  constructor
  · intro served
    apply Nat.pos_of_ne_zero
    intro unstaffed
    obtain ⟨s,reached,_,_,stuck⟩ := unstaffed_stuck (α := α) wide unstaffed
    exact stuck (served _ s (by simp) (by simp) reached)
  · intro staffed labels s unpaused unstopped reached
    exact staffed_served staffed reached unpaused unstopped

theorem served_iff_one_worker :
    ∃ s : State Nat Nat, run (step ⟨64,4,fun _ => 0⟩) (construct ⟨64,4,fun _ => 0⟩ ⟨1,0⟩)
        [.invoke .submit,.call 0] = some s ∧
      s.taskQueue = [0] ∧ Served ⟨64,4,fun _ => 0⟩ s := by
  obtain ⟨s,reached,front⟩ : ∃ s : State Nat Nat,
      run (step ⟨64,4,fun _ => 0⟩) (construct ⟨64,4,fun _ => 0⟩ ⟨1,0⟩) [.invoke .submit,.call 0] = some s ∧
      s.taskQueue = [0] := ⟨_,rfl,rfl⟩
  exact ⟨s,reached,front,(served_iff ⟨1,0⟩ (by decide)).mpr (by decide) _ s (by simp) (by simp) reached⟩

/-- The default configuration gives the pool none. -/
theorem default_stuck :
    ∃ s : State Nat Nat, run (step ⟨64,4,fun _ => 0⟩)
        (construct ⟨64,4,fun _ => 0⟩ (.default ⟨64,4,fun _ => 0⟩)) [.invoke .submit,.call 0] = some s ∧
      s.taskQueue = [0] ∧ s.workers.length = 0 ∧ ¬ Served ⟨64,4,fun _ => 0⟩ s :=
  unstaffed_stuck (by decide) rfl

end Ezthread.ThreadPool
