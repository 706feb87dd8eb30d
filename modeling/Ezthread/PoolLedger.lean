import Ezthread.PoolControl
import Mathlib.Data.List.Nodup

/-! Where every task of a pool is, and what its future holds. -/
namespace Ezthread.ThreadPool
open Transition Activation Future

variable {α ε : Type*}

/-- The task a worker holds, from the pop to the end of `Execute`. -/
def Worker.task : Worker α ε → Option Nat
  | .fetchSub id | .unlock (some id) | .markActive id | .execute id | .running id | .settle id _ => some id
  | _ => none

def Worker.started : Worker α ε → Option Nat
  | .running id | .settle id _ => some id
  | _ => none

def State.held (s : State α ε) (id : Nat) : Nat := s.workers.countP fun worker => worker.task == some id

def State.begun (s : State α ε) (id : Nat) : Nat := s.workers.countP fun worker => worker.started == some id

def State.done (s : State α ε) (id : Nat) : Nat := (s.finished.map Prod.fst).count id

structure Ledger [Inhabited α] [Inhabited ε] (s : State α ε) : Prop where
  order : s.dequeued ++ s.discarded ++ s.taskQueue = List.range s.promises.length
  places : ∀ id, s.dequeued.count id = s.held id + s.done id
  executed : ∀ id, s.executed.count id = s.begun id + s.done id
  fresh : ∀ id promise, s.promises[id]? = some (some promise) → s.done id = 0 → promise = SharedState.new
  settled : ∀ id promise outcome, s.promises[id]? = some (some promise) → (id,outcome) ∈ s.finished →
    promise.ready = true ∧ promise.outcome = outcome

theorem settle_new [Inhabited α] [Inhabited ε] (platform : Platform ε) (outcome : Except ε α) :
    ∃ after, settle platform outcome SharedState.new = (after,.ok ()) ∧ after.ready = true ∧ after.outcome = outcome := by
  cases outcome with
  | ok value => exact ⟨_,rfl,rfl,rfl⟩
  | error ex => exact ⟨_,rfl,rfl,rfl⟩

theorem count_range (n id : Nat) : (List.range n).count id = if id < n then 1 else 0 := by
  split
  next inside => exact List.count_eq_one_of_mem List.nodup_range (List.mem_range.mpr inside)
  next outside => exact List.count_eq_zero.mpr fun member => outside (List.mem_range.mp member)

theorem Ledger.place [Inhabited α] [Inhabited ε] {s : State α ε} (ledger : Ledger s) (id : Nat) :
    s.taskQueue.count id + s.held id + s.done id + s.discarded.count id = if id < s.promises.length then 1 else 0 := by
  have order := congrArg (List.count id) ledger.order
  rw [count_range,List.count_append,List.count_append,ledger.places id] at order
  omega

theorem held_pos {s : State α ε} {k id : Nat} {worker : Worker α ε} (found : s.workers[k]? = some worker)
    (task : worker.task = some id) : 0 < s.held id :=
  count_pos _ found (by simp [task])

theorem Ledger.frame [Inhabited α] [Inhabited ε] {s t : State α ε} (ledger : Ledger s)
    (dequeued : t.dequeued = s.dequeued) (discarded : t.discarded = s.discarded) (taskQueue : t.taskQueue = s.taskQueue)
    (promises : t.promises = s.promises) (executed : t.executed = s.executed) (finished : t.finished = s.finished)
    (held : ∀ id, t.held id = s.held id) (begun : ∀ id, t.begun id = s.begun id) : Ledger t where
  order := by
    rw [dequeued,discarded,taskQueue,promises]
    exact ledger.order
  places id := by
    rw [dequeued,held,State.done,finished]
    exact ledger.places id
  executed id := by
    rw [executed,begun,State.done,finished]
    exact ledger.executed id
  fresh := by
    unfold State.done
    rw [promises,finished]
    exact ledger.fresh
  settled := by
    rw [promises,finished]
    exact ledger.settled

theorem held_goto {s : State α ε} {k : Nat} {before : Worker α ε} (found : s.workers[k]? = some before)
    (after : Worker α ε) (id : Nat) :
    (s.goto k after).held id + (if before.task = some id then 1 else 0) =
      s.held id + (if after.task = some id then 1 else 0) := by
  have count := count_set (fun worker : Worker α ε => worker.task == some id) after found
  simp only [beq_iff_eq] at count
  exact count

theorem begun_goto {s : State α ε} {k : Nat} {before : Worker α ε} (found : s.workers[k]? = some before)
    (after : Worker α ε) (id : Nat) :
    (s.goto k after).begun id + (if before.started = some id then 1 else 0) =
      s.begun id + (if after.started = some id then 1 else 0) := by
  have count := count_set (fun worker : Worker α ε => worker.started == some id) after found
  simp only [beq_iff_eq] at count
  exact count

theorem held_keep {s : State α ε} {k : Nat} {before : Worker α ε} (found : s.workers[k]? = some before)
    (after : Worker α ε) (same : after.task = before.task) (id : Nat) : (s.goto k after).held id = s.held id :=
  count_keep (fun worker : Worker α ε => worker.task == some id) after found (by simp only [same])

theorem begun_keep {s : State α ε} {k : Nat} {before : Worker α ε} (found : s.workers[k]? = some before)
    (after : Worker α ε) (same : after.started = before.started) (id : Nat) : (s.goto k after).begun id = s.begun id :=
  count_keep (fun worker : Worker α ε => worker.started == some id) after found (by simp only [same])

theorem Walks.keeps {s : State α ε} {before after : Worker α ε} (walks : Walks s before after) :
    after.task = before.task ∧ after.started = before.started := by
  cases walks <;> exact ⟨rfl,rfl⟩

theorem Releases.keeps {s : State α ε} {before after : Worker α ε} (releases : Releases s before after) :
    after.task = before.task ∧ after.started = before.started := by
  cases releases <;> exact ⟨rfl,rfl⟩

/-- Before the `Stop` has emptied the queue nothing is discarded. -/
theorem Control.kept {platform : Platform ε} {s : State α ε} (control : Control platform s) {k : Nat}
    {worker : Worker α ε} (found : s.workers[k]? = some worker) (alive : worker ≠ .exited) :
    Counted s ∧ s.discarded = [] := by
  rcases control.counted with counted | late
  · exact counted
  · exact absurd (control.exited (late.mono (by decide)) k worker found) alive

theorem ledger_take [Inhabited α] [Inhabited ε] {platform : Platform ε} {s : State α ε} {k id : Nat} {rest : List Nat}
    (control : Control platform s) (ledger : Ledger s) (found : s.workers[k]? = some .take)
    (front : s.taskQueue = id :: rest) :
    Ledger (({s with taskQueue := rest, dequeued := s.dequeued ++ [id]} : State α ε).goto k (.fetchSub id)) where
  order := by
    have order := ledger.order
    have none := (control.kept found (by simp)).2
    rw [front,none] at order
    change s.dequeued ++ [id] ++ s.discarded ++ rest = List.range s.promises.length
    rw [none]
    simpa using order
  places other := by
    have count := held_goto found (.fetchSub id) other
    have before := ledger.places other
    change (s.dequeued ++ [id]).count other = (s.goto k (.fetchSub id)).held other + s.done other
    rw [List.count_append,List.count_singleton]
    simp only [Worker.task,Option.some.injEq,reduceCtorEq,if_false,beq_iff_eq] at count ⊢
    omega
  executed other := (ledger.executed other).trans (congrArg (· + _) (begun_keep found (.fetchSub id) rfl other).symm)
  fresh := ledger.fresh
  settled := ledger.settled

theorem ledger_execute [Inhabited α] [Inhabited ε] {s : State α ε} {k id : Nat} (ledger : Ledger s)
    (found : s.workers[k]? = some (.execute id)) :
    Ledger (({s with executed := s.executed ++ [id]} : State α ε).goto k (.running id)) where
  order := ledger.order
  places other := (ledger.places other).trans (congrArg (· + _) (held_keep found (.running id) rfl other).symm)
  executed other := by
    have count := begun_goto found (.running id) other
    have before := ledger.executed other
    change (s.executed ++ [id]).count other = (s.goto k (.running id)).begun other + s.done other
    rw [List.count_append,List.count_singleton]
    simp only [Worker.started,Option.some.injEq,reduceCtorEq,if_false,beq_iff_eq] at count ⊢
    omega
  fresh := ledger.fresh
  settled := ledger.settled

theorem Ledger.unfinished [Inhabited α] [Inhabited ε] {s : State α ε} {k id : Nat} {worker : Worker α ε}
    (ledger : Ledger s) (found : s.workers[k]? = some worker) (task : worker.task = some id) :
    id < s.promises.length ∧ s.done id = 0 := by
  have place := ledger.place id
  have held := held_pos found task
  split at place
  next inside => exact ⟨inside,by omega⟩
  next => omega

theorem Ledger.settles [Inhabited α] [Inhabited ε] (platform : Platform ε) {s : State α ε} {k id : Nat}
    {outcome : Except ε α} {promise : Option (SharedState α ε)} (ledger : Ledger s)
    (found : s.workers[k]? = some (.settle id outcome)) (present : s.promises[id]? = some promise) :
    ∃ after, settleTask platform outcome promise = (after,.ok ()) ∧
      ∀ state, after = some state → state.ready = true ∧ state.outcome = outcome := by
  cases promise with
  | none => exact ⟨none,rfl,by simp⟩
  | some promise =>
    obtain rfl := ledger.fresh id promise present (ledger.unfinished found rfl).2
    obtain ⟨after,settled,ready,holds⟩ := settle_new platform outcome
    refine ⟨some after,by simp [settleTask,settled],?_⟩
    intro state equal
    cases equal
    exact ⟨ready,holds⟩

theorem done_append (s : State α ε) (id other : Nat) (outcome : Except ε α) :
    ((s.finished ++ [(id,outcome)]).map Prod.fst).count other = s.done other + if id = other then 1 else 0 := by
  simp [State.done,List.count_singleton]

theorem ledger_settle [Inhabited α] [Inhabited ε] {platform : Platform ε} {s : State α ε} {k id : Nat}
    {outcome : Except ε α} {promise after : Option (SharedState α ε)} (ledger : Ledger s)
    (found : s.workers[k]? = some (.settle id outcome)) (present : s.promises[id]? = some promise)
    (settled : settleTask platform outcome promise = (after,.ok ())) :
    Ledger (({s with
      promises := s.promises.set id after
      finished := s.finished ++ [(id,outcome)]} : State α ε).goto k .markIdle) := by
  obtain ⟨other,same,holds⟩ := ledger.settles platform found present
  obtain rfl : other = after := congrArg Prod.fst (same.symm.trans settled)
  have unfinished := (ledger.unfinished found rfl).2
  constructor
  · exact ledger.order.trans (by simp [State.goto])
  · intro other
    have count := held_goto found .markIdle other
    have before := ledger.places other
    change s.dequeued.count other = (s.goto k .markIdle).held other + ((s.finished ++ [(id,outcome)]).map Prod.fst).count other
    rw [done_append]
    simp only [Worker.task,Option.some.injEq,reduceCtorEq,if_false] at count
    omega
  · intro other
    have count := begun_goto found .markIdle other
    have before := ledger.executed other
    change s.executed.count other = (s.goto k .markIdle).begun other + ((s.finished ++ [(id,outcome)]).map Prod.fst).count other
    rw [done_append]
    simp only [Worker.started,Option.some.injEq,reduceCtorEq,if_false] at count
    omega
  · intro other state found none
    change ((s.finished ++ [(id,outcome)]).map Prod.fst).count other = 0 at none
    rw [done_append] at none
    rcases get_set found with ⟨rfl,_⟩ | ⟨_,kept⟩
    · simp at none
    · exact ledger.fresh other state kept (by omega)
  · intro other state result found member
    rcases List.mem_append.mp member with old | new
    · rcases get_set found with ⟨rfl,_⟩ | ⟨_,kept⟩
      · exact absurd unfinished (Nat.ne_of_gt (List.count_pos_iff.mpr (List.mem_map.mpr ⟨_,old,rfl⟩)))
      · exact ledger.settled other state result kept old
    · obtain ⟨rfl,rfl⟩ := Prod.mk.inj (List.mem_singleton.mp new)
      rcases get_set found with ⟨_,equal⟩ | ⟨different,_⟩
      · exact holds state equal.symm
      · exact absurd rfl different

theorem Enqueues.new [Inhabited α] [Inhabited ε] {request : Request} {promise : Option (SharedState α ε)}
    (enqueues : Enqueues request promise) {state : SharedState α ε} (present : promise = some state) :
    state = SharedState.new := by
  cases enqueues with
  | submit => exact (Option.some.inj present).symm
  | submitDetached => contradiction

theorem ledger_push [Inhabited α] [Inhabited ε] {s : State α ε} {i : Nat} {call : Call} {point : Point}
    {promise : Option (SharedState α ε)} (ledger : Ledger s) (enqueues : Enqueues call.request promise) :
    Ledger (({s with
      queueMutex := some (.call i)
      taskQueue := s.taskQueue ++ [s.promises.length]
      promises := s.promises ++ [promise]} : State α ε).proceed i call point) where
  order := by
    change s.dequeued ++ s.discarded ++ (s.taskQueue ++ [s.promises.length]) = List.range (s.promises ++ [promise]).length
    rw [← List.append_assoc,ledger.order,List.length_append,List.length_singleton,List.range_succ]
  places := ledger.places
  executed := ledger.executed
  fresh id state found none := by
    rcases get_append found with kept | ⟨_,equal⟩
    · exact ledger.fresh id state kept none
    · exact enqueues.new equal.symm
  settled id state outcome found member := by
    rcases get_append found with kept | ⟨rfl,_⟩
    · exact ledger.settled id state outcome kept member
    · -- a number not yet given to any task has not finished
      have place := ledger.place s.promises.length
      have finished : 0 < s.done s.promises.length := List.count_pos_iff.mpr (List.mem_map.mpr ⟨_,member,rfl⟩)
      simp only [Nat.lt_irrefl,if_false] at place
      omega

theorem ledger_clear [Inhabited α] [Inhabited ε] {s : State α ε} {i : Nat} {call : Call} {point : Point}
    (ledger : Ledger s) :
    Ledger (({s with taskQueue := [], discarded := s.discarded ++ s.taskQueue} : State α ε).proceed i call point) where
  order := by
    change s.dequeued ++ (s.discarded ++ s.taskQueue) ++ [] = List.range s.promises.length
    rw [List.append_nil,← List.append_assoc]
    exact ledger.order
  places := ledger.places
  executed := ledger.executed
  fresh := ledger.fresh
  settled := ledger.settled

theorem Ledger.moved [Inhabited α] [Inhabited ε] {s t : State α ε} {k : Nat} {before : Worker α ε} (ledger : Ledger s)
    (found : s.workers[k]? = some before) (after : Worker α ε) (workers : t.workers = s.workers.set k after)
    (task : after.task = before.task) (started : after.started = before.started)
    (dequeued : t.dequeued = s.dequeued) (discarded : t.discarded = s.discarded) (taskQueue : t.taskQueue = s.taskQueue)
    (promises : t.promises = s.promises) (executed : t.executed = s.executed) (finished : t.finished = s.finished) :
    Ledger t := by
  refine ledger.frame dequeued discarded taskQueue promises executed finished (fun id => ?_) fun id => ?_
  · rw [← held_keep found after task id,State.held,workers]
    rfl
  · rw [← begun_keep found after started id,State.begun,workers]
    rfl

theorem ledger_workerMoves [Inhabited α] [Inhabited ε] {platform : Platform ε} {s t : State α ε} {k : Nat}
    (control : Control platform s) (ledger : Ledger s) (moves : WorkerMoves platform s k t) : Ledger t := by
  cases moves with
  | walk before after active found walks =>
    exact ledger.moved found after rfl walks.keeps.1 walks.keeps.2 rfl rfl rfl rfl rfl rfl
  | lock before found waits free =>
    refine ledger.moved found _ rfl ?_ ?_ rfl rfl rfl rfl rfl rfl
    · rcases waits with rfl | rfl <;> split <;> rfl
    · rcases waits with rfl | rfl <;> split <;> rfl
  | release before after found releases =>
    exact ledger.moved found after rfl releases.keeps.1 releases.keeps.2 rfl rfl rfl rfl rfl rfl
  | take id rest found front => exact ledger_take control ledger found front
  | fetchSub id found => exact ledger.moved found (.unlock (some id)) rfl rfl rfl rfl rfl rfl rfl rfl rfl
  | execute id found => exact ledger_execute ledger found
  | settle id outcome promise after found present settled => exact ledger_settle ledger found present settled
  | abort id outcome promise after failure found present settled =>
    obtain ⟨other,same,_⟩ := ledger.settles platform found present
    exact absurd (congrArg Prod.snd (same.symm.trans settled)) (by simp)

theorem ledger_step [Inhabited α] [Inhabited ε] {platform : Platform ε} {s t : State α ε}
    (control : Control platform s) (ledger : Ledger s) (moves : Moves platform s t) : Ledger t := by
  cases moves with
  | invoke request => exact ledger.frame rfl rfl rfl rfl rfl rfl (fun _ => rfl) fun _ => rfl
  | worker k t moves => exact ledger_workerMoves control ledger moves
  | call i call t found moves =>
    cases moves with
    | push promise entering enqueues free room => exact ledger_push ledger enqueues
    | clear clears free => exact ledger_clear ledger
    | _ => exact ledger.frame rfl rfl rfl rfl rfl rfl (fun _ => rfl) fun _ => rfl

theorem ledger_init [Inhabited α] [Inhabited ε] (platform : Platform ε) (config : Config) :
    Ledger (construct platform config : State α ε) := by
  rw [construct_eq]
  refine ⟨rfl,fun id => ?_,fun id => ?_,fun id promise found => ?_,fun id promise outcome found => ?_⟩
  · simp [State.held,State.done,empty,Worker.task,List.countP_replicate]
  · simp [State.begun,State.done,empty,Worker.started,List.countP_replicate]
  · simp [empty] at found
  · simp [empty] at found

structure Inv [Inhabited α] [Inhabited ε] (platform : Platform ε) (s : State α ε) : Prop where
  control : Control platform s
  ledger : Ledger s

theorem inv_step [Inhabited α] [Inhabited ε] {platform : Platform ε} (s : State α ε) (label : Label α ε)
    (t : State α ε) (inv : Inv platform s) (taken : step platform s label = some t) : Inv platform t :=
  ⟨control_step inv.control (step_moves taken),ledger_step inv.control inv.ledger (step_moves taken)⟩

theorem inv_run [Inhabited α] [Inhabited ε] {platform : Platform ε} {config : Config} {labels : List (Label α ε)}
    {s : State α ε} (reached : run (step platform) (construct platform config) labels = some s) : Inv platform s :=
  run_invariant (Inv platform) inv_step ⟨control_init platform config,ledger_init platform config⟩ reached

theorem begun_le (s : State α ε) (id : Nat) : s.begun id ≤ s.held id := by
  apply List.countP_mono_left
  intro worker _ started
  cases worker <;> simp_all [Worker.started,Worker.task]

theorem Ledger.executed_once [Inhabited α] [Inhabited ε] {s : State α ε} (ledger : Ledger s) (id : Nat) :
    s.executed.count id + s.discarded.count id ≤ 1 := by
  have place := ledger.place id
  have executed := ledger.executed id
  have within := begun_le s id
  split at place <;> omega

/-- Tasks are dequeued in order, and executed after that. -/
theorem Ledger.executed_lt [Inhabited α] [Inhabited ε] {s : State α ε} (ledger : Ledger s) {id : Nat}
    (executed : id ∈ s.executed) : id < s.dequeued.length := by
  have ran := List.count_pos_iff.mpr executed
  rw [ledger.executed id] at ran
  have within := begun_le s id
  have popped : id ∈ s.dequeued := by
    apply List.count_pos_iff.mp
    rw [ledger.places id]
    omega
  have front : s.dequeued = (List.range s.promises.length).take s.dequeued.length := by
    rw [← ledger.order,List.append_assoc,List.take_left]
  rw [front,List.take_range] at popped
  exact Nat.lt_of_lt_of_le (List.mem_range.mp popped) (Nat.min_le_left _ _)

/-- Every accepted task is queued, held by one worker, finished or discarded, and
in one of these places only; tasks are dequeued in the order they were enqueued;
none is executed twice, or executed and discarded; and the future of a finished
one holds what its call gave. -/
theorem tasks_conserved [Inhabited α] [Inhabited ε] {platform : Platform ε} {config : Config} {s : State α ε}
    (labels : List (Label α ε)) (reached : run (step platform) (construct platform config) labels = some s) :
    (∀ id < s.promises.length, s.taskQueue.count id + s.held id + s.done id + s.discarded.count id = 1) ∧
    s.dequeued ++ s.discarded ++ s.taskQueue = List.range s.promises.length ∧
    s.executed.Nodup ∧ (∀ id ∈ s.discarded, id ∉ s.executed) ∧
    (∀ id promise outcome, s.promises[id]? = some (some promise) → (id,outcome) ∈ s.finished →
      s.executed.count id = 1 ∧ promise.ready = true ∧ promise.outcome = outcome) := by
  obtain ⟨_,ledger⟩ := inv_run reached
  refine ⟨fun id inside => ?_,ledger.order,?_,?_,?_⟩
  · simpa [inside] using ledger.place id
  · apply List.nodup_iff_count_le_one.mpr
    intro id
    have once := ledger.executed_once id
    omega
  · intro id discarded executed
    have once := ledger.executed_once id
    have lost := List.count_pos_iff.mpr discarded
    have ran := List.count_pos_iff.mpr executed
    omega
  · intro id promise outcome found member
    have once := ledger.executed_once id
    have ran := ledger.executed id
    have finished : 0 < s.done id := List.count_pos_iff.mpr (List.mem_map.mpr ⟨_,member,rfl⟩)
    exact ⟨by omega,ledger.settled id promise outcome found member⟩

/-- One worker and two tasks: the first gives 5, and a `Stop(false)` that begins
while it is executed discards the second. -/
theorem tasks_conserved_one_discarded :
    ∃ s : State Nat Nat, run (step ⟨64,4,fun _ => 0⟩) (construct ⟨64,4,fun _ => 0⟩ ⟨1,1⟩)
      [.invoke .submit,.call 0,.call 0,.call 0,.invoke .submitDetached,.call 1,.call 1,.call 1,
        .worker 0,.worker 0,.worker 0,.worker 0,.worker 0,.worker 0,.worker 0,.worker 0,.worker 0,
        .invoke (.stop false),.call 2,.call 2,.call 2,.finish 0 (.ok 5),.worker 0,.worker 0,.worker 0,
        .call 2,.call 2,.call 2] = some s ∧
      (s.dequeued,s.discarded,s.executed,s.finished.length) = ([0],[1],[0],1) ∧
      s.dequeued ++ s.discarded ++ s.taskQueue = List.range s.promises.length := by
  obtain ⟨s,reached,places⟩ : ∃ s : State Nat Nat, run (step ⟨64,4,fun _ => 0⟩) (construct ⟨64,4,fun _ => 0⟩ ⟨1,1⟩)
      [.invoke .submit,.call 0,.call 0,.call 0,.invoke .submitDetached,.call 1,.call 1,.call 1,
        .worker 0,.worker 0,.worker 0,.worker 0,.worker 0,.worker 0,.worker 0,.worker 0,.worker 0,
        .invoke (.stop false),.call 2,.call 2,.call 2,.finish 0 (.ok 5),.worker 0,.worker 0,.worker 0,
        .call 2,.call 2,.call 2] = some s ∧
      (s.dequeued,s.discarded,s.executed,s.finished.length) = ([0],[1],[0],1) := ⟨_,rfl,rfl⟩
  exact ⟨s,reached,places,(tasks_conserved _ reached).2.1⟩

end Ezthread.ThreadPool
