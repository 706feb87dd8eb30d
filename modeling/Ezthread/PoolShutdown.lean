import Ezthread.PoolProgress

/-! When `Stop(true)` can return with every task enqueued before it executed. -/
namespace Ezthread.ThreadPool
open Transition Activation Future

variable {α ε : Type*} [Inhabited α] [Inhabited ε]

/-- Past its last test of `m_stopping`, with the task still in the queue. -/
def Worker.committed : Worker α ε → Bool
  | .take => true
  | _ => false

def Worker.taking : Worker α ε → Bool
  | .take | .fetchSub _ => true
  | _ => false

/-- The tasks dequeued, and the one a worker is committed to dequeue. -/
def State.reach (s : State α ε) : Nat := s.dequeued.length + s.workers.countP Worker.committed

def State.inflight (s : State α ε) : Nat := s.workers.countP Worker.taking

/-- The call has returned and the first tasks have been executed, once each. -/
def Completed (j enqueued : Nat) (s : State α ε) : Prop :=
  (∃ call answer, s.calls[j]? = some call ∧ call.point = .returned answer) ∧
    ∀ id < enqueued, s.executed.count id = 1 ∧ s.done id = 1

/-- A continuation by allowed steps in which the call completes. -/
def Continues (platform : Platform ε) (allowed : Label α ε → Prop) (s : State α ε) (j enqueued : Nat) : Prop :=
  ∃ labels t, (∀ label ∈ labels, allowed label) ∧ run (step platform) s labels = some t ∧ Completed j enqueued t

def Point.polls (point : Point) : Prop := point = .notifyStopping true ∨ point = .poll

/-- The pool is not stopping yet; or the workers have taken, or are committed to
take, every task enqueued before the call, and, if the call has still to see
`m_pendingTasks` at zero, nothing else is counted there. -/
def Completable (s : State α ε) (call : Call) : Prop :=
  s.stopping = false ∨
    (call.enqueued ≤ s.reach ∧ (call.point.polls → s.pendingTasks ≤ s.inflight))

section Worker
variable {platform : Platform ε} {s t : State α ε} {k : Nat}

omit [Inhabited α] [Inhabited ε]

/-- In a stopping pool a worker's step leaves the counts alone, unless it removes the task
it is committed to or counts it off. -/
theorem WorkerMoves.counts (moves : WorkerMoves platform s k t) (stopping : s.stopping = true) :
    (t.dequeued = s.dequeued ∧ t.pendingTasks = s.pendingTasks ∧
      t.workers.countP Worker.committed = s.workers.countP Worker.committed ∧ t.inflight = s.inflight) ∨
    (∃ id, t.dequeued = s.dequeued ++ [id] ∧ t.pendingTasks = s.pendingTasks ∧
      t.workers.countP Worker.committed + 1 = s.workers.countP Worker.committed ∧ t.inflight = s.inflight) ∨
    ∃ id, s.workers[k]? = some (.fetchSub id) ∧ t.dequeued = s.dequeued ∧
      t.pendingTasks = (s.pendingTasks + (2 ^ platform.width - 1)) % 2 ^ platform.width ∧
      t.workers.countP Worker.committed = s.workers.countP Worker.committed ∧ t.inflight + 1 = s.inflight := by
  have keep {before : Worker α ε} (found : s.workers[k]? = some before) (after : Worker α ε)
      (committed : after.committed = before.committed) (taking : after.taking = before.taking) :
      (s.workers.set k after).countP Worker.committed = s.workers.countP Worker.committed ∧
        (s.workers.set k after).countP Worker.taking = s.workers.countP Worker.taking :=
    ⟨count_keep Worker.committed after found committed,count_keep Worker.taking after found taking⟩
  cases moves with
  | walk before after active found walks =>
    refine Or.inl ⟨rfl,rfl,?_⟩
    cases walks with
    | commit running => simp [stopping] at running
    | _ => exact keep found _ rfl rfl
  | lock before found waits free =>
    refine Or.inl ⟨rfl,rfl,?_⟩
    apply keep found _
    · rcases waits with rfl | rfl <;> split <;> rfl
    · rcases waits with rfl | rfl <;> split <;> rfl
  | release before after found releases =>
    exact Or.inl ⟨rfl,rfl,keep found after (by cases releases <;> rfl) (by cases releases <;> rfl)⟩
  | take id rest found front =>
    have committed := count_set Worker.committed (.fetchSub id) found
    have taking := count_keep Worker.taking (.fetchSub id) found rfl
    simp only [Worker.committed,Bool.false_eq_true,if_true,if_false] at committed
    exact Or.inr (Or.inl ⟨id,rfl,rfl,committed,taking⟩)
  | fetchSub id found =>
    have committed := count_keep Worker.committed (.unlock (some id)) found rfl
    have taking := count_set Worker.taking (.unlock (some id)) found
    simp only [Worker.taking,Bool.false_eq_true,if_true,if_false] at taking
    exact Or.inr (Or.inr ⟨id,found,rfl,rfl,committed,taking⟩)
  | execute id found => exact Or.inl ⟨rfl,rfl,keep found (.running id) rfl rfl⟩
  | settle id outcome promise after found => exact Or.inl ⟨rfl,rfl,keep found .markIdle rfl rfl⟩
  | abort id outcome promise after failure found => exact Or.inl ⟨rfl,rfl,keep found .exited rfl rfl⟩

/-- In a stopping pool no worker commits itself to another task. -/
theorem WorkerMoves.reach (moves : WorkerMoves platform s k t) (stopping : s.stopping = true) : t.reach = s.reach := by
  unfold State.reach
  rcases moves.counts stopping with ⟨dequeued,_,committed,_⟩ | ⟨id,dequeued,_,committed,_⟩ | ⟨_,_,dequeued,_,committed,_⟩
  · rw [dequeued,committed]
  · rw [dequeued,List.length_append,List.length_singleton]
    omega
  · rw [dequeued,committed]

theorem WorkerMoves.balance (control : Control platform s) (counted : Counted s) (moves : WorkerMoves platform s k t)
    (stopping : s.stopping = true) : t.pendingTasks + s.inflight = s.pendingTasks + t.inflight := by
  rcases moves.counts stopping with ⟨_,pending,_,inflight⟩ | ⟨_,_,pending,_,inflight⟩ | ⟨id,found,_,pending,_,inflight⟩
  · rw [pending,inflight]
  · rw [pending,inflight]
  · obtain ⟨positive,down⟩ := counted.above control found
    omega

end Worker

theorem CallMoves.dequeued {platform : Platform ε} {s t : State α ε} {i : Nat} {call : Call}
    (moves : CallMoves platform s i call t) : t.dequeued = s.dequeued := by
  cases moves <;> rfl

theorem CallMoves.reach {platform : Platform ε} {s t : State α ε} {i : Nat} {call : Call}
    (moves : CallMoves platform s i call t) : t.reach = s.reach ∧ t.inflight = s.inflight := by
  have workers := moves.frame.1
  exact ⟨by rw [State.reach,moves.dequeued,workers,State.reach],congrArg (List.countP Worker.taking) workers⟩

theorem CallMoves.pending {platform : Platform ε} {s t : State α ε} {i : Nat} {call : Call}
    (control : Control platform s) (counted : Counted s) (found : s.calls[i]? = some call)
    (moves : CallMoves platform s i call t) : s.pendingTasks ≤ t.pendingTasks ∨ call.point = .storePending := by
  cases moves with
  | fetchAdd id adds =>
    apply Or.inl
    change s.pendingTasks ≤ (s.pendingTasks + 1) % 2 ^ platform.width
    rw [counted.below control found adds]
    exact Nat.le_succ _
  | storePending stores => exact Or.inr stores
  | _ => exact Or.inl (Nat.le_refl _)

omit [Inhabited α] [Inhabited ε] in
theorem Point.polls.stage {point : Point} (polls : point.polls) : 1 ≤ point.stage ∧ point.stage < 4 := by
  rcases polls with rfl | rfl <;> simp [Point.stage]

omit [Inhabited α] [Inhabited ε] in
theorem Control.counted_polling {platform : Platform ε} {s : State α ε} (control : Control platform s) {j : Nat}
    {call : Call} (found : s.calls[j]? = some call) (polls : call.point.polls) : Counted s :=
  (control.counted_of_stage found polls.stage.1 (Nat.lt_trans polls.stage.2 (by decide))).1

/-- A call that polls a counter above what the workers will take out of it is not
let go by any call. -/
theorem CallMoves.starves {platform : Platform ε} {s t : State α ε} {i j : Nat} {other call : Call}
    (control : Control platform s) (present : s.calls[i]? = some other) (moves : CallMoves platform s i other t)
    (found : s.calls[j]? = some call) (polls : call.point.polls) (exceeds : s.inflight < s.pendingTasks) :
    ∃ call, t.calls[j]? = some call ∧ call.point.polls ∧ s.inflight < t.pendingTasks := by
  by_cases own : i = j
  · subst own
    obtain rfl : other = call := Option.some.inj (present.symm.trans found)
    obtain ⟨request,began,point⟩ := other
    rcases polls with rfl | rfl
    · cases moves with
      | proceed after proceeds =>
        cases proceeds with
        | await => exact ⟨_,get_self found,Or.inr rfl,exceeds⟩
      | _ => contradiction
    · cases moves with
      | proceed after proceeds =>
        cases proceeds with
        | poll => exact ⟨_,get_self found,Or.inr rfl,exceeds⟩
        | drained zero =>
          rw [zero] at exceeds
          exact absurd exceeds (Nat.not_lt_zero _)
      | _ => contradiction
  · obtain ⟨point,calls⟩ := moves.calls
    refine ⟨call,by rw [calls,List.getElem?_set_ne own]; exact found,polls,?_⟩
    rcases moves.pending control (control.counted_polling found polls) present with grows | stores
    · exact Nat.lt_of_lt_of_le exceeds grows
    · exact absurd (control.single i j other call present found (by simp [stores,Point.stage]) polls.stage.1) own

/-- Out of reach for good: a task enqueued before the call that no worker will
take, or a counter that the call will never see at zero. -/
def Lost (j enqueued : Nat) (s : State α ε) : Prop :=
  s.stopping = true ∧
    (s.reach < enqueued ∨ ∃ call, s.calls[j]? = some call ∧ call.point.polls ∧ s.inflight < s.pendingTasks)

theorem lost_step {platform : Platform ε} {j enqueued : Nat} (s : State α ε) (label : Label α ε) (t : State α ε)
    (lost : Sane platform s ∧ Lost j enqueued s) (taken : step platform s label = some t) :
    Sane platform t ∧ Lost j enqueued t := by
  obtain ⟨sane,stopping,lost⟩ := lost
  refine ⟨sane_step s label t sane taken,?_⟩
  have control := sane.control
  cases step_moves taken with
  | invoke request =>
    refine ⟨stopping,lost.imp_right ?_⟩
    intro given
    obtain ⟨call,found,polls,exceeds⟩ := given
    exact ⟨call,get_grows found,polls,exceeds⟩
  | worker k t moves =>
    obtain ⟨calls,same,_⟩ := moves.frame
    refine ⟨same.trans stopping,?_⟩
    rw [moves.reach stopping,calls]
    apply lost.imp_right
    intro given
    obtain ⟨call,found,polls,exceeds⟩ := given
    have balance := moves.balance control (control.counted_polling found polls) stopping
    exact ⟨call,found,polls,by omega⟩
  | call i other t present moves =>
    obtain ⟨_,_,stays⟩ := moves.frame
    obtain ⟨reach,inflight⟩ := moves.reach
    refine ⟨stays stopping,?_⟩
    rw [reach,inflight]
    apply lost.imp_right
    intro given
    obtain ⟨call,found,polls,exceeds⟩ := given
    exact moves.starves control present found polls exceeds

omit [Inhabited α] [Inhabited ε] in
theorem take_range_eq {n : Nat} {front rest : List Nat} (whole : front ++ rest = List.range n) :
    front = List.range front.length := by
  have taken := congrArg (List.take front.length) whole
  rw [List.take_left,List.take_range] at taken
  have bound := congrArg List.length whole
  rw [List.length_append,List.length_range] at bound
  rwa [Nat.min_eq_left (by omega)] at taken

theorem Ledger.dequeued_count {s : State α ε} (ledger : Ledger s) (id : Nat) :
    s.dequeued.count id = if id < s.dequeued.length then 1 else 0 := by
  have order := ledger.order
  rw [List.append_assoc] at order
  rw [take_range_eq order,count_range,List.length_range]

theorem Lost.incomplete {platform : Platform ε} {j enqueued : Nat} {s : State α ε} (sane : Sane platform s)
    (lost : Lost j enqueued s) : ¬ Completed j enqueued s := by
  intro given
  obtain ⟨⟨call,answer,found,returned⟩,executed⟩ := given
  rcases lost.2 with beyond | ⟨other,present,polls,_⟩
  · have places := sane.ledger.places s.dequeued.length
    have dequeued := sane.ledger.dequeued_count s.dequeued.length
    have done := (executed s.dequeued.length (Nat.lt_of_le_of_lt (Nat.le_add_right _ _) beyond)).2
    rw [if_neg (Nat.lt_irrefl _)] at dequeued
    omega
  · obtain rfl : call = other := Option.some.inj (found.symm.trans present)
    rcases polls with notify | poll
    · simp [returned] at notify
    · simp [returned] at poll

/-- How far a worker is from its end, in a stopping pool. -/
def Worker.remaining : Worker α ε → Nat
  | .exited => 0
  | .test => 1
  | .sleeping | .unlock none | .markIdle => 2
  | .waitStopping | .takeStopping | .settle _ _ => 3
  | .lockQueue | .asleep | .running _ => 4
  | .testPaused | .execute _ => 5
  | .markActive _ => 6
  | .unlock (some _) => 7
  | .fetchSub _ => 8
  | .take => 9

/-- How far a `Stop` is from its return, once it has taken the workers to join. -/
def Point.remaining : Point → Nat
  | .entering => 8
  | .notifyStopping _ => 7
  | .poll => 6
  | .takeWorkers => 5
  | .join unjoined => unjoined.length + 4
  | .clear => 3
  | .fetchAdd _ | .storePending => 2
  | .unlock _ | .storeStopping => 1
  | _ => 0

def State.remaining (s : State α ε) : Nat :=
  (s.workers.map Worker.remaining).sum + (s.calls.map fun call => call.point.remaining).sum + s.threads.length

/-- A stopping pool whose workers take all that the call waits for. -/
def Closing (j enqueued : Nat) (s : State α ε) : Prop :=
  s.stopping = true ∧ enqueued ≤ s.reach ∧
    ∃ call, s.calls[j]? = some call ∧ call.request = .stop true ∧ (call.point.polls → s.pendingTasks ≤ s.inflight)

def Closed (j : Nat) (s : State α ε) : Prop :=
  (∃ call answer, s.calls[j]? = some call ∧ call.point = .returned answer) ∧
    Every (fun _ worker => worker = .exited) s.workers

theorem Leaves.remaining {before after : Point} (leaves : Leaves before after) : after.remaining < before.remaining := by
  cases leaves <;> simp [Point.remaining]

omit [Inhabited α] [Inhabited ε] in
/-- In a stopping pool every step of a worker brings it nearer to its end. -/
theorem WorkerMoves.lowers {platform : Platform ε} {s t : State α ε} {k : Nat} (moves : WorkerMoves platform s k t)
    (stopping : s.stopping = true) : t.remaining < s.remaining := by
  have lowers {u : State α ε} {before after : Worker α ε} (found : s.workers[k]? = some before)
      (lower : after.remaining < before.remaining) (workers : u.workers = s.workers.set k after)
      (calls : u.calls = s.calls) (threads : u.threads = s.threads) : u.remaining < s.remaining := by
    unfold State.remaining
    rw [workers,calls,threads]
    exact Nat.add_lt_add_right (Nat.add_lt_add_right (weight_lower found lower) _) _
  cases moves with
  | walk before after active found walks =>
    refine lowers found ?_ rfl rfl rfl
    cases walks with
    | enter running | commit running => simp [stopping] at running
    | _ => simp [Worker.remaining]
  | lock before found waits free =>
    refine lowers found ?_ rfl rfl rfl
    rcases waits with rfl | rfl <;> split <;> simp [Worker.remaining]
  | release before after found releases =>
    refine lowers found ?_ rfl rfl rfl
    cases releases with
    | sleep running => simp [stopping] at running
    | _ => simp [Worker.remaining]
  | take id rest found front => exact lowers found (by simp [Worker.remaining]) rfl rfl rfl
  | fetchSub id found => exact lowers found (by simp [Worker.remaining]) rfl rfl rfl
  | execute id found => exact lowers found (by simp [Worker.remaining]) rfl rfl rfl
  | settle id outcome promise after found => exact lowers found (by simp [Worker.remaining]) rfl rfl rfl
  | abort id outcome promise after failure found => exact lowers found (by simp [Worker.remaining]) rfl rfl rfl

omit [Inhabited α] [Inhabited ε] in
theorem remaining_call {s t : State α ε} {i : Nat} {call : Call} {after : Point} (found : s.calls[i]? = some call)
    (calls : t.calls = s.calls.set i {call with point := after}) (workers : t.workers = s.workers)
    (lower : after.remaining + t.threads.length < call.point.remaining + s.threads.length) :
    t.remaining < s.remaining := by
  have moved := sum_set (fun call : Call => call.point.remaining) {call with point := after} found
  unfold State.remaining
  rw [calls,workers]
  dsimp only at moved
  omega

theorem Closing.worker {platform : Platform ε} {s t : State α ε} {j k enqueued : Nat} (sane : Sane platform s)
    (closing : Closing j enqueued s) (moves : WorkerMoves platform s k t) :
    Closing j enqueued t ∧ t.remaining < s.remaining := by
  obtain ⟨stopping,within,call,found,asks,quiet⟩ := closing
  obtain ⟨calls,same,_⟩ := moves.frame
  refine ⟨⟨same.trans stopping,moves.reach stopping ▸ within,call,calls ▸ found,asks,fun polls => ?_⟩,
    moves.lowers stopping⟩
  have balance := moves.balance sane.control (sane.control.counted_polling found polls) stopping
  have below := quiet polls
  omega

theorem Closing.own {platform : Platform ε} {s t : State α ε} {j enqueued : Nat} {call : Call} {after : Point}
    (closing : Closing j enqueued s) (found : s.calls[j]? = some call) (moves : CallMoves platform s j call t)
    (calls : t.calls = s.calls.set j {call with point := after})
    (lower : after.remaining + t.threads.length < call.point.remaining + s.threads.length)
    (quiet : after.polls → t.pendingTasks ≤ t.inflight) : Closing j enqueued t ∧ t.remaining < s.remaining := by
  obtain ⟨stopping,within,other,present,asks,_⟩ := closing
  obtain rfl : call = other := Option.some.inj (found.symm.trans present)
  obtain ⟨workers,_,stays⟩ := moves.frame
  refine ⟨⟨stays stopping,moves.reach.1 ▸ within,{call with point := after},?_,asks,quiet⟩,
    remaining_call found calls workers lower⟩
  rw [calls]
  exact get_self found

/-- Where the call does not poll, a holder of the lock or a worker can go on. -/
theorem Closing.help {platform : Platform ε} {s : State α ε} {j enqueued : Nat} (sane : Sane platform s)
    (closing : Closing j enqueued s) (unpolled : ∀ call, s.calls[j]? = some call → ¬ call.point.polls)
    (busy : s.queueMutex = none → ∃ (k : Nat) (worker : Worker α ε), s.workers[k]? = some worker ∧ worker ≠ .exited) :
    ∃ label t, label.internal = true ∧ step platform s label = some t ∧ Closing j enqueued t ∧
      t.remaining < s.remaining := by
  have chooses (free : s.queueMutex = none) :
      ∃ (k : Nat) (worker : Worker α ε), s.workers[k]? = some worker ∧ worker ≠ .exited ∧ True := by
    obtain ⟨k,worker,found,alive⟩ := busy free
    exact ⟨k,worker,found,alive,trivial⟩
  rcases sane.control.locked.next chooses with ⟨i,call,id,found,holds⟩ | ⟨k,worker,found,alive,free,_⟩
  · obtain ⟨t,point,taken,calls,leaves,workers,_,same,_,threads,_,dequeued⟩ := holder_steps platform found holds
    obtain ⟨stopping,within,own,present,asks,_⟩ := closing
    have different : i ≠ j := by
      intro same
      subst same
      obtain rfl : call = own := Option.some.inj (found.symm.trans present)
      have fits := sane.conduct.fits i call found
      unfold Fits at fits
      rcases holds with adds | unlocks
      · simp [adds,asks] at fits
      · simp [unlocks,asks] at fits
    refine ⟨.call i,t,rfl,taken,⟨same.trans stopping,?_,own,?_,asks,fun polls => absurd polls (unpolled own present)⟩,
      remaining_call found calls workers (threads ▸ Nat.add_lt_add_right leaves.remaining _)⟩
    · rw [State.reach,dequeued,workers]
      exact within
    · rw [calls,List.getElem?_set_ne different]
      exact present
  · obtain ⟨label,t,internal,taken,moves⟩ := worker_ready sane.toInv found alive free
    exact ⟨label,t,internal,taken,closing.worker sane moves⟩

omit [Inhabited α] [Inhabited ε] in
/-- A worker committed to the counter waits for nothing. -/
theorem taking_ready {worker : Worker α ε} (takes : worker.taking = true) : worker ≠ .exited ∧ worker.waits = false := by
  cases worker with
  | take | fetchSub => exact ⟨by simp,rfl⟩
  | _ => contradiction

theorem closing_step {platform : Platform ε} {s : State α ε} {j enqueued : Nat} (sane : Sane platform s)
    (closing : Closing j enqueued s) (unclosed : ¬ Closed j s) :
    ∃ label t, label.internal = true ∧ step platform s label = some t ∧ Closing j enqueued t ∧
      t.remaining < s.remaining := by
  obtain ⟨stopping,within,⟨request,began,point⟩,found,rfl,quiet⟩ := id closing
  have fits := sane.conduct.fits j _ found
  have unpolled (silent : ¬ point.polls) (call : Call) (present : s.calls[j]? = some call) : ¬ call.point.polls := by
    obtain rfl := Option.some.inj (found.symm.trans present)
    exact silent
  have own {t : State α ε} (after : Point) (taken : stepCall platform s j ⟨.stop true,began,point⟩ = some t)
      (calls : t.calls = s.calls.set j ⟨.stop true,began,after⟩)
      (lower : after.remaining + t.threads.length < point.remaining + s.threads.length)
      (quiet : after.polls → t.pendingTasks ≤ t.inflight) :
      ∃ label t, label.internal = true ∧ step platform s label = some t ∧ Closing j enqueued t ∧
        t.remaining < s.remaining :=
    ⟨.call j,t,rfl,by simp only [step,found,taken],closing.own found (stepCall_moves taken) calls lower quiet⟩
  have idle {after : Point} (silent : ¬ after.polls) {t : State α ε} : after.polls → t.pendingTasks ≤ t.inflight :=
    fun polls => absurd polls silent
  cases point with
  | entering =>
    exact own (.returned (.stopped false)) (if_pos stopping) rfl (by simp [State.proceed,Point.remaining])
      (idle (by simp [Point.polls]))
  | notifyStopping waitForTasks =>
    obtain rfl : true = waitForTasks := by simpa [Fits] using fits
    exact own .poll rfl rfl (by simp [State.proceed,Point.remaining]) fun _ => quiet (Or.inl rfl)
  | poll =>
    by_cases pending : s.pendingTasks = 0
    · have taken : stepCall platform s j ⟨.stop true,began,.poll⟩ =
          some (s.proceed j ⟨.stop true,began,.poll⟩ .takeWorkers) := by simp [stepCall,pending]
      exact own .takeWorkers taken rfl (by simp [State.proceed,Point.remaining]) (idle (by simp [Point.polls]))
    · -- a worker is about to take a task out of the counter
      have taking : 0 < s.inflight := by
        have below := quiet (Or.inr rfl)
        omega
      obtain ⟨k,worker,present,takes⟩ := count_some taking
      have ready := taking_ready takes
      obtain ⟨label,t,internal,taken,moves⟩ :=
        worker_ready sane.toInv present ready.1 fun waits => by simp [ready.2] at waits
      exact ⟨label,t,internal,taken,closing.worker sane moves⟩
  | takeWorkers =>
    exact own (.join s.threads) rfl rfl (by simp [State.proceed,Point.remaining]; omega) (idle (by simp [Point.polls]))
  | join unjoined =>
    cases unjoined with
    | nil => exact own .clear rfl rfl (by simp [State.proceed,Point.remaining]) (idle (by simp [Point.polls]))
    | cons k rest =>
      have inside : k < s.workers.length := fits.2 k (by simp)
      have present := List.getElem?_eq_getElem inside
      by_cases exited : s.workers[k] = .exited
      · rw [exited] at present
        have taken : stepCall platform s j ⟨.stop true,began,.join (k :: rest)⟩ =
            some (s.proceed j ⟨.stop true,began,.join (k :: rest)⟩ (.join rest)) := by simp only [stepCall,present]
        exact own (.join rest) taken rfl (by simp [State.proceed,Point.remaining]) (idle (by simp [Point.polls]))
      · exact closing.help sane (unpolled (by simp [Point.polls])) fun _ => ⟨k,_,present,exited⟩
  | clear =>
    by_cases free : s.queueMutex = none
    · exact own .storePending (if_pos free) rfl (by simp [State.proceed,Point.remaining]) (idle (by simp [Point.polls]))
    · exact closing.help sane (unpolled (by simp [Point.polls])) fun none => absurd none free
  | storePending =>
    exact own .storeStopping rfl rfl (by simp [State.proceed,Point.remaining]) (idle (by simp [Point.polls]))
  | storeStopping =>
    exact own (.returned (.stopped true)) rfl rfl (by simp [State.proceed,Point.remaining]) (idle (by simp [Point.polls]))
  | returned answer =>
    apply closing.help sane (unpolled (by simp [Point.polls]))
    intro _
    by_contra ended
    push Not at ended
    exact unclosed ⟨⟨_,answer,found,rfl⟩,ended⟩
  | fetchAdd | unlock | notifyOne | notifyResumed | threw => simp [Fits] at fits

theorem Closed.completed {platform : Platform ε} {s : State α ε} {j enqueued : Nat} (sane : Sane platform s)
    (closing : Closing j enqueued s) (closed : Closed j s) : Completed j enqueued s := by
  obtain ⟨returned,ended⟩ := closed
  refine ⟨returned,fun id before => ?_⟩
  have none (holds : Worker α ε → Bool) (idle : holds .exited = false) : s.workers.countP holds = 0 := by
    apply count_none
    intro k worker found
    rw [ended k worker found,idle]
  have reach := closing.2.1
  rw [State.reach,none Worker.committed rfl] at reach
  have dequeued := sane.ledger.dequeued_count id
  rw [if_pos (by omega)] at dequeued
  have places := sane.ledger.places id
  have executed := sane.ledger.executed id
  rw [State.held,none _ rfl] at places
  rw [State.begun,none _ rfl] at executed
  omega

theorem closing_continues {platform : Platform ε} {s : State α ε} {j enqueued : Nat} (sane : Sane platform s)
    (closing : Closing j enqueued s) : Continues platform (fun label => label.internal = true) s j enqueued := by
  have rest (u : State α ε) (known : Sane platform u ∧ Closing j enqueued u) (unclosed : ¬ Closed j u) :
      ∃ label next, label.internal = true ∧ step platform u label = some next ∧
        (Sane platform next ∧ Closing j enqueued next) ∧ next.remaining < u.remaining := by
    obtain ⟨label,next,internal,taken,closing,lower⟩ := closing_step known.1 known.2 unclosed
    exact ⟨label,next,internal,taken,⟨sane_step u label next known.1 taken,closing⟩,lower⟩
  obtain ⟨labels,t,internal,reached,⟨sane,closing⟩,closed⟩ :=
    run_to_goal (fun label : Label α ε => label.internal = true) State.remaining rest s ⟨sane,closing⟩
  exact ⟨labels,t,internal,reached,closed.completed sane closing⟩

omit [Inhabited α] [Inhabited ε] in
/-- In a running pool with the lock free the counter is the length of the queue. -/
theorem Control.pending_free {platform : Platform ε} {s : State α ε} (control : Control platform s)
    (running : s.stopping = false) (free : s.queueMutex = none) : s.pendingTasks = s.taskQueue.length := by
  have counted := (control.counted_running running).1
  have adding := not_adding fun i => control.locked.outside free (.call i)
  have subtracting := not_subtracting fun k => control.locked.outside free (.worker k)
  unfold Counted at counted
  omega

theorem running_continues {platform : Platform ε} {s : State α ε} {j enqueued : Nat} (sane : Sane platform s)
    (running : s.stopping = false) (unpaused : s.paused = false) (staffed : 0 < s.workers.length)
    (found : s.calls[j]? = some ⟨.stop true,enqueued,.entering⟩) :
    Continues platform (fun label => label.internal = true) s j enqueued := by
  obtain ⟨first,t,internal,reached,sane,onward,drained⟩ := drain sane running unpaused staffed
  have present := onward.entering j _ found rfl
  have taken : step platform t (.call j) =
      some (({t with stopping := true} : State α ε).proceed j ⟨.stop true,enqueued,.entering⟩ (.notifyStopping true)) := by
    simp [step,present,stepCall,onward.running]
  have dequeued : t.dequeued.length = t.promises.length := by
    have order := congrArg List.length sane.ledger.order
    rw [(sane.control.counted_running onward.running).2,drained.2.1] at order
    simpa using order
  have pending : t.pendingTasks = 0 := by
    rw [sane.control.pending_free onward.running drained.1,drained.2.1,List.length_nil]
  have closing : Closing j enqueued
      (({t with stopping := true} : State α ε).proceed j ⟨.stop true,enqueued,.entering⟩ (.notifyStopping true)) := by
    refine ⟨rfl,?_,_,get_self present,rfl,fun _ => ?_⟩
    · calc enqueued ≤ t.promises.length := sane.conduct.enqueued j _ present
        _ = t.dequeued.length := dequeued.symm
        _ ≤ t.reach := Nat.le_add_right _ _
    · exact pending ▸ Nat.zero_le _
  obtain ⟨rest,u,others,after,completed⟩ := closing_continues (sane_step t _ _ sane taken) closing
  refine ⟨first ++ .call j :: rest,u,fun label member => ?_,run_trans reached (run_step taken after),completed⟩
  rcases List.mem_append.mp member with early | late
  · exact internal label early
  · exact (List.mem_cons.mp late).elim (fun same => same ▸ rfl) (others label)

omit [Inhabited α] [Inhabited ε] in
/-- A `Stop(true)` in progress that has not stopped the pool has not begun. -/
theorem entering_of_running {platform : Platform ε} {s : State α ε} {j enqueued : Nat} {point : Point}
    (control : Control platform s) (running : s.stopping = false)
    (found : s.calls[j]? = some ⟨.stop true,enqueued,point⟩) (fits : Fits s.workers.length ⟨.stop true,enqueued,point⟩)
    (inProgress : ∀ answer, point ≠ .returned answer) : point = .entering := by
  have before : ¬ 1 ≤ point.stage := by
    intro starts
    have stopping := control.stopping ⟨j,_,found,starts⟩
    simp [running] at stopping
  cases point with
  | entering => rfl
  | returned answer => exact absurd rfl (inProgress answer)
  | fetchAdd | unlock | notifyOne | notifyResumed | threw => simp [Fits] at fits
  | _ => simp [Point.stage] at before

theorem completable_continues {platform : Platform ε} {s : State α ε} {j enqueued : Nat} {point : Point}
    (sane : Sane platform s) (unpaused : s.paused = false) (staffed : 0 < s.workers.length)
    (found : s.calls[j]? = some ⟨.stop true,enqueued,point⟩) (inProgress : ∀ answer, point ≠ .returned answer)
    (completable : Completable s ⟨.stop true,enqueued,point⟩) :
    Continues platform (fun label => label.internal = true) s j enqueued := by
  cases shape : s.stopping with
  | true =>
    rcases completable with running | ⟨within,quiet⟩
    · simp [shape] at running
    · exact closing_continues sane ⟨shape,within,_,found,rfl,quiet⟩
  | false =>
    obtain rfl := entering_of_running sane.control shape found (sane.conduct.fits j _ found) inProgress
    exact running_continues sane shape unpaused staffed found

omit [Inhabited α] [Inhabited ε] in
theorem lost_of_not_completable {s : State α ε} {j : Nat} {call : Call} (found : s.calls[j]? = some call)
    (incompletable : ¬ Completable s call) : Lost j call.enqueued s := by
  unfold Completable at incompletable
  push Not at incompletable
  obtain ⟨stopping,late⟩ := incompletable
  refine ⟨by simpa using stopping,?_⟩
  by_cases within : call.enqueued ≤ s.reach
  · obtain ⟨polls,exceeds⟩ := late within
    exact Or.inr ⟨call,found,polls,exceeds⟩
  · exact Or.inl (Nat.lt_of_not_le within)

theorem Lost.stuck {platform : Platform ε} {s : State α ε} {j enqueued : Nat} (sane : Sane platform s)
    (lost : Lost j enqueued s) (allowed : Label α ε → Prop) : ¬ Continues platform allowed s j enqueued := by
  intro continues
  obtain ⟨more,t,_,after,completed⟩ := continues
  obtain ⟨sane,lost⟩ := run_invariant (fun u => Sane platform u ∧ Lost j enqueued u) lost_step ⟨sane,lost⟩ after
  exact lost.incomplete sane completed

/-- A `Stop(true)` in progress can return with every task enqueued before it
executed once, with or without further calls, exactly in these states. -/
theorem stop_completes_iff {platform : Platform ε} {config : Config} {labels : List (Label α ε)} {s : State α ε}
    {j enqueued : Nat} {point : Point} (staffed : 0 < (config.adjust platform).minThreads)
    (reached : run (step platform) (construct platform config) labels = some s) (unpaused : .invoke .pause ∉ labels)
    (found : s.calls[j]? = some ⟨.stop true,enqueued,point⟩) (inProgress : ∀ answer, point ≠ .returned answer) :
    (Continues platform (fun label => label.internal = true) s j enqueued ↔ Completable s ⟨.stop true,enqueued,point⟩) ∧
    (Continues platform (fun _ => True) s j enqueued ↔ Completable s ⟨.stop true,enqueued,point⟩) := by
  have sane := sane_run reached
  rw [← staffed_run reached] at staffed
  have enough := completable_continues sane (unpaused_run reached unpaused) staffed found inProgress
  have needed (allowed : Label α ε → Prop) (continues : Continues platform allowed s j enqueued) :
      Completable s ⟨.stop true,enqueued,point⟩ := by
    by_contra incompletable
    exact (lost_of_not_completable found incompletable).stuck sane allowed continues
  refine ⟨⟨needed _,enough⟩,needed _,fun completable => ?_⟩
  obtain ⟨more,t,_,after⟩ := enough completable
  exact ⟨more,t,fun _ _ => trivial,after⟩

/-- One worker and one task, and a `Stop(true)` that has not set `m_stopping` yet. -/
theorem stop_completes_iff_entering :
    ∃ s : State Nat Nat, run (step ⟨64,4,fun _ => 0⟩) (construct ⟨64,4,fun _ => 0⟩ ⟨1,1⟩)
        [.invoke .submit,.call 0,.call 0,.call 0,.invoke (.stop true)] = some s ∧
      Continues ⟨64,4,fun _ => 0⟩ (fun label => label.internal = true) s 1 1 := by
  obtain ⟨s,reached,found,running⟩ : ∃ s : State Nat Nat,
      run (step ⟨64,4,fun _ => 0⟩) (construct ⟨64,4,fun _ => 0⟩ ⟨1,1⟩)
        [.invoke .submit,.call 0,.call 0,.call 0,.invoke (.stop true)] = some s ∧
      s.calls[1]? = some ⟨.stop true,1,.entering⟩ ∧ s.stopping = false := ⟨_,rfl,rfl,rfl⟩
  exact ⟨s,reached,(stop_completes_iff (by decide) reached (by simp) found (by simp)).1.mpr (Or.inl running)⟩

/-- Two steps later it polls a counter that stays above zero in every continuation:
the worker, still before its first test of `m_stopping`, will end without a look at
the queue. -/
theorem stop_polls_forever :
    ∃ s : State Nat Nat, run (step ⟨64,4,fun _ => 0⟩) (construct ⟨64,4,fun _ => 0⟩ ⟨1,1⟩)
        [.invoke .submit,.call 0,.call 0,.call 0,.invoke (.stop true),.call 1,.call 1] = some s ∧
      s.calls[1]? = some ⟨.stop true,1,.poll⟩ ∧ s.taskQueue = [0] ∧
      (∀ more t, run (step ⟨64,4,fun _ => 0⟩) s more = some t → 0 < t.pendingTasks) ∧
      ¬ Continues ⟨64,4,fun _ => 0⟩ (fun _ => True) s 1 1 := by
  obtain ⟨s,reached,found,front,stopping,exceeds⟩ : ∃ s : State Nat Nat,
      run (step ⟨64,4,fun _ => 0⟩) (construct ⟨64,4,fun _ => 0⟩ ⟨1,1⟩)
        [.invoke .submit,.call 0,.call 0,.call 0,.invoke (.stop true),.call 1,.call 1] = some s ∧
      s.calls[1]? = some ⟨.stop true,1,.poll⟩ ∧ s.taskQueue = [0] ∧ s.stopping = true ∧ s.inflight < s.pendingTasks :=
    ⟨_,rfl,rfl,rfl,rfl,by decide⟩
  have sane := sane_run reached
  have lost (enqueued : Nat) : Lost 1 enqueued s := ⟨stopping,Or.inr ⟨_,found,Or.inr rfl,exceeds⟩⟩
  refine ⟨s,reached,found,front,fun more t after => ?_,(lost 1).stuck sane _⟩
  -- seen as a call with no task before it, so that only the counter is in its way
  obtain ⟨_,_,beyond | ⟨_,_,_,exceeds⟩⟩ :=
    run_invariant (fun u => Sane ⟨64,4,fun _ => 0⟩ u ∧ Lost 1 0 u) lost_step ⟨sane,lost 0⟩ after
  · exact absurd beyond (Nat.not_lt_zero _)
  · exact Nat.lt_of_le_of_lt (Nat.zero_le _) exceeds

end Ezthread.ThreadPool
