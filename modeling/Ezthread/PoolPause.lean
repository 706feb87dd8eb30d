import Ezthread.PoolSubmissions

/-! Which tasks a pool executes after `Pause` has returned. -/
namespace Ezthread.ThreadPool
open Transition Activation Future

variable {α ε : Type*} [Inhabited α] [Inhabited ε] {platform : Platform ε} {s t : State α ε}

/-- Whether a worker may still pop a task where no test of `m_paused` lets one
pass, nor a test of `m_stopping` once it is set. -/
def Worker.popping (stopping : Bool) : Worker α ε → Bool
  | .lockQueue | .waitStopping | .asleep | .takeStopping => !stopping
  | .take => true
  | _ => false

def State.popping (s : State α ε) (stopping : Bool) : Nat := s.workers.countP (Worker.popping stopping)

/-- A call that is not among the first `n` has pushed a task, and it is executed. -/
def Started (n : Nat) (s : State α ε) : Prop :=
  ∃ (i : Nat) (call : Call) (id : Nat), n ≤ i ∧ s.calls[i]? = some call ∧ call.point.task = some id ∧ id ∈ s.executed

/-- `Pause` comes when no `Resume` is about to take it back and the tasks queued
are enough for the workers that have passed the test of `m_paused`; or when the
pool is stopping or has no workers. -/
def Suspends (s : State α ε) : Prop :=
  s.stopping = true ∨ s.workers = [] ∨
    Every (fun _ call => call.request = .resume → call.point ≠ .entering) s.calls ∧ s.popping false ≤ s.taskQueue.length

/-- No task from the `n`-th on will be popped before a call of `Resume` begins. -/
def Halted (n : Nat) (s : State α ε) : Prop :=
  s.stopping = true ∧ s.dequeued.length + s.popping true ≤ n ∨
  s.workers = [] ∧ s.dequeued.length ≤ n ∨
  (s.paused = true ∧ Every (fun _ call => call.request = .resume → call.point ≠ .entering) s.calls) ∧
    s.dequeued.length + s.popping false ≤ n

omit [Inhabited α] [Inhabited ε] in
theorem popping_set {k : Nat} {before after : Worker α ε} (found : s.workers[k]? = some before)
    (workers : t.workers = s.workers.set k after) (stopping : Bool) :
    t.popping stopping + (if before.popping stopping then 1 else 0) =
      s.popping stopping + (if after.popping stopping then 1 else 0) := by
  have count := count_set (Worker.popping stopping) after found
  rw [State.popping,workers]
  exact count

/-- What a step of a worker does to the queue and to the workers that may pop. -/
inductive Pops (s t : State α ε) (stopping : Bool) : Prop
  | keeps (popping : t.popping stopping = s.popping stopping) (taskQueue : t.taskQueue = s.taskQueue)
      (dequeued : t.dequeued = s.dequeued)
  | passes (shut : ¬ if stopping then s.stopping = true else s.paused = true)
      (popping : t.popping stopping = s.popping stopping + 1) (taskQueue : t.taskQueue = s.taskQueue)
      (dequeued : t.dequeued = s.dequeued)
  | leaves (stops : s.stopping = true) (popping : t.popping stopping + 1 = s.popping stopping)
      (taskQueue : t.taskQueue = s.taskQueue) (dequeued : t.dequeued = s.dequeued)
  | pops (id : Nat) (popping : t.popping stopping + 1 = s.popping stopping) (taskQueue : s.taskQueue = id :: t.taskQueue)
      (dequeued : t.dequeued = s.dequeued ++ [id])

omit [Inhabited α] [Inhabited ε] in
theorem Walks.pops {k : Nat} {before after : Worker α ε} (walks : Walks s before after)
    (found : s.workers[k]? = some before) (workers : t.workers = s.workers.set k after) (taskQueue : t.taskQueue = s.taskQueue)
    (dequeued : t.dequeued = s.dequeued) (stopping : Bool) : Pops s t stopping := by
  have count := popping_set found workers stopping
  cases walks with
  | pass unpaused =>
    cases stopping with
    | false => exact .passes (by simp [unpaused]) (by simpa [Worker.popping] using count) taskQueue dequeued
    | true => exact .keeps (by simpa [Worker.popping] using count) taskQueue dequeued
  | commit running =>
    cases stopping with
    | false => exact .keeps (by simpa [Worker.popping] using count) taskQueue dequeued
    | true => exact .passes (by simp [running]) (by simpa [Worker.popping] using count) taskQueue dequeued
  | giveUp stops | leave stops =>
    cases stopping with
    | false => exact .leaves stops (by simpa [Worker.popping] using count) taskQueue dequeued
    | true => exact .keeps (by simpa [Worker.popping] using count) taskQueue dequeued
  | _ => exact .keeps (by simpa [Worker.popping] using count) taskQueue dequeued

omit [Inhabited α] [Inhabited ε] in
theorem WorkerMoves.pops {k : Nat} (moves : WorkerMoves platform s k t) (stopping : Bool) : Pops s t stopping := by
  have keeps {u : State α ε} {before after : Worker α ε} (found : s.workers[k]? = some before)
      (workers : u.workers = s.workers.set k after) (taskQueue : u.taskQueue = s.taskQueue)
      (dequeued : u.dequeued = s.dequeued) (same : after.popping stopping = before.popping stopping) :
      Pops s u stopping := by
    have count := popping_set found workers stopping
    rw [same] at count
    exact .keeps (Nat.add_right_cancel count) taskQueue dequeued
  cases moves with
  | walk before after active found walks => apply walks.pops found <;> rfl
  | lock before found waits free =>
    refine keeps found rfl rfl rfl ?_
    rcases waits with rfl | rfl <;> split <;> rfl
  | release before after found releases =>
    refine keeps found rfl rfl rfl ?_
    cases releases <;> rfl
  | take id rest found front =>
    have count := popping_set (t := ({s with taskQueue := rest, dequeued := s.dequeued ++ [id]} : State α ε).goto k
      (.fetchSub id)) found rfl stopping
    exact .pops id (by simpa [Worker.popping] using count) front rfl
  | fetchSub id found | execute id found => exact keeps found rfl rfl rfl rfl
  | settle id outcome promise after found | abort id outcome promise after failure found =>
    exact keeps found rfl rfl rfl rfl

omit [Inhabited α] [Inhabited ε] in
/-- Each pop uses up one of the workers that may pop. -/
theorem Pops.uses {stopping : Bool} (pops : Pops s t stopping)
    (shut : if stopping then s.stopping = true else s.paused = true) :
    t.dequeued.length + t.popping stopping ≤ s.dequeued.length + s.popping stopping := by
  cases pops with
  | keeps popping _ dequeued => rw [popping,dequeued]
  | passes opened => exact absurd shut opened
  | leaves _ popping _ dequeued =>
    rw [dequeued]
    omega
  | pops id popping _ dequeued =>
    rw [dequeued,List.length_append,List.length_singleton]
    omega

omit [Inhabited α] [Inhabited ε] in
/-- And while the pool is not stopping every such worker is used up by a pop. -/
theorem Pops.keeps_up {stopping : Bool} (pops : Pops s t stopping) (running : s.stopping = false) :
    t.taskQueue.length + s.popping stopping ≤ s.taskQueue.length + t.popping stopping := by
  cases pops with
  | keeps popping taskQueue => rw [popping,taskQueue]
  | passes _ popping taskQueue =>
    rw [popping,taskQueue]
    omega
  | leaves stops => simp [running] at stops
  | pops id popping taskQueue =>
    rw [taskQueue,List.length_cons]
    omega

omit [Inhabited α] [Inhabited ε] in
theorem WorkerMoves.present {k : Nat} (moves : WorkerMoves platform s k t) : k < s.workers.length := by
  cases moves with
  | walk _ _ _ found | lock _ found | release _ _ found | take _ _ found | fetchSub _ found | execute _ found
  | settle _ _ _ _ found | abort _ _ _ _ _ found => exact get_lt found

theorem CallMoves.stays_paused {i : Nat} {call : Call} (moves : CallMoves platform s i call t) (paused : s.paused = true)
    (quiet : call.request = .resume → call.point ≠ .entering) : t.paused = true := by
  cases moves with
  | pause => rfl
  | resume entering asks => exact absurd entering (quiet asks)
  | _ => exact paused

theorem halted_step {n : Nat} (s : State α ε) (label : Label α ε) (t : State α ε) (halted : Halted n s)
    (other : label ≠ .invoke .resume) (taken : step platform s label = some t) : Halted n t := by
  rcases step_acts taken with ⟨i,call,rfl,found,moves⟩ | ⟨i,call,rfl,found,entering,_,rfl⟩ | ⟨request,rfl,rfl⟩ |
    ⟨_,k,moves⟩
  · obtain ⟨⟨point,calls,entered⟩,dequeued,_⟩ := moves.entered
    have workers := moves.frame.1
    unfold Halted State.popping
    rw [dequeued,workers]
    rcases halted with ⟨stopping,within⟩ | staffless | ⟨⟨paused,quiet⟩,within⟩
    · exact Or.inl ⟨moves.frame.2.2 stopping,within⟩
    · exact Or.inr (Or.inl staffless)
    · refine Or.inr (Or.inr ⟨⟨moves.stays_paused paused (quiet i call found),?_⟩,within⟩)
      rw [calls]
      exact quiet.set fun _ => entered
  · exact halted.imp_right (Or.imp_right fun ⟨⟨paused,quiet⟩,within⟩ => ⟨⟨paused,quiet.set fun _ => by simp⟩,within⟩)
  · refine halted.imp_right (Or.imp_right fun ⟨⟨paused,quiet⟩,within⟩ => ⟨⟨paused,quiet.append fun asks => ?_⟩,within⟩)
    exact absurd (congrArg Label.invoke asks) other
  · obtain ⟨calls,stopping,paused,_,length,_⟩ := moves.frame
    rcases halted with ⟨stops,within⟩ | ⟨none,_⟩ | ⟨⟨pauses,quiet⟩,within⟩
    · exact Or.inl ⟨stopping.trans stops,Nat.le_trans ((moves.pops true).uses stops) within⟩
    · exact absurd moves.present (by simp [none])
    · exact Or.inr (Or.inr ⟨⟨paused.trans pauses,calls ▸ quiet⟩,Nat.le_trans ((moves.pops false).uses pauses) within⟩)

omit [Inhabited α] [Inhabited ε] in
/-- One worker at most is about to pop, and it knows of a task. -/
theorem Control.taking_le (control : Control platform s) : s.popping true ≤ s.taskQueue.length := by
  have one : s.popping true ≤ 1 := control.locked.count_inside fun worker taking => by
    cases worker <;> trivial
  by_cases idle : s.popping true = 0
  · omega
  · obtain ⟨k,worker,found,taking⟩ := count_some (Nat.pos_of_ne_zero idle)
    have queued := control.queued k worker found
    cases worker with
    | take => exact Nat.le_trans one (List.length_pos_iff.mpr queued)
    | _ => contradiction

theorem Ledger.dequeued_queued (ledger : Ledger s) : s.dequeued.length + s.taskQueue.length ≤ s.promises.length := by
  have order := congrArg List.length ledger.order
  rw [List.length_append,List.length_append,List.length_range] at order
  omega

theorem Suspends.halts {enqueued p : Nat} (kept : Kept platform s) (suspends : Suspends s)
    (found : s.calls[p]? = some ⟨.pause,enqueued,.entering⟩) (taken : step platform s (.call p) = some t) :
    Halted t.promises.length t := by
  have room := kept.ledger.dequeued_queued
  simp only [step,found,stepCall,Option.some.injEq] at taken
  subst taken
  rcases suspends with stopping | none | ⟨quiet,enough⟩
  · exact Or.inl ⟨stopping,Nat.le_trans (Nat.add_le_add_left kept.control.taking_le _) room⟩
  · exact Or.inr (Or.inl ⟨none,Nat.le_trans (Nat.le_add_right _ _) room⟩)
  · exact Or.inr (Or.inr ⟨⟨rfl,quiet.set fun asks => by contradiction⟩,Nat.le_trans (Nat.add_le_add_left enough _) room⟩)

omit [Inhabited α] [Inhabited ε] in
theorem Halted.dequeued {n : Nat} (halted : Halted n s) : s.dequeued.length ≤ n := by
  rcases halted with ⟨_,within⟩ | ⟨_,within⟩ | ⟨_,within⟩
  · exact Nat.le_trans (Nat.le_add_right _ _) within
  · exact within
  · exact Nat.le_trans (Nat.le_add_right _ _) within

/-- In a halted pool no call that begins later sees its task started. -/
theorem Halted.none_started (kept : Kept platform s) (halted : Halted s.promises.length s) {labels : List (Label α ε)}
    (unresumed : .invoke .resume ∉ labels) (reached : run (step platform) s labels = some t) :
    ¬ Started s.calls.length t := by
  intro started
  obtain ⟨i,call,id,begun,found,own,executed⟩ := started
  have obeyed : Obeys (step platform) (fun _ label => label ≠ .invoke .resume) s labels := by
    apply obeys_of_labels
    rintro label member _ rfl
    exact unresumed member
  have last := run_invariant_obeying (Halted s.promises.length) _ halted_step halted obeyed reached
  have after := run_invariant (Kept platform) kept_step kept reached
  have earlier : id < s.promises.length :=
    Nat.lt_of_lt_of_le (after.ledger.executed_lt executed) last.dequeued
  have later : s.promises.length ≤ id :=
    Nat.le_trans (run_begun reached found begun) (after.submissions.assigned i call found id own).1
  omega

theorem step_worker {k : Nat} {worker : Worker α ε} (found : s.workers[k]? = some worker)
    (taken : stepWorker platform s k worker = some t) : step platform s (.worker k) = some t := by
  simp only [step,found,taken]

/-- A worker that has popped a task goes on to execute it. -/
theorem popped_executes (platform : Platform ε) {k id : Nat} (found : s.workers[k]? = some (.fetchSub id)) :
    ∃ t, run (step platform) s (List.replicate 4 (.worker k)) = some t ∧ id ∈ t.executed := by
  refine ⟨_,run_step (step_worker found rfl) (run_step (step_worker (get_self found) rfl)
    (run_step (step_worker (get_self (get_self found)) rfl)
    (run_step (step_worker (get_self (get_self (get_self found))) rfl) rfl))),?_⟩
  exact List.mem_append_right _ (List.mem_singleton_self id)

/-- A worker that waits where the lock is free and a task is queued goes on to
execute it. -/
theorem waiting_executes {k id : Nat} {rest : List Nat} {worker : Worker α ε} (found : s.workers[k]? = some worker)
    (waits : worker.waits = true) (free : s.queueMutex = none) (front : s.taskQueue = id :: rest)
    (running : s.stopping = false) :
    ∃ t, run (step platform) s (List.replicate 7 (.worker k)) = some t ∧ id ∈ t.executed := by
  let locked : State α ε := ({s with queueMutex := some (.worker k)} : State α ε).goto k .takeStopping
  let popped : State α ε := ({locked.goto k .take with
    taskQueue := rest
    dequeued := s.dequeued ++ [id]} : State α ε).goto k (.fetchSub id)
  have locks : stepWorker platform s k worker = some locked := by
    cases worker with
    | lockQueue | asleep => simp [stepWorker,free,front,locked]
    | _ => contradiction
  have commits : stepWorker platform locked k .takeStopping = some (locked.goto k .take) := by
    simp [stepWorker,locked,State.goto,running]
  have pops : stepWorker platform (locked.goto k .take) k .take = some popped := by
    simp [stepWorker,popped,locked,State.goto,front]
  have second : (locked.goto k .take).workers[k]? = some .take := get_self (get_self found)
  have holding : popped.workers[k]? = some (.fetchSub id) := get_self second
  obtain ⟨t,reached,executed⟩ := popped_executes platform holding
  exact ⟨t,run_step (step_worker found locks) (run_step (step_worker (get_self found) commits)
    (run_step (step_worker second pops) reached)),executed⟩
/-- A pool whose queue is empty and unlocked takes one more task. -/
theorem submits_next (wide : 0 < platform.width) (free : s.queueMutex = none) (empty : s.taskQueue = []) :
    ∃ t, run (step platform) s
        [.invoke .submitDetached,.call s.calls.length,.call s.calls.length,.call s.calls.length] = some t ∧
      (t.queueMutex = none ∧ t.taskQueue = [s.promises.length] ∧ t.workers = s.workers ∧ t.stopping = s.stopping ∧
        t.paused = s.paused ∧ t.promises.length = s.promises.length + 1) ∧
      ∃ call, t.calls[s.calls.length]? = some call ∧ call.point.task = some s.promises.length := by
  have room : 1 < 2 ^ platform.width := Nat.one_lt_two_pow (by omega)
  simp [run,step,stepCall,push,free,empty,room,State.proceed,Point.task]

/-- More workers may pop than there are tasks. -/
def Surplus (s : State α ε) : Prop := s.stopping = false ∧ s.taskQueue.length < s.popping false

def Cleared (s : State α ε) : Prop := s.queueMutex = none ∧ s.taskQueue = []

theorem surplus_step (sane : Sane platform s) (surplus : Surplus s) (unmet : ¬ Cleared s) :
    ∃ label t, label.internal = true ∧ step platform s label = some t ∧ Surplus t ∧ t.drainRank < s.drainRank := by
  obtain ⟨running,more⟩ := surplus
  have chooses (free : s.queueMutex = none) : ∃ (k : Nat) (worker : Worker α ε), s.workers[k]? = some worker ∧
      worker ≠ .exited ∧ worker.popping false = true ∧ s.taskQueue ≠ [] := by
    obtain ⟨k,worker,found,pops⟩ := count_some (Nat.zero_lt_of_lt more)
    exact ⟨k,worker,found,by rintro rfl; contradiction,pops,fun empty => unmet ⟨free,empty⟩⟩
  rcases sane.control.locked.next chooses with ⟨i,call,id,found,holds⟩ | ⟨k,worker,found,alive,free,ready⟩
  · obtain ⟨t,point,taken,calls,leaves,workers,taskQueue,stopping,_⟩ := holder_steps platform found holds
    refine ⟨.call i,t,rfl,taken,⟨stopping.trans running,?_⟩,leaves.nearer found calls workers taskQueue⟩
    rw [State.popping,workers,taskQueue]
    exact more
  · obtain ⟨label,t,internal,taken,moves⟩ := worker_ready sane.toInv found alive free
    have kept := (moves.pops false).keeps_up running
    refine ⟨label,t,internal,taken,⟨moves.frame.2.1.trans running,by omega⟩,moves.nearer running ?_ ?_⟩
    · intro tests
      obtain rfl := Option.some.inj (found.symm.trans tests)
      rcases ready with inside | ⟨pops,_⟩ <;> contradiction
    · intro empty other present
      obtain rfl := Option.some.inj (found.symm.trans present)
      rcases ready with inside | ⟨_,queued⟩
      · exact (inside_alive inside).2
      · exact absurd empty queued

theorem surplus_clears (sane : Sane platform s) (surplus : Surplus s) :
    ∃ labels t, (∀ label ∈ labels, label.internal = true) ∧ run (step platform) s labels = some t ∧
      (Sane platform t ∧ Surplus t) ∧ Cleared t := by
  refine run_to_goal (fun label : Label α ε => label.internal = true) State.drainRank (fun u known unmet => ?_) s
    ⟨sane,surplus⟩
  obtain ⟨label,next,internal,taken,after,lower⟩ := surplus_step known.1 known.2 unmet
  exact ⟨label,next,internal,taken,⟨sane_step u label next known.1 taken,after⟩,lower⟩

omit [Inhabited α] [Inhabited ε] in
theorem internal_unresumed {labels : List (Label α ε)} (internal : ∀ label ∈ labels, label.internal = true) :
    .invoke .resume ∉ labels := by
  intro member
  have invoked := internal _ member
  contradiction

/-- Once the queue is empty a call can begin whose task is started as soon as some
further steps execute it. -/
theorem starts_later {u : State α ε} {first : List (Label α ε)} (wide : 0 < platform.width) (sane : Sane platform u)
    (before : run (step platform) t first = some u) (unresumed : .invoke .resume ∉ first) (cleared : Cleared u) :
    ∃ v, Sane platform v ∧ (v.queueMutex = none ∧ v.taskQueue = [u.promises.length] ∧ v.workers = u.workers ∧
        v.stopping = u.stopping ∧ v.paused = u.paused ∧ v.promises.length = u.promises.length + 1) ∧
      ∀ more w, (∀ label ∈ more, label.internal = true) → run (step platform) v more = some w →
        u.promises.length ∈ w.executed →
        ∃ labels w, .invoke .resume ∉ labels ∧ run (step platform) t labels = some w ∧ Started t.calls.length w := by
  obtain ⟨v,submits,facts,call,found,own⟩ := submits_next wide cleared.1 cleared.2
  refine ⟨v,run_invariant (Sane platform) sane_step sane submits,facts,fun more w internal reached executed => ?_⟩
  obtain ⟨later,present,follows⟩ := run_follows reached found
  refine ⟨first ++ (_ ++ more),w,?_,run_trans before (run_trans submits reached),
    u.calls.length,later,u.promises.length,run_calls before,present,follows.task _ own,executed⟩
  simp [unresumed,internal_unresumed internal]

theorem surplus_starts (wide : 0 < platform.width) (sane : Sane platform t) (surplus : Surplus t) :
    ∃ labels w, .invoke .resume ∉ labels ∧ run (step platform) t labels = some w ∧ Started t.calls.length w := by
  obtain ⟨first,u,internal,before,⟨sane,surplus⟩,cleared⟩ := surplus_clears sane surplus
  obtain ⟨v,_,⟨free,front,workers,stopping,_⟩,starts⟩ :=
    starts_later wide sane before (internal_unresumed internal) cleared
  obtain ⟨k,worker,present,pops⟩ := count_some (Nat.zero_lt_of_lt surplus.2)
  have waits : worker.waits = true := by
    have outside := sane.control.locked.outside cleared.1 (.worker k)
    rw [inside_worker present] at outside
    cases worker with
    | lockQueue | asleep => rfl
    | _ => contradiction
  obtain ⟨w,reached,executed⟩ := waiting_executes (workers ▸ present) waits free front (stopping.trans surplus.1)
  refine starts _ w (fun label member => ?_) reached executed
  rw [List.eq_of_mem_replicate member]
  rfl

theorem resumed_starts {began r : Nat} (wide : 0 < platform.width) (sane : Sane platform t) (running : t.stopping = false)
    (staffed : 0 < t.workers.length) (present : t.calls[r]? = some ⟨.resume,began,.entering⟩) :
    ∃ labels w, .invoke .resume ∉ labels ∧ run (step platform) t labels = some w ∧ Started t.calls.length w := by
  have taken : step platform t (.call r) =
      some (({t with paused := false} : State α ε).proceed r ⟨.resume,began,.entering⟩ .notifyResumed) := by
    simp only [step,present,stepCall]
  obtain ⟨first,u,internal,before,sane,onward,drained⟩ := drain (sane_step t _ _ sane taken) running rfl staffed
  have resumed : run (step platform) t (.call r :: first) = some u := run_step taken before
  obtain ⟨v,sane,⟨_,_,workers,stopping,paused,promises⟩,starts⟩ :=
    starts_later wide sane resumed (by simp [internal_unresumed internal]) ⟨drained.1,drained.2.1⟩
  obtain ⟨more,w,internal,reached,after,further,drained⟩ := drain sane (stopping.trans onward.running)
    (paused.trans onward.unpaused) (by rw [workers,onward.workers]; exact staffed)
  have accepted : u.promises.length < w.promises.length := by
    rw [further.promises,promises]
    exact Nat.lt_succ_self _
  have executed := (drained.executed after.toInv further.running accepted).1
  exact starts more w internal reached (List.count_pos_iff.mp (Nat.lt_of_lt_of_eq Nat.zero_lt_one executed.symm))

/-- Where it does not suspend the pool, a call that begins later can have its task
executed before `Resume` is called. -/
theorem starts_of_not_suspends {enqueued p : Nat} (wide : 0 < platform.width) (sane : Sane platform s)
    (found : s.calls[p]? = some ⟨.pause,enqueued,.entering⟩) (missed : ¬ Suspends s)
    (taken : step platform s (.call p) = some t) :
    ∃ labels w, .invoke .resume ∉ labels ∧ run (step platform) t labels = some w ∧ Started t.calls.length w := by
  unfold Suspends at missed
  push Not at missed
  obtain ⟨active,staffed,late⟩ := missed
  have running : s.stopping = false := by simpa using active
  have after := sane_step s _ t sane taken
  simp only [step,found,stepCall,Option.some.injEq] at taken
  subst taken
  by_cases quiet : Every (fun _ call => call.request = .resume → call.point ≠ .entering) s.calls
  · exact surplus_starts wide after ⟨running,late quiet⟩
  · unfold Every at quiet
    push Not at quiet
    obtain ⟨r,⟨request,began,point⟩,present,rfl,rfl⟩ := quiet
    have different : p ≠ r := by
      rintro rfl
      cases found.symm.trans present
    exact resumed_starts wide after running (List.length_pos_iff.mpr staffed)
      ((List.getElem?_set_ne different).trans present)

/-- After `Pause` has returned no call that begins later has its task started
before a later call of `Resume` begins, in exactly these states. -/
theorem pause_iff {config : Config} {labels : List (Label α ε)} {enqueued p : Nat} (wide : 0 < platform.width)
    (reached : run (step platform) (construct platform config) labels = some s)
    (found : s.calls[p]? = some ⟨.pause,enqueued,.entering⟩) (taken : step platform s (.call p) = some t) :
    (∀ more u, .invoke .resume ∉ more → run (step platform) t more = some u → ¬ Started t.calls.length u) ↔ Suspends s := by
  have kept := kept_run reached
  constructor
  · intro suspended
    by_contra missed
    obtain ⟨more,u,unresumed,after,started⟩ := starts_of_not_suspends wide kept.toSane found missed taken
    exact suspended more u unresumed after started
  · intro suspends more u unresumed after
    exact (suspends.halts kept found taken).none_started (kept_step s _ t kept taken) unresumed after

/-- The only worker is asleep, and there is a task queued for it. -/
theorem pause_iff_one_task :
    ∃ s t : State Nat Nat, run (step ⟨64,4,fun _ => 0⟩) (construct ⟨64,4,fun _ => 0⟩ ⟨1,1⟩)
        [.worker 0,.worker 0,.worker 0,.worker 0,.invoke .submitDetached,.call 0,.call 0,.call 0,.invoke .pause] = some s ∧
      step ⟨64,4,fun _ => 0⟩ s (.call 1) = some t ∧ s.popping false = 1 ∧
      ∀ more u, .invoke .resume ∉ more → run (step ⟨64,4,fun _ => 0⟩) t more = some u → ¬ Started t.calls.length u := by
  obtain ⟨s,reached,calls,popping,queued⟩ : ∃ s : State Nat Nat,
      run (step ⟨64,4,fun _ => 0⟩) (construct ⟨64,4,fun _ => 0⟩ ⟨1,1⟩)
        [.worker 0,.worker 0,.worker 0,.worker 0,.invoke .submitDetached,.call 0,.call 0,.call 0,.invoke .pause] = some s ∧
      s.calls = [⟨.submitDetached,0,.notifyOne 0⟩,⟨.pause,1,.entering⟩] ∧ s.popping false = 1 ∧ s.taskQueue = [0] :=
    ⟨_,rfl,rfl,rfl,rfl⟩
  have found : s.calls[1]? = some ⟨.pause,1,.entering⟩ := by rw [calls]; rfl
  have taken : step ⟨64,4,fun _ => 0⟩ s (.call 1) =
      some (({s with paused := true} : State Nat Nat).proceed 1 ⟨.pause,1,.entering⟩ (.returned (.nothing none))) := by
    simp only [step,found,stepCall]
  refine ⟨s,_,reached,taken,popping,(pause_iff (by decide) reached found taken).mpr (Or.inr (Or.inr ⟨?_,?_⟩))⟩
  · intro i call present asks
    have member := List.mem_of_getElem? present
    simp only [calls,List.mem_cons,List.not_mem_nil,or_false] at member
    rcases member with rfl | rfl <;> contradiction
  · rw [popping,queued]
    exact Nat.le_refl 1

/-- The only worker is asleep with no task queued when `Pause` returns: it wakes
and executes the task that comes after that. -/
theorem pause_misses_sleeper :
    ∃ s t : State Nat Nat, run (step ⟨64,4,fun _ => 0⟩) (construct ⟨64,4,fun _ => 0⟩ ⟨1,1⟩)
        [.worker 0,.worker 0,.worker 0,.worker 0,.invoke .pause] = some s ∧
      s.calls[0]? = some ⟨.pause,0,.entering⟩ ∧ step ⟨64,4,fun _ => 0⟩ s (.call 0) = some t ∧
      t.calls[0]? = some ⟨.pause,0,.returned (.nothing none)⟩ ∧
      ∃ more u, .invoke .resume ∉ more ∧ run (step ⟨64,4,fun _ => 0⟩) t more = some u ∧ Started t.calls.length u := by
  refine ⟨_,_,rfl,rfl,rfl,rfl,[.invoke .submitDetached,.call 1,.call 1,.call 1,.worker 0,.worker 0,.worker 0,.worker 0,
    .worker 0,.worker 0,.worker 0],_,by simp,rfl,1,⟨.submitDetached,0,.notifyOne 0⟩,0,Nat.le_refl 1,rfl,rfl,?_⟩
  exact List.mem_singleton_self 0

end Ezthread.ThreadPool
