import Ezthread.PoolShutdown
import Mathlib.Data.List.Perm.Subperm

/-! `ThreadPool` over a condition variable that wakes nobody on its own. In
Ezthread.ThreadPool a worker asleep on `m_queueCV` may wake at any time; here it sleeps
until a notification finds it, or until its time is up or it wakes for no reason,
and that is a step of its own. -/
namespace Ezthread.ThreadPool
open Transition Activation Future

variable {α ε : Type*}

/-- `drowsy` is the worker that has found `m_stopping` not set and has not come into
`SleepConditionVariableCS` yet: until then it keeps `m_queueMutex`, and no notification
finds it. `sleepers` are the workers in that call. -/
structure Notified (α ε : Type*) where
  pool : State α ε
  drowsy : Option Nat
  sleepers : List Nat

inductive NotifiedLabel (α ε : Type*)
  | pool (label : Label α ε)
  | sleep (k : Nat)
  | notifyOne (i k : Nat)
  | wake (k : Nat)

def notifiedInit (platform : Platform ε) (config : Config) : Notified α ε := ⟨construct platform config,none,[]⟩

def Call.locks : Call → Bool
  | ⟨.submit,_,.entering⟩ | ⟨.submitDetached,_,.entering⟩ | ⟨_,_,.clear⟩ => true
  | _ => false

/-- The steps that take `m_queueMutex`. -/
def State.locks (s : State α ε) : Label α ε → Bool
  | .worker k => s.workers[k]?.any Worker.waits
  | .call i => s.calls[i]?.any Call.locks
  | _ => false

def Call.notifiesOne (call : Call) : Bool :=
  match call.point with
  | .notifyOne _ => true
  | _ => false

def Call.notifiesAll (call : Call) : Bool :=
  match call.point with
  | .notifyResumed | .notifyStopping _ => true
  | _ => false

def Worker.tests : Worker α ε → Bool
  | .waitStopping => true
  | _ => false

/-- `NotifyOne` wakes nobody only where nobody sleeps. -/
def Notified.permits (s : Notified α ε) (label : Label α ε) : Prop :=
  (s.pool.locks label = true → s.drowsy = none) ∧
    match label with
    | .worker k => k ∉ s.sleepers
    | .call i => s.pool.calls[i]?.any Call.notifiesOne = true → s.sleepers = []
    | _ => True

instance (s : Notified α ε) : (label : Label α ε) → Decidable (s.permits label)
  | .worker _ | .call _ => inferInstanceAs (Decidable (_ ∧ _))
  | .invoke _ | .fail _ | .finish _ _ => inferInstanceAs (Decidable (_ ∧ True))

def Notified.after (s : Notified α ε) (label : Label α ε) (pool : State α ε) : Notified α ε :=
  match label with
  | .worker k =>
      {s with
        pool := pool
        drowsy := if s.pool.workers[k]?.any Worker.tests = true ∧ s.pool.stopping = false then some k else s.drowsy}
  | .call i =>
      {s with
        pool := pool
        sleepers := if s.pool.calls[i]?.any Call.notifiesAll = true then [] else s.sleepers}
  | _ => {s with pool := pool}

def notifiedStep [Inhabited α] [Inhabited ε] (platform : Platform ε) (s : Notified α ε) :
    NotifiedLabel α ε → Option (Notified α ε)
  | .pool label => if s.permits label then (step platform s.pool label).map (s.after label) else none
  -- on the queue of the condition variable, and the lock given up
  | .sleep k => if s.drowsy = some k then some {s with drowsy := none, sleepers := s.sleepers ++ [k]} else none
  | .notifyOne i k =>
      if k ∈ s.sleepers ∧ s.pool.calls[i]?.any Call.notifiesOne = true then
        (step platform s.pool (.call i)).map fun pool => {s with pool := pool, sleepers := s.sleepers.erase k}
      else none
  -- its 100 ms are over, or it wakes for no reason
  | .wake k => if k ∈ s.sleepers then some {s with sleepers := s.sleepers.erase k} else none

def NotifiedLabel.base : NotifiedLabel α ε → Option (Label α ε)
  | .pool label => some label
  | .notifyOne i _ => some (.call i)
  | _ => none

variable [Inhabited α] [Inhabited ε] {platform : Platform ε} {s t : Notified α ε}

/-- All a step can do. -/
inductive NotifiedMoves (platform : Platform ε) (s : Notified α ε) : NotifiedLabel α ε → Notified α ε → Prop
  | pool (label pool) (permitted : s.permits label) (stepped : step platform s.pool label = some pool) :
      NotifiedMoves platform s (.pool label) (s.after label pool)
  | sleep (k) (drowsy : s.drowsy = some k) :
      NotifiedMoves platform s (.sleep k) {s with drowsy := none, sleepers := s.sleepers ++ [k]}
  | notifyOne (i k call id) (sleeps : k ∈ s.sleepers) (found : s.pool.calls[i]? = some call)
      (notifies : call.point = .notifyOne id) :
      NotifiedMoves platform s (.notifyOne i k)
        {s with pool := s.pool.proceed i call (.returned (call.request.enqueued id)), sleepers := s.sleepers.erase k}
  | wake (k) (sleeps : k ∈ s.sleepers) : NotifiedMoves platform s (.wake k) {s with sleepers := s.sleepers.erase k}

omit [Inhabited α] [Inhabited ε] in
theorem notifiesOne_iff {call : Call} : call.notifiesOne = true ↔ ∃ id, call.point = .notifyOne id := by
  obtain ⟨request,enqueued,point⟩ := call
  cases point <;> simp [Call.notifiesOne]

theorem notified_moves {label : NotifiedLabel α ε} (taken : notifiedStep platform s label = some t) :
    NotifiedMoves platform s label t := by
  cases label with
  | pool label =>
    simp only [notifiedStep] at taken
    split at taken
    next permitted =>
      obtain ⟨pool,stepped,rfl⟩ := Option.map_eq_some_iff.mp taken
      exact .pool label pool permitted stepped
    next => contradiction
  | sleep k =>
    simp only [notifiedStep] at taken
    split at taken
    next drowsy =>
      cases taken
      exact .sleep k drowsy
    next => contradiction
  | notifyOne i k =>
    simp only [notifiedStep] at taken
    split at taken
    next given =>
      obtain ⟨sleeps,notifies⟩ := given
      obtain ⟨call,found,own⟩ := (Option.any_eq_true _ _).mp notifies
      obtain ⟨id,point⟩ := notifiesOne_iff.mp own
      simp only [step,found,stepCall,point,Option.map_some] at taken
      cases taken
      exact .notifyOne i k call id sleeps found point
    next => contradiction
  | wake k =>
    simp only [notifiedStep] at taken
    split at taken
    next sleeps =>
      cases taken
      exact .wake k sleeps
    next => contradiction

omit [Inhabited α] [Inhabited ε] in
theorem after_pool (s : Notified α ε) (label : Label α ε) (pool : State α ε) : (s.after label pool).pool = pool := by
  cases label <;> rfl

/-- What the workers and the calls do is a run of the pool. -/
theorem notified_base {labels : List (NotifiedLabel α ε)} (reached : run (notifiedStep platform) s labels = some t) :
    run (step platform) s.pool (labels.filterMap NotifiedLabel.base) = some t.pool := by
  induction labels generalizing s with
  | nil =>
    cases reached
    rfl
  | cons label rest ih =>
    obtain ⟨next,taken,remaining⟩ := run_cons_some reached
    have later := ih remaining
    cases notified_moves taken with
    | pool label pool permitted stepped =>
      rw [after_pool] at later
      exact run_step stepped later
    | sleep k => exact later
    | notifyOne i k call id sleeps found notifies =>
      exact run_step (by simp only [step,found,stepCall,notifies]) later
    | wake k => exact later

/-- Up to its look at the queue, and past it where there is a task to take. -/
def Worker.coming : Worker α ε → Nat
  | .lockQueue | .asleep | .takeStopping | .take => 1
  | _ => 0

/-- A `Submit` that has enqueued its task and not notified yet. -/
def Call.notifying (call : Call) : Bool :=
  match call.point with
  | .fetchAdd _ | .unlock _ | .notifyOne _ => true
  | _ => false

def Notified.resting (s : Notified α ε) : List Nat := s.sleepers ++ s.drowsy.toList

/-- Where a worker sleeps unnotified, each task of the queue has a notification still to
come or a worker that comes for it. -/
structure Wakeful (s : Notified α ε) : Prop where
  drowsy : s.drowsy ≠ none → s.pool.taskQueue = [] ∧ s.pool.queueMutex = none
  asleep : ∀ k ∈ s.resting, s.pool.workers[k]? = some .asleep
  nodup : s.resting.Nodup
  noted : s.pool.stopping = false → s.sleepers = [] ∨
    s.pool.taskQueue.length + s.sleepers.length ≤
      s.pool.calls.countP Call.notifying + (s.pool.workers.map Worker.coming).sum

omit [Inhabited α] [Inhabited ε] in
theorem resting_sum (weight : Worker α ε → Nat) {indices : List Nat} {workers : List (Worker α ε)}
    (ended : weight .exited = 0) (nodup : indices.Nodup) (asleep : ∀ k ∈ indices, workers[k]? = some .asleep) :
    indices.length * weight .asleep ≤ (workers.map weight).sum := by
  induction indices generalizing workers with
  | nil => simp
  | cons k rest ih =>
    obtain ⟨new,others⟩ := List.nodup_cons.mp nodup
    have own := asleep k List.mem_cons_self
    have left : rest.length * weight .asleep ≤ ((workers.set k .exited).map weight).sum := ih others fun j member => by
      rw [List.getElem?_set_ne (by rintro rfl; exact new member)]
      exact asleep j (List.mem_cons_of_mem k member)
    have sum := sum_set weight .exited own
    rw [List.length_cons,Nat.succ_mul]
    omega

omit [Inhabited α] [Inhabited ε] in
theorem noted_empty (nodup : s.resting.Nodup) (asleep : ∀ k ∈ s.resting, s.pool.workers[k]? = some .asleep)
    (empty : s.pool.taskQueue = []) :
    s.pool.taskQueue.length + s.sleepers.length ≤
      s.pool.calls.countP Call.notifying + (s.pool.workers.map Worker.coming).sum := by
  have enough := resting_sum Worker.coming rfl nodup asleep
  simp only [Notified.resting,List.length_append,Worker.coming,Nat.mul_one] at enough
  rw [empty,List.length_nil]
  omega

omit [Inhabited α] [Inhabited ε] in
/-- A worker makes a task shorter of comers only where it takes it or finds none. -/
theorem WorkerMoves.coming {s t : State α ε} {k : Nat} (moves : WorkerMoves platform s k t) (running : s.stopping = false)
    (some : t.taskQueue ≠ []) :
    t.taskQueue.length + (s.workers.map Worker.coming).sum ≤ s.taskQueue.length + (t.workers.map Worker.coming).sum := by
  have keeps {u : State α ε} {before after : Worker α ε} (found : s.workers[k]? = .some before)
      (workers : u.workers = s.workers.set k after) (same : u.taskQueue = s.taskQueue)
      (kept : before.coming ≤ after.coming) :
      u.taskQueue.length + (s.workers.map Worker.coming).sum ≤ s.taskQueue.length + (u.workers.map Worker.coming).sum := by
    have sum := sum_set Worker.coming after found
    rw [workers,same]
    omega
  cases moves with
  | walk before after active found walks =>
    refine keeps found rfl rfl ?_
    cases walks with
    | leave stopping => simp [running] at stopping
    | _ => simp [Worker.coming]
  | lock before found waits =>
    have queued : s.taskQueue ≠ [] := some
    refine keeps found rfl rfl ?_
    rw [if_neg queued]
    rcases waits with rfl | rfl <;> simp [Worker.coming]
  | release before after found releases => exact keeps found rfl rfl (by cases releases <;> simp [Worker.coming])
  | take id rest found front =>
    have sum := sum_set Worker.coming (.fetchSub id) found
    simp only [Worker.coming] at sum
    simp only [State.goto,front,List.length_cons]
    omega
  | fetchSub id found => exact keeps found rfl rfl (by simp [Worker.coming])
  | execute id found => exact keeps found rfl rfl (by simp [Worker.coming])
  | settle id outcome promise after found => exact keeps found rfl rfl (by simp [Worker.coming])
  | abort id outcome promise after failure found => exact keeps found rfl rfl (by simp [Worker.coming])

theorem CallMoves.notifying {s t : State α ε} {i : Nat} {call : Call} (moves : CallMoves platform s i call t)
    (found : s.calls[i]? = some call) (silent : call.notifiesOne = false) :
    t.taskQueue.length + s.calls.countP Call.notifying ≤ s.taskQueue.length + t.calls.countP Call.notifying := by
  have keeps {u : State α ε} {point : Point} (calls : u.calls = s.calls.set i {call with point := point})
      (same : u.taskQueue.length ≤ s.taskQueue.length)
      (kept : call.notifying = true → Call.notifying {call with point := point} = true) :
      u.taskQueue.length + s.calls.countP Call.notifying ≤ s.taskQueue.length + u.calls.countP Call.notifying := by
    have count := count_set Call.notifying {call with point := point} found
    rw [calls]
    cases shape : call.notifying with
    | true => simp only [shape,kept shape,if_true] at count; omega
    | false => simp only [shape,Bool.false_eq_true,if_false] at count; omega
  obtain ⟨request,enqueued,point⟩ := call
  cases moves with
  | proceed after proceeds =>
    refine keeps rfl (Nat.le_refl _) fun notifying => ?_
    cases proceeds <;> contradiction
  | push promise entering =>
    cases entering
    have count := count_set Call.notifying ⟨request,enqueued,.fetchAdd s.promises.length⟩ found
    simp only [Call.notifying,if_true,Bool.false_eq_true,if_false] at count
    simp only [State.proceed,List.length_append,List.length_singleton]
    omega
  | fetchAdd id adds =>
    cases adds
    exact keeps rfl (Nat.le_refl _) fun _ => rfl
  | unlock id unlocks =>
    cases unlocks
    exact keeps rfl (Nat.le_refl _) fun _ => rfl
  | clear clears =>
    cases clears
    exact keeps rfl (Nat.zero_le _) fun notifying => by contradiction
  | pause entering | resume entering | exchange _ entering =>
    cases entering
    exact keeps rfl (Nat.le_refl _) fun notifying => by contradiction
  | takeWorkers takes =>
    cases takes
    exact keeps rfl (Nat.le_refl _) fun notifying => by contradiction
  | storePending stores | storeStopping stores =>
    cases stores
    exact keeps rfl (Nat.le_refl _) fun notifying => by contradiction

omit [Inhabited α] [Inhabited ε] in
theorem WorkerMoves.others {s t : State α ε} {k j : Nat} (moves : WorkerMoves platform s k t) (other : j ≠ k) :
    t.workers[j]? = s.workers[j]? := by
  cases moves <;> exact List.getElem?_set_ne (Ne.symm other)

omit [Inhabited α] [Inhabited ε] in
theorem Wakeful.keeps {pool : State α ε} (wakeful : Wakeful s) (workers : pool.workers = s.pool.workers)
    (taskQueue : pool.taskQueue = s.pool.taskQueue) (queueMutex : pool.queueMutex = s.pool.queueMutex)
    (stopping : pool.stopping = s.pool.stopping)
    (calls : pool.calls.countP Call.notifying = s.pool.calls.countP Call.notifying) : Wakeful {s with pool := pool} where
  drowsy := by
    rw [taskQueue,queueMutex]
    exact wakeful.drowsy
  asleep := by
    rw [workers]
    exact wakeful.asleep
  nodup := wakeful.nodup
  noted := by
    rw [stopping,taskQueue,calls,workers]
    exact wakeful.noted

omit [Inhabited α] [Inhabited ε] in
/-- A worker that does not rest moves, and takes no lock from one that is drowsy. -/
theorem Wakeful.worker {pool : State α ε} {k : Nat} (wakeful : Wakeful s) (moves : WorkerMoves platform s.pool k pool)
    (awake : k ∉ s.resting)
    (free : s.drowsy ≠ none → ∀ worker, s.pool.workers[k]? = some worker → worker.waits = false) :
    Wakeful {s with pool := pool} := by
  have asleep : ∀ j ∈ s.resting, pool.workers[j]? = some .asleep := by
    intro j member
    rw [moves.others (by rintro rfl; exact awake member)]
    exact wakeful.asleep j member
  refine ⟨fun drowsy => ?_,asleep,wakeful.nodup,fun running => ?_⟩
  · obtain ⟨empty,unlocked⟩ := wakeful.drowsy drowsy
    cases moves with
    | lock before found waits =>
      have quiet := free drowsy before found
      rcases waits with rfl | rfl <;> contradiction
    | release => exact ⟨empty,rfl⟩
    | take id rest found front => simp [front] at empty
    | _ => exact ⟨empty,unlocked⟩
  · obtain ⟨calls,stopping,_⟩ := moves.frame
    have before : s.pool.stopping = false := stopping.symm.trans running
    by_cases empty : pool.taskQueue = []
    · exact Or.inr (noted_empty (s := {s with pool := pool}) wakeful.nodup asleep empty)
    · refine (wakeful.noted before).imp_right fun enough => ?_
      have coming := moves.coming before empty
      change pool.taskQueue.length + s.sleepers.length ≤
        pool.calls.countP Call.notifying + (pool.workers.map Worker.coming).sum
      rw [calls]
      omega

omit [Inhabited α] [Inhabited ε] in
theorem Wakeful.undrowsy {k : Nat} (wakeful : Wakeful s) (control : Control platform s.pool)
    (found : s.pool.workers[k]? = some .waitStopping) : s.drowsy = none := by
  have inside : s.pool.inside (.worker k) = true := inside_worker found
  by_contra drowsy
  have locked := (control.locked (.worker k)).mp inside
  simp [(wakeful.drowsy drowsy).2] at locked

omit [Inhabited α] [Inhabited ε] in
/-- The test of `m_stopping` on the way to sleep. -/
theorem Wakeful.test {k : Nat} (wakeful : Wakeful s) (control : Control platform s.pool)
    (found : s.pool.workers[k]? = some .waitStopping) :
    Wakeful {s with pool := ({s.pool with queueMutex := none} : State α ε).goto k .asleep, drowsy := some k} := by
  have alone := wakeful.undrowsy control found
  have resting : s.resting = s.sleepers := by simp [Notified.resting,alone]
  have fresh : k ∉ s.sleepers := by
    intro member
    have asleep := wakeful.asleep k (resting ▸ member)
    simp [found] at asleep
  have empty : s.pool.taskQueue = [] := control.queued k _ found
  have asleep : ∀ j ∈ s.sleepers ++ [k], (s.pool.workers.set k .asleep)[j]? = some .asleep := by
    intro j member
    rcases List.mem_append.mp member with old | new
    · rw [List.getElem?_set_ne (by rintro rfl; exact fresh old)]
      exact wakeful.asleep j (resting ▸ old)
    · rw [List.mem_singleton.mp new]
      exact get_self found
  have nodup : (s.sleepers ++ [k]).Nodup := by
    have before := wakeful.nodup
    rw [resting] at before
    exact List.nodup_append.mpr ⟨before,List.nodup_singleton k,fun j old m new => by
      rintro rfl
      exact fresh (List.mem_singleton.mp new ▸ old)⟩
  exact ⟨fun _ => ⟨empty,rfl⟩,asleep,nodup,fun _ => Or.inr (noted_empty nodup asleep empty)⟩

theorem Wakeful.call {pool : State α ε} {i : Nat} {call : Call} (wakeful : Wakeful s)
    (found : s.pool.calls[i]? = some call) (moves : CallMoves platform s.pool i call pool)
    (free : call.locks = true → s.drowsy = none) (silent : call.notifiesOne = true → s.sleepers = []) :
    Wakeful {s with pool := pool} := by
  obtain ⟨workers,_,stops⟩ := moves.frame
  have asleep : ∀ j ∈ s.resting, pool.workers[j]? = some .asleep := by
    rw [workers]
    exact wakeful.asleep
  refine ⟨fun drowsy => ?_,asleep,wakeful.nodup,fun running => ?_⟩
  · obtain ⟨empty,unlocked⟩ := wakeful.drowsy drowsy
    cases moves with
    | push promise entering enqueues =>
      obtain ⟨request,enqueued,point⟩ := call
      cases entering
      exact absurd (free (by cases enqueues <;> rfl)) drowsy
    | clear => exact ⟨rfl,unlocked⟩
    | unlock => exact ⟨empty,rfl⟩
    | _ => exact ⟨empty,unlocked⟩
  · have before : s.pool.stopping = false := by
      cases stopping : s.pool.stopping with
      | false => rfl
      | true => exact (stops stopping).symm.trans running
    cases notifies : call.notifiesOne with
    | true => exact Or.inl (silent notifies)
    | false =>
      refine (wakeful.noted before).imp_right fun enough => ?_
      have notifying := moves.notifying found notifies
      change pool.taskQueue.length + s.sleepers.length ≤
        pool.calls.countP Call.notifying + (pool.workers.map Worker.coming).sum
      rw [workers]
      omega

omit [Inhabited α] [Inhabited ε] in
theorem Wakeful.rouse (wakeful : Wakeful s) : Wakeful {s with sleepers := []} where
  drowsy := wakeful.drowsy
  asleep k member := wakeful.asleep k (List.mem_append_right _ member)
  nodup := (List.nodup_append.mp wakeful.nodup).2.1
  noted _ := Or.inl rfl

omit [Inhabited α] [Inhabited ε] in
theorem Wakeful.erase {k : Nat} (wakeful : Wakeful s) (sleeps : k ∈ s.sleepers) :
    Wakeful {s with sleepers := s.sleepers.erase k} where
  drowsy := wakeful.drowsy
  asleep j member := by
    apply wakeful.asleep j
    rcases List.mem_append.mp member with old | drowsy
    · exact List.mem_append_left _ (List.mem_of_mem_erase old)
    · exact List.mem_append_right _ drowsy
  nodup := wakeful.nodup.sublist (List.erase_sublist.append_right _)
  noted running := by
    refine (wakeful.noted running).elim (fun none => absurd sleeps (by simp [none])) fun enough => Or.inr ?_
    have fewer := List.length_erase_of_mem sleeps
    change s.pool.taskQueue.length + (s.sleepers.erase k).length ≤
      s.pool.calls.countP Call.notifying + (s.pool.workers.map Worker.coming).sum
    omega

omit [Inhabited α] [Inhabited ε] in
/-- `NotifyOne` that finds a sleeper: one that comes in place of one to be notified. -/
theorem Wakeful.notifyOne {i k id : Nat} {call : Call} (wakeful : Wakeful s) (sleeps : k ∈ s.sleepers)
    (found : s.pool.calls[i]? = some call) (notifies : call.point = .notifyOne id) :
    Wakeful {s with pool := s.pool.proceed i call (.returned (call.request.enqueued id)), sleepers := s.sleepers.erase k} where
  drowsy := wakeful.drowsy
  asleep := (wakeful.erase sleeps).asleep
  nodup := (wakeful.erase sleeps).nodup
  noted running := by
    refine (wakeful.noted running).elim (fun none => absurd sleeps (by simp [none])) fun enough => Or.inr ?_
    have fewer := List.length_erase_of_mem sleeps
    have some := List.length_pos_of_mem sleeps
    have count := count_set Call.notifying {call with point := .returned (call.request.enqueued id)} found
    simp only [Call.notifying,notifies,if_true,Bool.false_eq_true,if_false] at count
    change s.pool.taskQueue.length + (s.sleepers.erase k).length ≤
      (s.pool.calls.set i {call with point := .returned (call.request.enqueued id)}).countP Call.notifying +
        (s.pool.workers.map Worker.coming).sum
    omega

theorem Wakeful.pool {label : Label α ε} {pool : State α ε} (wakeful : Wakeful s) (control : Control platform s.pool)
    (permitted : s.permits label) (stepped : step platform s.pool label = some pool) : Wakeful (s.after label pool) := by
  obtain ⟨free,awake⟩ := permitted
  cases label with
  | invoke request =>
    cases stepped
    refine wakeful.keeps rfl rfl rfl rfl ?_
    rw [List.countP_append]
    rfl
  | call i =>
    simp only [step] at stepped
    split at stepped
    next call found =>
      have kept := wakeful.call found (stepCall_moves stepped) (fun locks => free (by simp [State.locks,found,locks]))
        (fun notifies => awake (by simp [found,notifies]))
      simp only [Notified.after]
      split
      next => exact kept.rouse
      next => exact kept
    next => contradiction
  | fail i =>
    have keeps {call : Call} (found : s.pool.calls[i]? = some call) (entering : call.point = .entering) :
        Wakeful {s with pool := s.pool.proceed i call .threw} :=
      wakeful.keeps rfl rfl rfl rfl (count_keep Call.notifying _ found (by simp [Call.notifying,entering]))
    simp only [step] at stepped
    split at stepped
    next enqueued found =>
      cases stepped
      exact keeps found rfl
    next enqueued found =>
      cases stepped
      exact keeps found rfl
    next => contradiction
  | worker k =>
    simp only [step] at stepped
    split at stepped
    next worker found =>
      by_cases tests : worker.tests = true ∧ s.pool.stopping = false
      · obtain ⟨tests,running⟩ := tests
        obtain rfl : worker = .waitStopping := by cases worker <;> first | rfl | contradiction
        have drowses : s.after (.worker k) pool = {s with pool := pool, drowsy := some k} := by
          simp only [Notified.after,found,Option.any_some,Worker.tests,running,true_and,if_true]
        rw [drowses]
        simp only [stepWorker] at stepped
        rw [if_neg (by simp [running])] at stepped
        cases stepped
        exact wakeful.test control found
      · have kept : s.after (.worker k) pool = {s with pool := pool} := by
          simp only [Notified.after,found,Option.any_some,if_neg tests]
        rw [kept]
        have quiet : s.drowsy ≠ none → worker.waits = false := by
          intro drowsy
          by_contra waits
          exact drowsy (free (by simpa [State.locks,found] using waits))
        refine wakeful.worker (stepWorker_moves found stepped) (fun member => ?_) fun drowsy other present => ?_
        · rcases List.mem_append.mp member with sleeps | drowsy
          · exact awake sleeps
          · have asleep := wakeful.asleep k member
            obtain rfl : worker = .asleep := Option.some.inj (found.symm.trans asleep)
            exact absurd (quiet (by rintro none; simp [none] at drowsy)) (by simp [Worker.waits])
        · obtain rfl : worker = other := Option.some.inj (found.symm.trans present)
          exact quiet drowsy
    next => contradiction
  | finish k outcome =>
    simp only [step] at stepped
    split at stepped
    next id found =>
      cases stepped
      have moves : WorkerMoves platform s.pool k (s.pool.goto k (.settle id outcome)) :=
        .walk _ _ s.pool.workerActive found (.finish id outcome)
      refine wakeful.worker moves (fun member => ?_) ?_
      · have asleep := wakeful.asleep k member
        simp [found] at asleep
      · intro _ worker present
        obtain rfl : .running id = worker := Option.some.inj (found.symm.trans present)
        rfl
    next => contradiction

theorem wakeful_step {label : NotifiedLabel α ε} (wakeful : Wakeful s) (control : Control platform s.pool)
    (taken : notifiedStep platform s label = some t) : Wakeful t := by
  cases notified_moves taken with
  | pool label pool permitted stepped => exact wakeful.pool control permitted stepped
  | sleep k drowsy =>
    have resting : Notified.resting {s with drowsy := none, sleepers := s.sleepers ++ [k]} = s.resting := by
      simp [Notified.resting,drowsy]
    have asleep := wakeful.asleep
    have nodup := wakeful.nodup
    rw [← resting] at asleep nodup
    exact ⟨fun absent => absurd rfl absent,asleep,nodup,
      fun _ => Or.inr (noted_empty nodup asleep (wakeful.drowsy (by simp [drowsy])).1)⟩
  | notifyOne i k call id sleeps found notifies => exact wakeful.notifyOne sleeps found notifies
  | wake k sleeps => exact wakeful.erase sleeps

structure Alert (platform : Platform ε) (s : Notified α ε) : Prop extends Wakeful s where
  sane : Sane platform s.pool

theorem alert_step (s : Notified α ε) (label : NotifiedLabel α ε) (t : Notified α ε) (alert : Alert platform s)
    (taken : notifiedStep platform s label = some t) : Alert platform t := by
  refine ⟨wakeful_step alert.toWakeful alert.sane.control taken,?_⟩
  cases notified_moves taken with
  | pool label pool permitted stepped =>
    rw [after_pool]
    exact sane_step s.pool label pool alert.sane stepped
  | sleep | wake => exact alert.sane
  | notifyOne i k call id sleeps found notifies =>
    exact sane_step s.pool (.call i) _ alert.sane (by simp only [step,found,stepCall,notifies])

theorem alert_run {config : Config} {labels : List (NotifiedLabel α ε)}
    (reached : run (notifiedStep platform) (notifiedInit platform config) labels = some s) : Alert platform s :=
  run_invariant (Alert platform) alert_step
    ⟨⟨fun drowsy => absurd rfl drowsy,by simp [Notified.resting,notifiedInit],by simp [Notified.resting,notifiedInit],
      fun _ => Or.inl rfl⟩,sane_init platform config⟩ reached

def Request.calm : Request → Bool
  | .pause | .stop _ => false
  | _ => true

/-- Nobody pauses or stops the pool. -/
def Calm (s : State α ε) : Prop := ∀ request ∈ s.requests, request.calm = true

omit [Inhabited α] [Inhabited ε] in
theorem Calm.running {s : State α ε} (calm : Calm s) (conduct : Conduct s) : s.stopping = false := by
  cases stopping : s.stopping with
  | false => rfl
  | true =>
    obtain ⟨waitForTasks,member⟩ := conduct.stopped stopping
    exact absurd (calm _ member) (by simp [Request.calm])

omit [Inhabited α] [Inhabited ε] in
theorem Calm.unpaused {s : State α ε} (calm : Calm s) (conduct : Conduct s) : s.paused = false := by
  cases paused : s.paused with
  | false => rfl
  | true => exact absurd (calm _ (conduct.paused paused)) (by simp [Request.calm])

/-- How far a worker is from its sleep on an empty queue. -/
def Worker.toSleep : Worker α ε → Nat
  | .exited => 0
  | .take => 1
  | .takeStopping | .waitStopping => 2
  | .lockQueue | .asleep => 3
  | .testPaused => 4
  | .test => 5
  | .sleeping | .unlock none | .markIdle => 6
  | .settle _ _ => 7
  | .running _ => 8
  | .execute _ => 9
  | .markActive _ => 10
  | .unlock (some _) => 11
  | .fetchSub _ => 12

/-- How far a call is from its return, the workers it may wake and the task it may bring
counted in. -/
def Call.toReturn (workers : Nat) (call : Call) : Nat :=
  match call.point with
  | .entering =>
      match call.request with
      | .submit | .submitDetached => 19
      | .resume => 2 + 3 * workers
      | _ => 1
  | .fetchAdd _ => 6
  | .unlock _ => 5
  | .notifyOne _ => 4
  | .notifyResumed => 1 + 3 * workers
  | _ => 0

def State.errands (s : State α ε) : Nat :=
  12 * s.taskQueue.length + (s.workers.map Worker.toSleep).sum + (s.calls.map (Call.toReturn s.workers.length)).sum

def Notified.rank (s : Notified α ε) : Nat := s.pool.errands - (3 * s.sleepers.length + 2 * s.drowsy.toList.length)

omit [Inhabited α] [Inhabited ε] in
theorem Wakeful.paid (wakeful : Wakeful s) : 3 * s.sleepers.length + 3 * s.drowsy.toList.length ≤ s.pool.errands := by
  have enough := resting_sum Worker.toSleep rfl wakeful.nodup wakeful.asleep
  simp only [Notified.resting,List.length_append,Worker.toSleep] at enough
  unfold State.errands
  omega

omit [Inhabited α] [Inhabited ε] in
theorem Wakeful.few (wakeful : Wakeful s) : s.sleepers.length ≤ s.pool.workers.length := by
  have known : s.resting ⊆ List.range s.pool.workers.length :=
    fun k member => List.mem_range.mpr (get_lt (wakeful.asleep k member))
  have inside := (List.subperm_of_subset wakeful.nodup known).length_le
  rw [List.length_range,Notified.resting,List.length_append] at inside
  omega

omit [Inhabited α] [Inhabited ε] in
/-- Every step of a worker brings a calm pool nearer to its sleep, the one to its sleep
apart. -/
theorem WorkerMoves.errands {s t : State α ε} {k : Nat} (moves : WorkerMoves platform s k t) (running : s.stopping = false)
    (unpaused : s.paused = false) :
    t.errands < s.errands ∨ s.workers[k]? = some .waitStopping ∧ t.errands = s.errands + 1 := by
  have lowers {u : State α ε} {before after : Worker α ε} (found : s.workers[k]? = some before)
      (workers : u.workers = s.workers.set k after) (calls : u.calls = s.calls)
      (lower : 12 * u.taskQueue.length + after.toSleep < 12 * s.taskQueue.length + before.toSleep) :
      u.errands < s.errands := by
    have sum := sum_set Worker.toSleep after found
    unfold State.errands
    rw [workers,calls,List.length_set]
    omega
  have nearer {u : State α ε} {before after : Worker α ε} (found : s.workers[k]? = some before)
      (workers : u.workers = s.workers.set k after) (calls : u.calls = s.calls) (same : u.taskQueue = s.taskQueue)
      (lower : after.toSleep < before.toSleep) : u.errands < s.errands :=
    lowers found workers calls (by rw [same]; omega)
  cases moves with
  | walk before after active found walks =>
    refine Or.inl (nearer found rfl rfl rfl ?_)
    cases walks with
    | exit stopping | giveUp stopping | leave stopping => simp [running] at stopping
    | pause paused => simp [unpaused] at paused
    | _ => simp [Worker.toSleep]
  | lock before found waits =>
    refine Or.inl (nearer found rfl rfl rfl ?_)
    rcases waits with rfl | rfl <;> split <;> simp [Worker.toSleep]
  | release before after found releases =>
    cases releases with
    | sleep =>
      have sum := sum_set Worker.toSleep .asleep found
      refine Or.inr ⟨found,?_⟩
      simp only [State.errands,State.goto,List.length_set]
      simp only [Worker.toSleep] at sum
      omega
    | idle => exact Or.inl (nearer found rfl rfl rfl (by simp [Worker.toSleep]))
    | task id => exact Or.inl (nearer found rfl rfl rfl (by simp [Worker.toSleep]))
  | take id rest found front =>
    exact Or.inl (lowers found rfl rfl (by simp only [State.goto,front,List.length_cons,Worker.toSleep]; omega))
  | fetchSub id found => exact Or.inl (nearer found rfl rfl rfl (by simp [Worker.toSleep]))
  | execute id found => exact Or.inl (nearer found rfl rfl rfl (by simp [Worker.toSleep]))
  | settle id outcome promise after found => exact Or.inl (nearer found rfl rfl rfl (by simp [Worker.toSleep]))
  | abort id outcome promise after failure found => exact Or.inl (nearer found rfl rfl rfl (by simp [Worker.toSleep]))

omit [Inhabited α] [Inhabited ε] in
theorem Calm.request {s : State α ε} {i : Nat} {call : Call} (calm : Calm s) (found : s.calls[i]? = some call) :
    call.request.calm = true :=
  calm _ (List.mem_map_of_mem (List.mem_of_getElem? found))

/-- Every step of a call brings it nearer to its return; `NotifyAll` by as much as it may
give each worker to do. -/
theorem CallMoves.errands {s t : State α ε} {i : Nat} {call : Call} (moves : CallMoves platform s i call t)
    (found : s.calls[i]? = some call) (calm : call.request.calm = true) (fits : Fits s.workers.length call) :
    t.errands < s.errands ∧ (call.notifiesAll = true → t.errands + 3 * s.workers.length < s.errands) := by
  have lowers {u : State α ε} {point : Point} (calls : u.calls = s.calls.set i {call with point := point})
      (workers : u.workers = s.workers)
      (lower : 12 * u.taskQueue.length + Call.toReturn s.workers.length {call with point := point} <
        12 * s.taskQueue.length + call.toReturn s.workers.length)
      (silent : call.notifiesAll = false) :
      u.errands < s.errands ∧ (call.notifiesAll = true → u.errands + 3 * s.workers.length < s.errands) := by
    have sum := sum_set (Call.toReturn s.workers.length) {call with point := point} found
    refine ⟨?_,fun notifies => by simp [silent] at notifies⟩
    unfold State.errands
    rw [calls,workers]
    omega
  obtain ⟨request,enqueued,point⟩ := call
  cases moves with
  | proceed after proceeds =>
    cases proceeds with
    | count asks =>
      cases asks
      exact lowers rfl rfl (by simp [State.proceed,Call.toReturn]) rfl
    | lose waitForTasks asks =>
      cases asks
      contradiction
    | fail asks => exact lowers rfl rfl (by rcases asks with rfl | rfl <;> simp [State.proceed,Call.toReturn]) rfl
    | returnFuture | returnNothing => exact lowers rfl rfl (by simp [State.proceed,Call.toReturn]) rfl
    | notifyResumed =>
      have sum := sum_set (Call.toReturn s.workers.length) ⟨request,enqueued,.returned (.nothing none)⟩ found
      simp only [Call.toReturn] at sum
      refine ⟨?_,fun _ => ?_⟩ <;>
      · simp only [State.errands,State.proceed]
        omega
    | await | skip | poll =>
      cases fits
      contradiction
    | drained =>
      cases fits
      contradiction
    | join | noneLeft =>
      obtain ⟨⟨waitForTasks,rfl⟩,_⟩ := fits
      contradiction
  | push promise entering enqueues =>
    cases entering
    refine lowers rfl rfl ?_ rfl
    cases enqueues <;> simp [State.proceed,Call.toReturn] <;> omega
  | fetchAdd id adds =>
    cases adds
    exact lowers rfl rfl (by simp [State.proceed,Call.toReturn]) rfl
  | unlock id unlocks =>
    cases unlocks
    exact lowers rfl rfl (by simp [State.proceed,Call.toReturn]) rfl
  | resume entering asks =>
    cases entering
    cases asks
    exact lowers rfl rfl (by simp [State.proceed,Call.toReturn]) rfl
  | pause entering asks | exchange _ entering asks =>
    cases asks
    contradiction
  | takeWorkers stops | clear stops | storePending stops | storeStopping stops =>
    cases stops
    obtain ⟨waitForTasks,rfl⟩ := fits
    contradiction

def NotifiedLabel.continues : NotifiedLabel α ε → Bool
  | .pool label => label.internal
  | .wake _ => false
  | _ => true

omit [Inhabited α] [Inhabited ε] in
theorem tests_iff {s : State α ε} {k : Nat} : s.workers[k]?.any Worker.tests = true ↔ s.workers[k]? = some .waitStopping := by
  cases found : s.workers[k]? with
  | none => simp
  | some worker => cases worker <;> simp [Worker.tests]

/-- Where nobody pauses or stops the pool, every step that wakes no sleeper on its own
comes nearer to where there is none left. -/
theorem rank_step {label : NotifiedLabel α ε} (alert : Alert platform s) (calm : Calm s.pool)
    (continues : label.continues = true) (taken : notifiedStep platform s label = some t) : t.rank < s.rank := by
  have before := alert.paid
  have after := (alert_step s label t alert taken).paid
  have running := calm.running alert.sane.conduct
  have unpaused := calm.unpaused alert.sane.conduct
  have few := alert.few
  have pooled {pool : State α ε} (less : pool.errands < s.pool.errands)
      (paid : 3 * s.sleepers.length + 3 * s.drowsy.toList.length ≤ pool.errands) :
      Notified.rank {s with pool := pool} < s.rank := by
    change pool.errands - (3 * s.sleepers.length + 2 * s.drowsy.toList.length) <
      s.pool.errands - (3 * s.sleepers.length + 2 * s.drowsy.toList.length)
    omega
  cases notified_moves taken with
  | pool label pool permitted stepped =>
    cases label with
    | invoke request => contradiction
    | call i =>
      simp only [step] at stepped
      split at stepped
      next call found =>
        obtain ⟨less,wakes⟩ :=
          (stepCall_moves stepped).errands found (calm.request found) (alert.sane.conduct.fits i call found)
        simp only [Notified.after,found,Option.any_some] at after ⊢
        split at after
        next notifies =>
          rw [if_pos notifies]
          have further := wakes notifies
          simp only [Notified.rank,List.length_nil]
          simp only [List.length_nil] at after
          omega
        next silent =>
          rw [if_neg silent]
          exact pooled less after
      next => contradiction
    | fail i =>
      have lower {call : Call} (found : s.pool.calls[i]? = some call)
          (asks : call.request = .submit ∨ call.request = .submitDetached) (entering : call.point = .entering) :
          (s.pool.proceed i call .threw).errands < s.pool.errands := by
        have moves : CallMoves platform s.pool i call (s.pool.proceed i call .threw) := .proceed .threw (entering ▸ .fail asks)
        exact (moves.errands found (calm.request found) (alert.sane.conduct.fits i call found)).1
      simp only [step] at stepped
      split at stepped
      next enqueued found =>
        cases stepped
        exact pooled (lower found (Or.inl rfl) rfl) after
      next enqueued found =>
        cases stepped
        exact pooled (lower found (Or.inr rfl) rfl) after
      next => contradiction
    | worker k =>
      simp only [step] at stepped
      split at stepped
      next worker found =>
        have moved := (stepWorker_moves found stepped).errands running unpaused
        by_cases tests : s.pool.workers[k]? = some .waitStopping
        · have alone := alert.undrowsy alert.sane.control tests
          have drowses : s.after (.worker k) pool = {s with pool := pool, drowsy := some k} := by
            simp only [Notified.after,tests,Option.any_some,Worker.tests,running,true_and,if_true]
          rw [drowses] at after ⊢
          simp only [Notified.rank,alone,Option.toList_some,Option.toList_none,List.length_singleton,List.length_nil] at after ⊢
          omega
        · have kept : s.after (.worker k) pool = {s with pool := pool} := by
            simp only [Notified.after]
            rw [if_neg fun given => tests (tests_iff.mp given.1)]
          rw [kept] at after ⊢
          exact pooled (moved.resolve_right fun given => tests given.1) after
      next => contradiction
    | finish k outcome =>
      simp only [step] at stepped
      split at stepped
      next id found =>
        cases stepped
        have moves : WorkerMoves platform s.pool k (s.pool.goto k (.settle id outcome)) :=
          .walk _ _ s.pool.workerActive found (.finish id outcome)
        refine pooled ((moves.errands running unpaused).resolve_right fun given => ?_) after
        simp [found] at given
      next => contradiction
  | sleep k drowsy =>
    simp only [Notified.rank,drowsy,Option.toList_some,Option.toList_none,List.length_append,List.length_singleton,
      List.length_nil] at before ⊢
    omega
  | notifyOne i k call id sleeps found notifies =>
    have sum := sum_set (Call.toReturn s.pool.workers.length) {call with point := .returned (call.request.enqueued id)} found
    have fewer := List.length_erase_of_mem sleeps
    have some := List.length_pos_of_mem sleeps
    simp only [Call.toReturn,notifies] at sum
    simp only [Notified.rank,State.errands,State.proceed] at after before ⊢
    omega
  | wake k => contradiction

/-- Every task is executed, every call has returned or thrown, and every worker sleeps. -/
structure AtRest (s : Notified α ε) : Prop where
  taskQueue : s.pool.taskQueue = []
  executed : ∀ id < s.pool.promises.length, s.pool.executed.count id = 1 ∧ s.pool.done id = 1
  returned : ∀ call ∈ s.pool.calls, call.point = .threw ∨ ∃ answer, call.point = .returned answer
  asleep : ∀ k < s.pool.workers.length, k ∈ s.sleepers

theorem worker_goes {k : Nat} {worker : Worker α ε} (inv : Inv platform s.pool) (alone : s.drowsy = none)
    (found : s.pool.workers[k]? = some worker) (alive : worker ≠ .exited) (awake : k ∉ s.sleepers)
    (free : worker.waits = true → s.pool.queueMutex = none) :
    ∃ label pool, label.internal = true ∧ (∀ i, label ≠ .call i) ∧ s.permits label ∧
      step platform s.pool label = some pool ∧ WorkerMoves platform s.pool k pool := by
  by_cases executing : ∃ id, worker = .running id
  · obtain ⟨id,rfl⟩ := executing
    exact ⟨.finish k (.ok default),_,rfl,by simp,⟨fun _ => alone,trivial⟩,by simp only [step,found],
      .walk _ _ s.pool.workerActive found (.finish id (.ok default))⟩
  · obtain ⟨t,taken⟩ := stepWorker_enabled inv found alive (fun id same => executing ⟨id,same⟩) free
    exact ⟨.worker k,t,rfl,by simp,⟨fun _ => alone,awake⟩,by simp only [step,found,taken],stepWorker_moves found taken⟩

theorem call_goes {i : Nat} {call : Call} {pool : State α ε} (alone : s.drowsy = none)
    (found : s.pool.calls[i]? = some call) (taken : stepCall platform s.pool i call = some pool) :
    ∃ label t, label.continues = true ∧ notifiedStep platform s label = some t := by
  have stepped : step platform s.pool (.call i) = some pool := by simp only [step,found,taken]
  cases notifies : call.notifiesOne with
  | false =>
    have permitted : s.permits (.call i) := ⟨fun _ => alone,by simp [found,notifies]⟩
    exact ⟨.pool (.call i),_,rfl,by rw [notifiedStep,if_pos permitted,stepped]; rfl⟩
  | true =>
    cases sleepers : s.sleepers with
    | nil =>
      have permitted : s.permits (.call i) := ⟨fun _ => alone,fun _ => sleepers⟩
      exact ⟨.pool (.call i),_,rfl,by rw [notifiedStep,if_pos permitted,stepped]; rfl⟩
    | cons k rest =>
      have given : k ∈ s.sleepers ∧ s.pool.calls[i]?.any Call.notifiesOne = true := by simp [sleepers,found,notifies]
      exact ⟨.notifyOne i k,_,rfl,by rw [notifiedStep,if_pos given,stepped]; rfl⟩

/-- Where no step is left, nothing is left to do. -/
theorem stuck_rests (alert : Alert platform s) (calm : Calm s.pool) (wide : 0 < platform.width)
    (staffed : 0 < s.pool.workers.length)
    (stuck : ∀ label, label.continues = true → notifiedStep platform s label = none) : AtRest s := by
  have inv := alert.sane.toInv
  have running := calm.running alert.sane.conduct
  have alone : s.drowsy = none := by
    cases drowsy : s.drowsy with
    | none => rfl
    | some k => exact absurd (stuck (.sleep k) rfl) (by rw [notifiedStep,if_pos drowsy]; simp)
  have unmoved {i : Nat} {call : Call} (found : s.pool.calls[i]? = some call) : stepCall platform s.pool i call = none := by
    cases taken : stepCall platform s.pool i call with
    | none => rfl
    | some pool =>
      obtain ⟨label,t,continues,goes⟩ := call_goes alone found taken
      simp [stuck label continues] at goes
  have rests {k : Nat} {worker : Worker α ε} (found : s.pool.workers[k]? = some worker)
      (free : worker.waits = true → s.pool.queueMutex = none) : k ∈ s.sleepers := by
    by_contra awake
    have alive : worker ≠ .exited := by
      intro ended
      have stopping := alert.sane.conduct.exited k worker found ended
      simp [running] at stopping
    obtain ⟨label,pool,internal,_,permitted,stepped,_⟩ := worker_goes inv alone found alive awake free
    have none := stuck (.pool label) internal
    rw [notifiedStep,if_pos permitted,stepped] at none
    contradiction
  have unlocked : s.pool.queueMutex = none := by
    cases mutex : s.pool.queueMutex with
    | none => rfl
    | some actor =>
      cases actor with
      | worker k =>
        obtain ⟨worker,found,inside⟩ := inv.control.locked.holder_worker mutex
        have sleeps := rests found fun waits => by simp [(inside_alive inside).2] at waits
        have asleep := alert.asleep k (List.mem_append_left _ sleeps)
        obtain rfl : worker = .asleep := Option.some.inj (found.symm.trans asleep)
        contradiction
      | call i =>
        obtain ⟨⟨request,enqueued,point⟩,found,id,holds⟩ := inv.control.locked.holder_call mutex
        have none := unmoved found
        rcases holds with rfl | rfl <;> simp [stepCall] at none
  have asleep : ∀ k < s.pool.workers.length, k ∈ s.sleepers :=
    fun k inside => rests (List.getElem?_eq_getElem inside) fun _ => unlocked
  have each : ∀ worker ∈ s.pool.workers, worker = .asleep := by
    intro worker member
    obtain ⟨k,found⟩ := List.mem_iff_getElem?.mp member
    have sleeps := alert.asleep k (List.mem_append_left _ (asleep k (get_lt found)))
    exact Option.some.inj (found.symm.trans sleeps)
  have empty : s.pool.taskQueue = [] := by
    rcases alert.noted running with none | enough
    · exact absurd (asleep 0 staffed) (by simp [none])
    · have silent : s.pool.calls.countP Call.notifying = 0 := by
        apply count_none
        intro i call found
        obtain ⟨request,enqueued,point⟩ := call
        have none := unmoved found
        cases point with
        | fetchAdd | unlock | notifyOne => simp [stepCall] at none
        | _ => rfl
      have all : List.range s.pool.workers.length ⊆ s.sleepers := fun k member => asleep k (List.mem_range.mp member)
      have many := (List.subperm_of_subset List.nodup_range all).length_le
      have few : (s.pool.workers.map Worker.coming).sum = s.pool.workers.length := by
        rw [List.eq_replicate_iff.mpr ⟨rfl,each⟩]
        simp [Worker.coming]
      rw [List.length_range] at many
      exact List.length_eq_zero_iff.mp (by omega)
  have idle (id : Nat) : s.pool.held id = 0 := by
    apply count_none
    intro k worker found
    obtain rfl := each worker (List.mem_of_getElem? found)
    rfl
  refine ⟨empty,fun id accepted => Drained.executed inv ⟨unlocked,empty,idle⟩ running accepted,fun call member => ?_,asleep⟩
  obtain ⟨i,found⟩ := List.mem_iff_getElem?.mp member
  have none := unmoved found
  have quiet := calm.request found
  have fits := alert.sane.conduct.fits i call found
  obtain ⟨request,enqueued,point⟩ := call
  cases point with
  | threw => exact Or.inl rfl
  | returned answer => exact Or.inr ⟨answer,rfl⟩
  | entering =>
    have room : s.pool.taskQueue.length + 1 < 2 ^ platform.width := by
      rw [empty]
      exact Nat.one_lt_two_pow (Nat.pos_iff_ne_zero.mp wide)
    cases request with
    | submit | submitDetached => simp [stepCall,push,unlocked,room] at none
    | resume | getPendingTaskCount => simp [stepCall] at none
    | pause | stop => contradiction
  | fetchAdd | unlock | notifyOne | notifyResumed => simp [stepCall] at none
  | notifyStopping | poll =>
    cases fits
    contradiction
  | takeWorkers | clear | storePending | storeStopping =>
    obtain ⟨waitForTasks,rfl⟩ := fits
    contradiction
  | join =>
    obtain ⟨⟨waitForTasks,rfl⟩,_⟩ := fits
    contradiction

theorem calm_step {label : NotifiedLabel α ε} (calm : Calm s.pool) (continues : label.continues = true)
    (taken : notifiedStep platform s label = some t) : Calm t.pool := by
  have kept (label : Label α ε) {pool : State α ε} (internal : label.internal = true)
      (stepped : step platform s.pool label = some pool) : Calm pool := by
    have silent : label.request = none := by cases label <;> trivial
    unfold Calm
    rw [step_requests stepped,silent,Option.toList_none,List.append_nil]
    exact calm
  cases notified_moves taken with
  | pool label pool permitted stepped =>
    rw [after_pool]
    exact kept label continues stepped
  | sleep | wake => exact calm
  | notifyOne i k call id sleeps found notifies =>
    exact kept (.call i) rfl (by simp only [step,found,stepCall,notifies])

theorem calm_run {config : Config} {labels : List (NotifiedLabel α ε)}
    (reached : run (notifiedStep platform) (notifiedInit platform config) labels = some s)
    (unpaused : .pool (.invoke .pause) ∉ labels) (unstopped : ∀ waitForTasks, .pool (.invoke (.stop waitForTasks)) ∉ labels) :
    Calm s.pool := by
  intro request asked
  have member := requested (notified_base reached) asked
  obtain ⟨label,present,shape⟩ := List.mem_filterMap.mp member
  cases label with
  | pool label =>
    cases shape
    cases request with
    | pause => exact absurd present unpaused
    | stop waitForTasks => exact absurd present (unstopped waitForTasks)
    | _ => rfl
  | _ => simp [NotifiedLabel.base] at shape

/-- In a pool that nobody pauses or stops the notifications suffice: whatever goes on
without one sleeper waking on its own comes to an end, and then every task is executed. -/
theorem notifications_suffice {config : Config} {labels : List (NotifiedLabel α ε)} (wide : 0 < platform.width)
    (staffed : 0 < (config.adjust platform).minThreads)
    (reached : run (notifiedStep platform) (notifiedInit platform config) labels = some s)
    (unpaused : .pool (.invoke .pause) ∉ labels) (unstopped : ∀ waitForTasks, .pool (.invoke (.stop waitForTasks)) ∉ labels) :
    ∃ bound, ∀ more t, (∀ label ∈ more, label.continues = true) → run (notifiedStep platform) s more = some t →
      more.length ≤ bound ∧
      ((∀ label, label.continues = true → notifiedStep platform t label = none) → AtRest t) := by
  refine ⟨s.rank,fun more t continues further => ?_⟩
  have alert := alert_run reached
  have calm := calm_run reached unpaused unstopped
  have obeys : Obeys (notifiedStep platform) (fun _ label => label.continues = true) s more :=
    obeys_of_labels (fun label member _ => continues label member) s
  have kept (u : Notified α ε) (label : NotifiedLabel α ε) (next : Notified α ε) (known : Alert platform u ∧ Calm u.pool)
      (own : label.continues = true) (taken : notifiedStep platform u label = some next) : Alert platform next ∧ Calm next.pool :=
    ⟨alert_step u label next known.1 taken,calm_step known.2 own taken⟩
  constructor
  · have paid := run_bound (fun u => Alert platform u ∧ Calm u.pool) (fun _ label => label.continues = true)
      (fun _ => 1) (fun _ => 0) Notified.rank kept
      (fun u label next known own taken => by have lower := rank_step known.1 known.2 own taken; omega)
      ⟨alert,calm⟩ obeys further
    simp only [List.map_const',List.sum_replicate_nat,Nat.mul_one,Nat.mul_zero] at paid
    omega
  · intro stuck
    obtain ⟨alert,calm⟩ :=
      run_invariant_obeying (fun u => Alert platform u ∧ Calm u.pool) _ kept ⟨alert,calm⟩ obeys further
    have workers := staffed_run (notified_base (run_trans reached further))
    exact stuck_rests alert calm wide (workers ▸ staffed) stuck

def notifiedPlatform : Platform Nat := ⟨64,4,fun _ => 0⟩

/-- The one worker is asleep when a task comes. -/
theorem notifications_suffice_asleep :
    ∃ s : Notified Nat Nat, run (notifiedStep notifiedPlatform) (notifiedInit notifiedPlatform ⟨1,0⟩)
        (List.replicate 4 (.pool (.worker 0)) ++ [.sleep 0,.pool (.invoke .submit),.pool (.call 0)]) = some s ∧
      s.sleepers = [0] ∧ s.pool.taskQueue = [0] ∧
      ∃ bound, ∀ more t, (∀ label ∈ more, label.continues = true) →
        run (notifiedStep notifiedPlatform) s more = some t → more.length ≤ bound ∧
        ((∀ label, label.continues = true → notifiedStep notifiedPlatform t label = none) → AtRest t) := by
  obtain ⟨s,reached,sleepers,front⟩ : ∃ s : Notified Nat Nat,
      run (notifiedStep notifiedPlatform) (notifiedInit notifiedPlatform ⟨1,0⟩)
        (List.replicate 4 (.pool (.worker 0)) ++ [.sleep 0,.pool (.invoke .submit),.pool (.call 0)]) = some s ∧
      s.sleepers = [0] ∧ s.pool.taskQueue = [0] := ⟨_,rfl,rfl,rfl⟩
  exact ⟨s,reached,sleepers,front,notifications_suffice (by decide) (by decide) reached (by simp) (by simp)⟩

def NotifiedLabel.wakes : NotifiedLabel α ε → Bool
  | .wake _ => true
  | _ => false

end Ezthread.ThreadPool
