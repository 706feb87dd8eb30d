import Ezthread.PoolFutures
import Ezthread.PoolPending

/-! How far `m_pendingTasks` is from the length of the queue once a `Stop` has
stored 0 in it. -/
namespace Ezthread.ThreadPool
open Transition Activation Future

variable {α ε : Type*} [Inhabited α] [Inhabited ε] {platform : Platform ε} {s t : State α ε}

def Call.storing (call : Call) : Bool :=
  match call.point with
  | .storePending => true
  | _ => false

/-- The queue is longer by `n` than `m_pendingTasks` will say when whoever is inside
the lock has left it and a `Stop` that has emptied the queue has stored 0. -/
structure Short (n : Nat) (s : State α ε) : Prop where
  storing : 0 < s.calls.countP Call.storing → s.calls.countP Call.adding + n = s.taskQueue.length
  counted : s.calls.countP Call.storing = 0 →
    s.pendingTasks + s.calls.countP Call.adding + n = s.taskQueue.length + s.workers.countP Worker.subtracting

/-- No task is counted between a `Stop`'s emptying of the queue and its store of 0. -/
def Lasts (s : State α ε) : Label α ε → Prop
  | .call i => ∀ call ∈ s.calls[i]?, call.adding = true → s.calls.countP Call.storing = 0
  | _ => True

/-- No one is inside a block of `m_queueMutex`, and no `Stop` in progress. -/
structure Settled (s : State α ε) : Prop where
  free : s.queueMutex = none
  unstopping : ∀ call ∈ s.calls, call.request.stops = true → call.point.ended = true

instance (s : State α ε) : (label : Label α ε) → Decidable (Lasts s label)
  | .call i => inferInstanceAs (Decidable (∀ call ∈ s.calls[i]?, _))
  | .invoke _ | .fail _ | .worker _ | .finish _ _ => inferInstanceAs (Decidable True)

omit [Inhabited α] [Inhabited ε] in
theorem storing_iff {call : Call} : call.storing = true ↔ call.point = .storePending := by
  obtain ⟨request,enqueued,point⟩ := call
  cases point <;> simp [Call.storing]

omit [Inhabited α] [Inhabited ε] in
theorem adding_iff {call : Call} : call.adding = true ↔ ∃ id, call.point = .fetchAdd id := by
  obtain ⟨request,enqueued,point⟩ := call
  cases point <;> simp [Call.adding]

omit [Inhabited α] [Inhabited ε] in
/-- Where the counter was right and no worker can have stepped past a `Stop`. -/
theorem Short.of_counted (counted : Counted s) (none : s.calls.countP Call.storing = 0) : Short 0 s where
  storing := by
    rw [none]
    exact fun absurd => absurd.false.elim
  counted := fun _ => counted

omit [Inhabited α] [Inhabited ε] in
theorem Short.call {n m i : Nat} {before after : Call} (short : Short n s) (found : s.calls[i]? = some before)
    (calls : t.calls = s.calls.set i after) (workers : t.workers = s.workers) (same : after.storing = before.storing)
    (late : 0 < s.calls.countP Call.storing →
      s.taskQueue.length + (if after.adding then 1 else 0) + m = t.taskQueue.length + (if before.adding then 1 else 0) + n)
    (early : s.calls.countP Call.storing = 0 →
      t.pendingTasks + s.taskQueue.length + (if after.adding then 1 else 0) + m =
        s.pendingTasks + t.taskQueue.length + (if before.adding then 1 else 0) + n) : Short m t := by
  have count := count_set Call.adding after found
  constructor
  · rw [calls,count_keep Call.storing after found same]
    intro storing
    have known := short.storing storing
    have moved := late storing
    omega
  · rw [calls,count_keep Call.storing after found same,workers]
    intro none
    have known := short.counted none
    have moved := early none
    omega

omit [Inhabited α] [Inhabited ε] in
theorem Short.still {n i : Nat} {before after : Call} (short : Short n s) (found : s.calls[i]? = some before)
    (calls : t.calls = s.calls.set i after) (workers : t.workers = s.workers) (taskQueue : t.taskQueue = s.taskQueue)
    (pendingTasks : t.pendingTasks = s.pendingTasks) (adding : after.adding = before.adding)
    (storing : after.storing = before.storing) : Short n t := by
  refine short.call found calls workers storing (fun _ => ?_) fun _ => ?_
  · rw [taskQueue,adding]
  · rw [taskQueue,adding,pendingTasks]

omit [Inhabited α] [Inhabited ε] in
theorem Proceeds.quiet {request : Request} {before after : Point} (proceeds : Proceeds s request before after)
    (enqueued : Nat) :
    Call.adding ⟨request,enqueued,after⟩ = Call.adding ⟨request,enqueued,before⟩ ∧
      Call.storing ⟨request,enqueued,after⟩ = Call.storing ⟨request,enqueued,before⟩ := by
  cases proceeds <;> exact ⟨rfl,rfl⟩

omit [Inhabited α] [Inhabited ε] in
/-- The counter does not wrap where the queue holds the task to be counted. -/
theorem Short.below {n i id : Nat} {call : Call} (control : Control platform s) (short : Short n s)
    (found : s.calls[i]? = some call) (adds : call.point = .fetchAdd id) (none : s.calls.countP Call.storing = 0) :
    (s.pendingTasks + 1) % 2 ^ platform.width = s.pendingTasks + 1 := by
  have holds : s.inside (.call i) = true := by rw [inside_call found,adds]; rfl
  have outside := not_subtracting fun k => control.locked.alone holds (.worker k) (by simp)
  have some := count_pos Call.adding found (adding_iff.mpr ⟨id,adds⟩)
  have known := short.counted none
  have room := control.room
  exact Nat.mod_eq_of_lt (by omega)

omit [Inhabited α] [Inhabited ε] in
/-- Only the `Stop` that stops the pool gets as far as the store of 0. -/
theorem Control.others_storing {i j : Nat} {call other : Call} (control : Control platform s)
    (found : s.calls[i]? = some call) (wins : 1 ≤ call.point.stage) (present : s.calls[j]? = some other)
    (different : j ≠ i) : other.storing = false := by
  cases shape : other.storing with
  | false => rfl
  | true =>
    have late : 1 ≤ other.point.stage := by
      rw [storing_iff.mp shape]
      decide
    exact absurd (control.single j i other call present found late wins) different

omit [Inhabited α] [Inhabited ε] in
theorem Control.none_storing {i : Nat} {call : Call} (control : Control platform s)
    (found : s.calls[i]? = some call) (wins : 1 ≤ call.point.stage) (own : call.storing = false) :
    s.calls.countP Call.storing = 0 := by
  apply count_none
  intro j other present
  by_cases same : j = i
  · subst same
    obtain rfl : call = other := Option.some.inj (found.symm.trans present)
    exact own
  · exact control.others_storing found wins present same

omit [Inhabited α] [Inhabited ε] in
theorem short_fetchAdd {n i id : Nat} {call : Call} (control : Control platform s) (short : Short n s)
    (found : s.calls[i]? = some call) (adds : call.point = .fetchAdd id) :
    ∃ more, Short (n + more) (({s with pendingTasks := (s.pendingTasks + 1) % 2 ^ platform.width} : State α ε).proceed i call
      (.unlock id)) ∧ (more = 0 ↔ Lasts s (.call i : Label α ε)) := by
  obtain ⟨request,enqueued,point⟩ := call
  subst adds
  have added : Call.adding ⟨request,enqueued,.fetchAdd id⟩ = true := rfl
  have silent : Call.adding ⟨request,enqueued,.unlock id⟩ = false := rfl
  rcases Nat.eq_zero_or_pos (s.calls.countP Call.storing) with none | storing
  · have below := short.below control found rfl none
    refine ⟨0,short.call found rfl rfl rfl (fun storing => by omega) fun _ => ?_,iff_of_true rfl fun _ _ _ => none⟩
    simp only [State.proceed,added,silent,below,Bool.false_eq_true,if_true,if_false]
    omega
  · refine ⟨1,short.call found rfl rfl rfl (fun _ => ?_) fun none => by omega,iff_of_false Nat.one_ne_zero fun lasts => ?_⟩
    · simp only [State.proceed,added,silent,Bool.false_eq_true,if_true,if_false]
      omega
    · have none := lasts _ found rfl
      omega

omit [Inhabited α] [Inhabited ε] in
theorem short_clear {n i : Nat} {call : Call} (control : Control platform s) (short : Short n s)
    (found : s.calls[i]? = some call) (clears : call.point = .clear) (free : s.queueMutex = none) :
    Short n (({s with taskQueue := [], discarded := s.discarded ++ s.taskQueue} : State α ε).proceed i call
      .storePending) := by
  obtain ⟨request,enqueued,point⟩ := call
  subst clears
  have none := control.none_storing found (by simp [Point.stage]) rfl
  obtain ⟨counted,_⟩ := control.counted_of_stage found (by simp [Point.stage]) (by simp [Point.stage])
  have known := short.counted none
  have quiet := not_adding fun j => control.locked.outside free (.call j)
  have storing := count_set Call.storing ⟨request,enqueued,.storePending⟩ found
  have adding := count_keep Call.adding ⟨request,enqueued,.storePending⟩ found rfl
  simp only [Call.storing,if_true,Bool.false_eq_true,if_false] at storing
  unfold Counted at counted
  constructor
  · intro _
    simp only [State.proceed,List.length_nil,adding]
    omega
  · intro gone
    simp only [State.proceed] at gone
    omega

omit [Inhabited α] [Inhabited ε] in
theorem short_storePending {n i : Nat} {call : Call} (control : Control platform s) (short : Short n s)
    (found : s.calls[i]? = some call) (stores : call.point = .storePending) :
    Short n (({s with pendingTasks := 0} : State α ε).proceed i call .storeStopping) := by
  obtain ⟨request,enqueued,point⟩ := call
  subst stores
  have known := short.storing (count_pos Call.storing found rfl)
  have adding := count_keep Call.adding ⟨request,enqueued,.storeStopping⟩ found rfl
  have gone : (s.calls.set i ⟨request,enqueued,.storeStopping⟩).countP Call.storing = 0 := by
    apply count_none
    intro j other present
    rcases get_set present with ⟨_,rfl⟩ | ⟨different,kept⟩
    · rfl
    · exact control.others_storing found (by simp [Point.stage]) kept different
  have idle : s.workers.countP Worker.subtracting = 0 := by
    apply count_none
    intro k worker present
    rw [control.exited ⟨i,_,found,by simp [Point.stage]⟩ k worker present]
    rfl
  constructor
  · intro storing
    simp only [State.proceed] at storing
    omega
  · intro _
    simp only [State.proceed,adding,idle]
    omega

theorem short_callMoves {n i : Nat} {call : Call} (control : Control platform s) (short : Short n s)
    (found : s.calls[i]? = some call) (moves : CallMoves platform s i call t) :
    ∃ more, Short (n + more) t ∧ (more = 0 ↔ Lasts s (.call i : Label α ε)) := by
  have lasts (silent : call.adding = false) : 0 = 0 ↔ Lasts s (.call i : Label α ε) := by
    refine iff_of_true rfl fun other present adds => ?_
    obtain rfl : call = other := Option.some.inj (found.symm.trans present)
    simp [silent] at adds
  cases moves with
  | fetchAdd id adds => exact short_fetchAdd control short found adds
  | clear clears free => exact ⟨0,short_clear control short found clears free,lasts (by simp [Call.adding,clears])⟩
  | storePending stores => exact ⟨0,short_storePending control short found stores,lasts (by simp [Call.adding,stores])⟩
  | push promise entering enqueues free room =>
    have silent : call.adding = false := by simp [Call.adding,entering]
    have added : Call.adding {call with point := .fetchAdd s.promises.length} = true := rfl
    refine ⟨0,short.call found rfl rfl (by simp [Call.storing,entering]) (fun _ => ?_) fun _ => ?_,lasts silent⟩
    · simp only [State.proceed,silent,added,List.length_append,List.length_singleton,Bool.false_eq_true,if_true,if_false]
      omega
    · simp only [State.proceed,silent,added,List.length_append,List.length_singleton,Bool.false_eq_true,if_true,if_false]
      omega
  | proceed after proceeds =>
    obtain ⟨request,enqueued,point⟩ := call
    obtain ⟨adding,storing⟩ := proceeds.quiet enqueued
    have silent : Call.adding ⟨request,enqueued,point⟩ = false := not_adding_of_outside proceeds.inside.1
    exact ⟨0,short.still found rfl rfl rfl rfl adding storing,lasts silent⟩
  | unlock _ stands | pause stands | resume stands | exchange _ stands | takeWorkers stands | storeStopping stands =>
    exact ⟨0,short.still found rfl rfl rfl rfl (by simp [Call.adding,stands]) (by simp [Call.storing,stands]),
      lasts (by simp [Call.adding,stands])⟩

omit [Inhabited α] [Inhabited ε] in
/-- A worker steps only before the queue is emptied, where the counter is right. -/
theorem short_workerMoves {n k : Nat} (control : Control platform s) (short : Short n s)
    (moves : WorkerMoves platform s k t) : Short n t := by
  have early : ¬ Reached 5 s.calls := fun late => control.no_worker late moves
  have none : s.calls.countP Call.storing = 0 := by
    apply count_none
    intro j other present
    cases shape : other.storing with
    | false => rfl
    | true => exact absurd ⟨j,other,present,by simp [storing_iff.mp shape,Point.stage]⟩ early
  have calls := moves.frame.1
  have before := (control.counted.resolve_right fun late => early (late.mono (by decide))).1
  have after := ((control_workerMoves control moves).counted.resolve_right fun late =>
    early (calls ▸ late.mono (by decide))).1
  have known := short.counted none
  unfold Counted at before
  obtain rfl : n = 0 := by omega
  exact .of_counted after (calls ▸ none)

theorem short_step {n : Nat} {label : Label α ε} (control : Control platform s) (short : Short n s)
    (taken : step platform s label = some t) : ∃ more, Short (n + more) t ∧ (more = 0 ↔ Lasts s label) := by
  rcases step_acts taken with ⟨i,call,rfl,found,moves⟩ | ⟨i,call,rfl,found,entering,_,rfl⟩ | ⟨request,rfl,rfl⟩ |
    ⟨other,k,moves⟩
  · exact short_callMoves control short found moves
  · exact ⟨0,short.still found rfl rfl rfl rfl (by simp [Call.adding,entering]) (by simp [Call.storing,entering]),
      iff_of_true rfl trivial⟩
  · refine ⟨0,⟨fun storing => ?_,fun none => ?_⟩,iff_of_true rfl trivial⟩
    · simp only [List.countP_append] at storing ⊢
      exact short.storing storing
    · simp only [List.countP_append] at none ⊢
      exact short.counted none
  · refine ⟨0,short_workerMoves control short moves,iff_of_true rfl ?_⟩
    cases label with
    | call i => exact absurd rfl (other i)
    | _ => trivial

theorem Settled.short {n : Nat} (settled : Settled s) (sane : Sane platform s) (short : Short n s) :
    s.pendingTasks + n = s.taskQueue.length := by
  have none : s.calls.countP Call.storing = 0 := by
    apply count_none
    intro j call found
    cases shape : call.storing with
    | false => rfl
    | true =>
      have stores := storing_iff.mp shape
      have fits := sane.conduct.fits j call found
      simp only [Fits,stores] at fits
      obtain ⟨waitForTasks,asks⟩ := fits
      have ended := settled.unstopping call (List.mem_of_getElem? found) (by rw [asks]; rfl)
      rw [stores] at ended
      contradiction
  have quiet := not_adding fun j => sane.control.locked.outside settled.free (.call j)
  have idle := not_subtracting fun k => sane.control.locked.outside settled.free (.worker k)
  have known := short.counted none
  omega

omit [Inhabited α] [Inhabited ε] in
theorem Control.positive {k id : Nat} (control : Control platform s) (found : s.workers[k]? = some (.fetchSub id)) :
    0 < s.pendingTasks := by
  have early : ¬ Reached 6 s.calls := by
    intro late
    have exited := control.exited (late.mono (by decide)) k _ found
    contradiction
  exact ((control.counted.resolve_right early).1.above control found).1

omit [Inhabited α] [Inhabited ε] in
theorem short_init (platform : Platform ε) (config : Config) : Short 0 (construct platform config : State α ε) := by
  have control : Control platform (construct platform config : State α ε) := control_init platform config
  rw [construct_eq] at control ⊢
  refine .of_counted (control.counted.resolve_right fun late => ?_).1 rfl
  obtain ⟨i,call,found,_⟩ := late
  simp [empty] at found

/-- In a run that ends with no one inside the lock and no `Stop` in progress the
counter is the length of the queue if and only if no task was counted between the
emptying of the queue and the store of 0; and no `fetch_sub` ever finds 0. -/
theorem pending_iff {config : Config} {labels : List (Label α ε)}
    (reached : run (step platform) (construct platform config) labels = some s) :
    (∀ k id : Nat, s.workers[k]? = some (.fetchSub id) → 0 < s.pendingTasks) ∧
      (Settled s → (s.pendingTasks = s.taskQueue.length ↔
        Obeys (step platform) Lasts (construct platform config) labels)) := by
  obtain ⟨sane,n,short,lasting⟩ := run_past (fun state past => Sane platform state ∧ ∃ n, Short n state ∧
    (n = 0 ↔ Obeys (step platform) Lasts (construct platform config) past)) (fun state past label next known given taken => by
      obtain ⟨sane,n,short,same⟩ := given
      obtain ⟨more,after,lasts⟩ := short_step sane.control short taken
      refine ⟨sane_step state label next sane taken,n + more,after,?_⟩
      rw [obeys_snoc known,← same,← lasts]
      omega) ⟨sane_init platform config,0,short_init platform config,iff_of_true rfl trivial⟩ reached
  refine ⟨fun k id found => sane.control.positive found,fun settled => ?_⟩
  have equal := settled.short sane short
  rw [← lasting]
  omega

/-- A task is submitted after `Stop` has returned. -/
theorem pending_iff_late :
    ∃ s : State Nat Nat, run (step ⟨64,4,fun _ => 0⟩) (construct ⟨64,4,fun _ => 0⟩ ⟨0,4⟩)
        [.invoke (.stop false),.call 0,.call 0,.call 0,.call 0,.call 0,.call 0,.call 0,.invoke .submit,.call 1,.call 1,
          .call 1,.call 1] = some s ∧
      s.calls[0]? = some ⟨.stop false,0,.returned (.stopped true)⟩ ∧ Settled s ∧ s.pendingTasks = s.taskQueue.length := by
  obtain ⟨s,reached,calls,free⟩ : ∃ s : State Nat Nat, run (step ⟨64,4,fun _ => 0⟩) (construct ⟨64,4,fun _ => 0⟩ ⟨0,4⟩)
        [.invoke (.stop false),.call 0,.call 0,.call 0,.call 0,.call 0,.call 0,.call 0,.invoke .submit,.call 1,.call 1,
          .call 1,.call 1] = some s ∧
      s.calls = [⟨.stop false,0,.returned (.stopped true)⟩,⟨.submit,0,.returned (.future 0)⟩] ∧ s.queueMutex = none :=
    ⟨_,rfl,rfl,rfl⟩
  have settled : Settled s := ⟨free,by rw [calls]; decide⟩
  exact ⟨s,reached,by rw [calls]; rfl,settled,((pending_iff reached).2 settled).mpr (by decide)⟩

/-- A task is submitted between the emptying of the queue and the store of 0. -/
theorem pending_falls_behind :
    ∃ s : State Nat Nat, run (step ⟨64,4,fun _ => 0⟩) (construct ⟨64,4,fun _ => 0⟩ ⟨0,4⟩)
        [.invoke (.stop false),.call 0,.call 0,.call 0,.call 0,.call 0,.invoke .submit,.call 1,.call 1,.call 1,.call 1,
          .call 0,.call 0] = some s ∧
      s.calls = [⟨.stop false,0,.returned (.stopped true)⟩,⟨.submit,0,.returned (.future 0)⟩] ∧ Settled s ∧
      s.taskQueue = [0] ∧ s.pendingTasks = 0 := by
  obtain ⟨s,reached,calls,free,taskQueue,pendingTasks⟩ : ∃ s : State Nat Nat,
      run (step ⟨64,4,fun _ => 0⟩) (construct ⟨64,4,fun _ => 0⟩ ⟨0,4⟩)
        [.invoke (.stop false),.call 0,.call 0,.call 0,.call 0,.call 0,.invoke .submit,.call 1,.call 1,.call 1,.call 1,
          .call 0,.call 0] = some s ∧
      s.calls = [⟨.stop false,0,.returned (.stopped true)⟩,⟨.submit,0,.returned (.future 0)⟩] ∧ s.queueMutex = none ∧
      s.taskQueue = [0] ∧ s.pendingTasks = 0 := ⟨_,rfl,rfl,rfl,rfl,rfl⟩
  exact ⟨s,reached,calls,⟨free,by rw [calls]; decide⟩,taskQueue,pendingTasks⟩

end Ezthread.ThreadPool
