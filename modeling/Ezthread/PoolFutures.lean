import Ezthread.PoolSubmissions

/-! What `Stop` leaves of the futures that `Submit` has returned. -/
namespace Ezthread.ThreadPool
open Transition Activation Future

variable {α ε : Type*} [Inhabited α] [Inhabited ε] {platform : Platform ε} {s t : State α ε}

/-- Every `Submit` has thrown or returned a future that is ready. -/
def Fulfilled (s : State α ε) : Prop :=
  Every (fun _ call => call.request = .submit → call.point = .threw ∨
    ∃ id promise, call.point = .returned (.future id) ∧ s.promises[id]? = some (some promise) ∧ promise.ready = true)
    s.calls

/-- `Stop` has returned, and every `Submit` has returned or thrown. -/
def Finished (s : State α ε) : Prop :=
  (∃ (i : Nat) (call : Call), s.calls[i]? = some call ∧ call.point = .returned (.stopped true)) ∧
    Every (fun _ call => call.request = .submit → call.point = .threw ∨ ∃ answer, call.point = .returned answer) s.calls

/-- `Stop` empties a queue that holds no task of `Submit`, and no `Submit` pushes
one after that. -/
def Orderly (s : State α ε) (label : Label α ε) : Prop :=
  ∀ (i : Nat) (call : Call), label = .call i → s.calls[i]? = some call →
    (call.point = .clear → ∀ id ∈ s.taskQueue, s.promised[id]? ≠ some true) ∧
    (call.point = .entering → call.request = .submit → ¬ Reached 6 s.calls)

/-- A task of `Submit` that no worker will take. -/
def Dropped (s : State α ε) (id : Nat) : Prop := id ∈ s.discarded ∨ id ∈ s.taskQueue ∧ Reached 6 s.calls

def Abandoned (s : State α ε) : Prop := ∃ id, s.promised[id]? = some true ∧ Dropped s id

omit [Inhabited α] [Inhabited ε] in
theorem Proceeds.stage {request : Request} {before after : Point} (proceeds : Proceeds s request before after)
    (late : 6 ≤ after.stage) : 6 ≤ before.stage := by
  cases proceeds <;> simp [Point.stage] at late ⊢

/-- A call goes forward, and only the emptying of the queue brings it past it. -/
theorem CallMoves.stage {i : Nat} {call : Call} (moves : CallMoves platform s i call t) :
    ∃ point, t.calls = s.calls.set i {call with point := point} ∧ call.point.stage ≤ point.stage ∧
      (6 ≤ point.stage → 6 ≤ call.point.stage ∨ call.point = .clear) := by
  cases moves with
  | proceed point proceeds => exact ⟨point,rfl,proceeds.forward.1,fun late => Or.inl (proceeds.stage late)⟩
  | push promise stands | pause stands | resume stands | exchange _ stands =>
    exact ⟨_,rfl,by simp [stands,Point.stage],fun late => by simp [Point.stage] at late⟩
  | fetchAdd id stands | unlock id stands | takeWorkers stands =>
    exact ⟨_,rfl,by simp [stands,Point.stage],fun late => by simp [Point.stage] at late⟩
  | clear stands => exact ⟨_,rfl,by simp [stands,Point.stage],fun _ => Or.inr stands⟩
  | storePending stands | storeStopping stands =>
    exact ⟨_,rfl,by simp [stands,Point.stage],fun _ => Or.inl (by simp [stands,Point.stage])⟩

omit [Inhabited α] [Inhabited ε] in
theorem WorkerMoves.tasks {k : Nat} (moves : WorkerMoves platform s k t) :
    (∀ id ∈ t.taskQueue, id ∈ s.taskQueue) ∧ t.discarded = s.discarded ∧ t.promised = s.promised := by
  cases moves with
  | take id rest found front =>
    refine ⟨fun other member => ?_,rfl,rfl⟩
    rw [front]
    exact List.mem_cons_of_mem id member
  | settle id outcome promise after found present settled =>
    exact ⟨fun _ member => member,rfl,promised_set present (settleTask_isSome settled)⟩
  | abort id outcome promise after failure found present settled =>
    exact ⟨fun _ member => member,rfl,promised_set present (settleTask_isSome settled)⟩
  | _ => exact ⟨fun _ member => member,rfl,rfl⟩

omit [Inhabited α] [Inhabited ε] in
/-- Past the joins there is no worker that could step. -/
theorem Control.no_worker {k : Nat} (control : Control platform s) (late : Reached 5 s.calls)
    (moves : WorkerMoves platform s k t) : False := by
  obtain ⟨worker,found,alive⟩ := moves.alive
  exact alive (control.exited late k worker found)

theorem Ledger.listed (ledger : Ledger s) {id : Nat} (member : id ∈ s.taskQueue ∨ id ∈ s.discarded) :
    id < s.promised.length ∧ s.done id = 0 := by
  have place := ledger.place id
  have listed : 0 < s.taskQueue.count id + s.discarded.count id := by
    rcases member with queued | discarded
    · exact Nat.lt_of_lt_of_le (List.count_pos_iff.mpr queued) (Nat.le_add_right _ _)
    · exact Nat.lt_of_lt_of_le (List.count_pos_iff.mpr discarded) (Nat.le_add_left _ _)
  rw [promised_length]
  split at place
  next inside => exact ⟨inside,by omega⟩
  next => omega

omit [Inhabited α] [Inhabited ε] in
theorem Dropped.member {id : Nat} (dropped : Dropped s id) : id ∈ s.taskQueue ∨ id ∈ s.discarded := by
  rcases dropped with discarded | ⟨queued,_⟩
  · exact Or.inr discarded
  · exact Or.inl queued

omit [Inhabited α] [Inhabited ε] in
theorem Abandoned.of_same {id : Nat} (promised : t.promised[id]? = some true) (dropped : Dropped t id)
    (same : t.promised = s.promised) (discarded : t.discarded = s.discarded)
    (taskQueue : ∀ id ∈ t.taskQueue, id ∈ s.taskQueue) (late : Reached 6 t.calls → Reached 6 s.calls) : Abandoned s := by
  refine ⟨id,same ▸ promised,?_⟩
  rcases dropped with lost | ⟨queued,past⟩
  · exact Or.inl (discarded ▸ lost)
  · exact Or.inr ⟨taskQueue id queued,late past⟩

/-- A task is abandoned by a step that is out of order. -/
theorem abandoned_new {label : Label α ε} (kept : Kept platform s) (taken : step platform s label = some t)
    (abandoned : Abandoned t) (orderly : Orderly s label) : Abandoned s := by
  obtain ⟨id,promised,dropped⟩ := abandoned
  rcases step_acts taken with ⟨i,call,rfl,found,moves⟩ | ⟨i,call,rfl,found,entering,_,rfl⟩ | ⟨request,rfl,rfl⟩ |
    ⟨_,k,moves⟩
  · obtain ⟨point,calls,_,stages⟩ := moves.stage
    have late (other : call.point ≠ .clear) (past : Reached 6 t.calls) : Reached 6 s.calls := by
      rw [calls] at past
      rcases past.of_set with own | before
      · exact ⟨i,call,found,(stages own).resolve_right other⟩
      · exact before
    cases moves with
    | push promise entering enqueues free room =>
      have grown : (s.promises ++ [promise]).map Option.isSome = s.promised ++ [promise.isSome] := List.map_append
      change ((s.promises ++ [promise]).map Option.isSome)[id]? = some true at promised
      rw [grown] at promised
      have old (member : id ∈ s.taskQueue ∨ id ∈ s.discarded) : s.promised[id]? = some true := by
        rwa [List.getElem?_append_left (kept.ledger.listed member).1] at promised
      rcases dropped with lost | ⟨queued,past⟩
      · exact ⟨id,old (Or.inr lost),Or.inl lost⟩
      · have before := late (by simp [entering]) past
        rcases List.mem_append.mp queued with earlier | new
        · exact ⟨id,old (Or.inl earlier),Or.inr ⟨earlier,before⟩⟩
        · rw [List.mem_singleton.mp new,← promised_length,List.getElem?_concat_length] at promised
          exact absurd before ((orderly i call rfl found).2 entering (enqueues.submits.mp (Option.some.inj promised)))
    | clear clears free =>
      rcases dropped with lost | ⟨queued,_⟩
      · rcases List.mem_append.mp lost with before | queued
        · exact ⟨id,promised,Or.inl before⟩
        · exact absurd promised ((orderly i call rfl found).1 clears id queued)
      · simp [State.proceed] at queued
    | proceed point proceeds =>
      refine Abandoned.of_same promised dropped rfl rfl (fun _ member => member) (late fun clears => ?_)
      rw [clears] at proceeds
      cases proceeds
    | fetchAdd id stands | unlock id stands | pause stands | resume stands | exchange _ stands | takeWorkers stands
    | storePending stands | storeStopping stands =>
      exact Abandoned.of_same promised dropped rfl rfl (fun _ member => member) (late (by simp [stands]))
  · refine Abandoned.of_same promised dropped rfl rfl (fun _ member => member) fun past => ?_
    exact past.of_set.resolve_left (by simp [Point.stage])
  · exact Abandoned.of_same promised dropped rfl rfl (fun _ member => member) fun past =>
      past.of_append (by simp [Point.stage])
  · obtain ⟨taskQueue,discarded,same⟩ := moves.tasks
    exact Abandoned.of_same promised dropped same discarded taskQueue fun past => moves.frame.1 ▸ past

theorem abandoned_persists {label : Label α ε} (kept : Kept platform s) (taken : step platform s label = some t)
    (abandoned : Abandoned s) : Abandoned t := by
  obtain ⟨id,promised,dropped⟩ := abandoned
  refine ⟨id,(step_moves taken).books.promised_grows promised,?_⟩
  cases step_moves taken with
  | invoke request => exact dropped.imp_right fun ⟨queued,past⟩ => ⟨queued,past.append _⟩
  | worker k t moves =>
    obtain ⟨_,discarded,_⟩ := moves.tasks
    rcases dropped with lost | ⟨_,past⟩
    · exact Or.inl (discarded ▸ lost)
    · exact (kept.control.no_worker (past.mono (by decide)) moves).elim
  | call i call t found moves =>
    obtain ⟨point,calls,forward,_⟩ := moves.stage
    have late (past : Reached 6 s.calls) : Reached 6 t.calls := by
      rw [calls]
      exact past.set found forward
    cases moves with
    | push => exact dropped.imp_right fun ⟨queued,past⟩ => ⟨List.mem_append_left _ queued,late past⟩
    | clear clears free =>
      exact Or.inl (dropped.member.elim (List.mem_append_right _) (List.mem_append_left _))
    | _ => exact dropped.imp_right fun ⟨queued,past⟩ => ⟨queued,late past⟩

theorem abandoned_breach {label : Label α ε} (taken : step platform s label = some t) (breach : ¬ Orderly s label) :
    Abandoned t := by
  unfold Orderly at breach
  push Not at breach
  obtain ⟨i,call,rfl,found,broken⟩ := breach
  simp only [step,found] at taken
  by_cases cleared : call.point = .clear ∧ ∃ id ∈ s.taskQueue, s.promised[id]? = some true
  · obtain ⟨clears,id,queued,promised⟩ := cleared
    simp only [stepCall,clears] at taken
    split at taken
    next free =>
      cases taken
      exact ⟨id,promised,Or.inl (List.mem_append_right _ queued)⟩
    next => contradiction
  · obtain ⟨entering,asks,past⟩ := broken fun clears id queued promised => cleared ⟨clears,id,queued,promised⟩
    simp only [stepCall,entering,asks,push] at taken
    split at taken
    next enabled =>
      cases taken
      refine ⟨s.promises.length,?_,Or.inr ⟨List.mem_append_right _ (List.mem_singleton_self _),?_⟩⟩
      · change ((s.promises ++ [some SharedState.new]).map Option.isSome)[s.promises.length]? = some true
        simp
      · exact past.set found (by simp [entering,Point.stage])
    next => contradiction

theorem finished_iff (kept : Kept platform s) (finished : Finished s) : Fulfilled s ↔ ¬ Abandoned s := by
  obtain ⟨⟨i,stop,found,stopped⟩,ended⟩ := finished
  have past : Reached 8 s.calls := ⟨i,stop,found,by simp [stopped,Point.stage]⟩
  have idle (id : Nat) : s.held id = 0 := by
    apply count_none
    intro k worker present
    rw [kept.control.exited (past.mono (by decide)) k worker present]
    rfl
  constructor
  · intro fulfilled abandoned
    obtain ⟨id,promised,dropped⟩ := abandoned
    obtain ⟨j,call,present,asks,own⟩ := kept.submissions.submitted id promised
    rcases fulfilled j call present asks with threw | ⟨other,promise,returned,holds,ready⟩
    · simp [threw,Point.task] at own
    · rw [returned] at own
      obtain rfl : other = id := Option.some.inj own
      obtain rfl := kept.ledger.fresh other promise holds (kept.ledger.listed dropped.member).2
      simp [SharedState.new] at ready
  · intro sound j call present asks
    rcases ended j call present asks with threw | ⟨answer,returned⟩
    · exact Or.inl threw
    · right
      have fits : Fits s.workers.length call := kept.conduct.fits j call present
      unfold Fits at fits
      rw [returned,asks] at fits
      cases answer with
      | future id =>
        obtain ⟨_,inside,submits⟩ := kept.submissions.assigned j call present id (by rw [returned]; rfl)
        obtain ⟨promise,holds⟩ := promised_iff.mp (submits asks)
        refine ⟨id,promise,returned,holds,?_⟩
        have place := kept.ledger.place id
        rw [if_pos inside,idle] at place
        have unlisted : ¬ (id ∈ s.taskQueue ∨ id ∈ s.discarded) := by
          intro member
          refine sound ⟨id,submits asks,?_⟩
          rcases member with queued | lost
          · exact Or.inr ⟨queued,past.mono (by decide)⟩
          · exact Or.inl lost
        rw [List.count_eq_zero.mpr fun queued => unlisted (Or.inl queued),
          List.count_eq_zero.mpr fun lost => unlisted (Or.inr lost)] at place
        have done : 0 < (s.finished.map Prod.fst).count id := by
          change 0 < s.done id
          omega
        obtain ⟨⟨_,outcome⟩,member,rfl⟩ := List.mem_map.mp (List.count_pos_iff.mp done)
        exact (kept.ledger.settled _ promise outcome holds member).1
      | nothing task => cases task <;> simp at fits
      | count | stopped => simp at fits

/-- Once `Stop` and every `Submit` have returned, the futures are ready if and
only if every step was orderly. -/
theorem fulfilled_iff {config : Config} {labels : List (Label α ε)}
    (reached : run (step platform) (construct platform config) labels = some s) (finished : Finished s) :
    Fulfilled s ↔ Obeys (step platform) Orderly (construct platform config) labels := by
  rw [finished_iff (kept_run reached) finished]
  refine last_iff_obeys (Kept platform) kept_step (fun state label next kept sound orderly taken abandoned =>
      sound (abandoned_new kept taken abandoned orderly))
    (fun state label next _ breach taken sound => sound (abandoned_breach taken breach))
    (fun state label next kept lost taken sound => lost fun abandoned => sound (abandoned_persists kept taken abandoned))
    (kept_init platform config) (fun abandoned => ?_) reached
  obtain ⟨id,promised,_⟩ := abandoned
  rw [construct_eq] at promised
  simp [State.promised,empty] at promised

/-- One worker gives 5 for the only task, and `Stop(false)` finds the queue empty. -/
theorem fulfilled_iff_one_task :
    ∃ s : State Nat Nat, run (step ⟨64,4,fun _ => 0⟩) (construct ⟨64,4,fun _ => 0⟩ ⟨1,1⟩)
        [.invoke .submit,.call 0,.call 0,.call 0,.call 0,.worker 0,.worker 0,.worker 0,.worker 0,.worker 0,.worker 0,
          .worker 0,.worker 0,.worker 0,.finish 0 (.ok 5),.worker 0,.worker 0,.invoke (.stop false),.call 1,.call 1,
          .worker 0,.call 1,.call 1,.call 1,.call 1,.call 1,.call 1] = some s ∧
      Finished s ∧ Obeys (step ⟨64,4,fun _ => 0⟩) Orderly (construct ⟨64,4,fun _ => 0⟩ ⟨1,1⟩)
        [.invoke .submit,.call 0,.call 0,.call 0,.call 0,.worker 0,.worker 0,.worker 0,.worker 0,.worker 0,.worker 0,
          .worker 0,.worker 0,.worker 0,.finish 0 (.ok 5),.worker 0,.worker 0,.invoke (.stop false),.call 1,.call 1,
          .worker 0,.call 1,.call 1,.call 1,.call 1,.call 1,.call 1] := by
  obtain ⟨s,reached,calls,promises⟩ : ∃ s : State Nat Nat,
      run (step ⟨64,4,fun _ => 0⟩) (construct ⟨64,4,fun _ => 0⟩ ⟨1,1⟩)
        [.invoke .submit,.call 0,.call 0,.call 0,.call 0,.worker 0,.worker 0,.worker 0,.worker 0,.worker 0,.worker 0,
          .worker 0,.worker 0,.worker 0,.finish 0 (.ok 5),.worker 0,.worker 0,.invoke (.stop false),.call 1,.call 1,
          .worker 0,.call 1,.call 1,.call 1,.call 1,.call 1,.call 1] = some s ∧
      s.calls = [⟨.submit,0,.returned (.future 0)⟩,⟨.stop false,1,.returned (.stopped true)⟩] ∧
      (s.promises[0]?.join.map fun promise => (promise.ready,promise.outcome)) = some (true,.ok 5) := ⟨_,rfl,rfl,rfl⟩
  have returned : Every (fun _ call => call.request = .submit → call.point = .returned (.future 0)) s.calls := by
    intro i call found asks
    have member := List.mem_of_getElem? found
    simp only [calls,List.mem_cons,List.not_mem_nil,or_false] at member
    rcases member with rfl | rfl
    · rfl
    · contradiction
  have finished : Finished s :=
    ⟨⟨1,⟨.stop false,1,.returned (.stopped true)⟩,by rw [calls]; rfl,rfl⟩,
      returned.imp fun _ _ _ known asks => Or.inr ⟨_,known asks⟩⟩
  refine ⟨s,reached,finished,(fulfilled_iff reached finished).mp fun i call found asks => Or.inr ?_⟩
  obtain ⟨promise,holds,ready⟩ := Option.map_eq_some_iff.mp promises
  exact ⟨0,promise,returned i call found asks,Option.join_eq_some_iff.mp holds,(Prod.mk.inj ready).1⟩

/-- `Stop(false)` empties a queue that holds a task of `Submit`: both calls have
returned, and the future will never be ready. -/
theorem stop_drops_promise :
    ∃ s : State Nat Nat, run (step ⟨64,4,fun _ => 0⟩) (construct ⟨64,4,fun _ => 0⟩ ⟨1,1⟩)
        [.invoke .submit,.call 0,.call 0,.call 0,.call 0,.invoke (.stop false),.call 1,.call 1,.worker 0,
          .call 1,.call 1,.call 1,.call 1,.call 1,.call 1] = some s ∧
      Finished s ∧ s.discarded = [0] ∧ s.calls[0]? = some ⟨.submit,0,.returned (.future 0)⟩ ∧ ¬ Fulfilled s := by
  obtain ⟨s,reached,calls,discarded,promises⟩ : ∃ s : State Nat Nat,
      run (step ⟨64,4,fun _ => 0⟩) (construct ⟨64,4,fun _ => 0⟩ ⟨1,1⟩)
        [.invoke .submit,.call 0,.call 0,.call 0,.call 0,.invoke (.stop false),.call 1,.call 1,.worker 0,
          .call 1,.call 1,.call 1,.call 1,.call 1,.call 1] = some s ∧
      s.calls = [⟨.submit,0,.returned (.future 0)⟩,⟨.stop false,1,.returned (.stopped true)⟩] ∧ s.discarded = [0] ∧
      s.promises = [some .new] := ⟨_,rfl,rfl,rfl,rfl⟩
  have submitted : s.calls[0]? = some ⟨.submit,0,.returned (.future 0)⟩ := by rw [calls]; rfl
  refine ⟨s,reached,⟨⟨1,⟨.stop false,1,.returned (.stopped true)⟩,by rw [calls]; rfl,rfl⟩,?_⟩,discarded,submitted,?_⟩
  · intro i call found _
    have member := List.mem_of_getElem? found
    simp only [calls,List.mem_cons,List.not_mem_nil,or_false] at member
    rcases member with rfl | rfl <;> exact Or.inr ⟨_,rfl⟩
  · intro fulfilled
    rcases fulfilled 0 _ submitted rfl with threw | ⟨id,promise,returned,holds,ready⟩
    · contradiction
    · cases returned
      rw [promises] at holds
      cases holds
      contradiction

end Ezthread.ThreadPool
