import Ezthread.PoolSubmissions

/-! What `GetPendingTaskCount` tells the thread that submits the tasks. -/
namespace Ezthread.ThreadPool
open Transition Activation Future

variable {α ε : Type*} [Inhabited α] [Inhabited ε] {platform : Platform ε} {s t : State α ε}

def Point.ended : Point → Bool
  | .threw | .returned _ => true
  | _ => false

/-- What the one thread calls. -/
def Request.own : Request → Bool
  | .submit | .submitDetached | .getPendingTaskCount => true
  | _ => false

def Request.stops : Request → Bool
  | .stop _ => true
  | _ => false

/-- The thread, while it is in the call. -/
def Call.thread (call : Call) : Option Unit := if call.request.own && !call.point.ended then some () else none

def Call.counting : Call → Bool
  | ⟨.getPendingTaskCount,_,.entering⟩ => true
  | _ => false

/-- The tasks are submitted and their number asked for by one thread, and `Stop` is
not called. -/
def Sequential (s : State α ε) : Label α ε → Prop
  | .invoke request => request.stops = false ∧ (request.own = true → ∀ call ∈ s.calls, call.thread = none)
  | _ => True

/-- `GetPendingTaskCount` reads 0 only while no worker has a task. -/
def Idle (s : State α ε) : Label α ε → Prop
  | .call i => ∀ call ∈ s.calls[i]?, call.counting = true → s.pendingTasks = 0 → ∀ worker ∈ s.workers, worker.task = none
  | _ => True

/-- Where `GetPendingTaskCount` has returned 0, the tasks enqueued before it have
finished executing. -/
def Polled (s : State α ε) : Prop :=
  Every (fun _ call => call.point = .returned (.count 0) → ∀ id < call.enqueued, s.done id = 1) s.calls

instance (s : State α ε) : (label : Label α ε) → Decidable (Sequential s label)
  | .invoke request => inferInstanceAs (Decidable (request.stops = false ∧ _))
  | .call _ | .fail _ | .worker _ | .finish _ _ => inferInstanceAs (Decidable True)

instance (s : State α ε) : (label : Label α ε) → Decidable (Idle s label)
  | .call i => inferInstanceAs (Decidable (∀ call ∈ s.calls[i]?, _))
  | .invoke _ | .fail _ | .worker _ | .finish _ _ => inferInstanceAs (Decidable True)

structure Alone (s : State α ε) : Prop where
  exclusive : Exclusive Call.thread s.calls
  unstopped : Every (fun _ call => call.request.stops = false) s.calls
  counting : Every (fun _ call => call.counting = true → call.enqueued = s.promises.length) s.calls

theorem thread_iff {call : Call} {k : Unit} :
    call.thread = some k ↔ call.request.own = true ∧ call.point.ended = false := by
  simp [Call.thread]

theorem counting_iff {call : Call} :
    call.counting = true ↔ call.request = .getPendingTaskCount ∧ call.point = .entering := by
  obtain ⟨request,enqueued,point⟩ := call
  cases request <;> cases point <;> simp [Call.counting]

theorem counting_thread {call : Call} (counting : call.counting = true) : call.thread = some () := by
  obtain ⟨asks,entering⟩ := counting_iff.mp counting
  exact thread_iff.mpr ⟨by rw [asks]; rfl,by rw [entering]; rfl⟩

omit [Inhabited α] [Inhabited ε] in
theorem Proceeds.working {request : Request} {before after : Point} (proceeds : Proceeds s request before after) :
    before.ended = false := by
  cases proceeds <;> rfl

theorem CallMoves.working {i : Nat} {call : Call} (moves : CallMoves platform s i call t) : call.point.ended = false := by
  cases moves with
  | proceed point proceeds => exact proceeds.working
  | push _ stands | fetchAdd _ stands | unlock _ stands | pause stands | resume stands | exchange _ stands
  | takeWorkers stands | clear stands | storePending stands | storeStopping stands =>
    rw [stands]
    rfl

theorem Enqueues.request {request : Request} {promise : Option (SharedState α ε)} (enqueues : Enqueues request promise) :
    request = .submit ∨ request = .submitDetached := by
  cases enqueues with
  | submit => exact Or.inl rfl
  | submitDetached => exact Or.inr rfl

theorem CallMoves.pushes {i : Nat} {call : Call} (moves : CallMoves platform s i call t) :
    t.promises.length = s.promises.length ∨ call.request = .submit ∨ call.request = .submitDetached := by
  cases moves with
  | push promise entering enqueues => exact Or.inr enqueues.request
  | _ => exact Or.inl rfl

theorem Alone.call {i : Nat} {call : Call} (alone : Alone s) (found : s.calls[i]? = some call)
    (moves : CallMoves platform s i call t) : Alone t := by
  obtain ⟨⟨point,calls,entered⟩,_⟩ := moves.entered
  constructor
  · rw [calls]
    exact alone.exclusive.set found fun k owns => Or.inl (thread_iff.mpr ⟨(thread_iff.mp owns).1,moves.working⟩)
  · rw [calls]
    exact alone.unstopped.set (alone.unstopped i call found)
  · rw [calls]
    refine Every.set (fun j other present counting => ?_) fun counting => absurd (counting_iff.mp counting).2 entered
    rw [alone.counting j other present counting]
    rcases moves.pushes with same | submits
    · exact same.symm
    · have pushing : call.thread = some () :=
        thread_iff.mpr ⟨by rcases submits with asks | asks <;> rw [asks] <;> rfl,moves.working⟩
      obtain rfl := alone.exclusive i j call other () found present pushing (counting_thread counting)
      obtain rfl := Option.some.inj (found.symm.trans present)
      rcases submits with submits | submits <;> simp [(counting_iff.mp counting).1] at submits

theorem alone_step (s : State α ε) (label : Label α ε) (t : State α ε) (alone : Alone s) (sequential : Sequential s label)
    (taken : step platform s label = some t) : Alone t := by
  rcases step_acts taken with ⟨i,call,rfl,found,moves⟩ | ⟨i,call,rfl,found,_,moves,_⟩ | ⟨request,rfl,rfl⟩ |
    ⟨_,k,moves⟩
  · exact alone.call found moves
  · exact alone.call found moves
  · obtain ⟨unstopped,free⟩ := sequential
    refine ⟨alone.exclusive.append_unheld fun k owns held => ?_,alone.unstopped.append unstopped,
      alone.counting.append fun _ => rfl⟩
    obtain ⟨j,other,present,holds⟩ := held
    simp [free (thread_iff.mp owns).1 other (List.mem_of_getElem? present)] at holds
  · obtain ⟨calls,_,_,_,_,promises⟩ := moves.frame
    refine ⟨?_,?_,?_⟩
    · rw [calls]
      exact alone.exclusive
    · rw [calls]
      exact alone.unstopped
    · rw [calls,promises]
      exact alone.counting

theorem Alone.running (alone : Alone s) (sane : Sane platform s) : s.stopping = false := by
  cases shape : s.stopping with
  | false => rfl
  | true =>
    obtain ⟨waitForTasks,member⟩ := sane.conduct.stopped shape
    obtain ⟨call,present,asks⟩ := List.mem_map.mp member
    obtain ⟨i,found⟩ := List.mem_iff_getElem?.mp present
    have unstopped : call.request.stops = false := alone.unstopped i call found
    rw [asks] at unstopped
    contradiction

/-- Where the thread reads 0 and no worker has a task, all have finished. -/
theorem Alone.all_done {i : Nat} {call : Call} (alone : Alone s) (sane : Sane platform s) (found : s.calls[i]? = some call)
    (counting : call.counting = true) (zero : s.pendingTasks = 0) (idle : ∀ worker ∈ s.workers, worker.task = none) {id : Nat}
    (earlier : id < call.enqueued) : s.done id = 1 := by
  obtain ⟨counted,none⟩ := sane.control.counted_running (alone.running sane)
  have quiet : s.calls.countP Call.adding = 0 := by
    apply count_none
    intro j other present
    cases shape : other.adding with
    | false => rfl
    | true =>
      obtain ⟨request,enqueued,point⟩ := other
      cases point with
      | fetchAdd pushed =>
        have own : request.own = true := by
          have fits : Fits s.workers.length ⟨request,enqueued,.fetchAdd pushed⟩ := sane.conduct.fits j _ present
          rcases fits with rfl | rfl <;> rfl
        obtain rfl := alone.exclusive i j _ _ () found present (counting_thread counting) (thread_iff.mpr ⟨own,rfl⟩)
        obtain rfl := Option.some.inj (found.symm.trans present)
        exact absurd (counting_iff.mp counting).2 (by simp)
      | _ => contradiction
  have free : s.held id = 0 := by
    apply count_none
    intro k worker present
    rw [idle worker (List.mem_of_getElem? present)]
    rfl
  have place := sane.ledger.place id
  rw [free,none,if_pos (alone.counting i call found counting ▸ earlier)] at place
  have empty : s.taskQueue = [] := by
    apply List.length_eq_zero_iff.mp
    unfold Counted at counted
    omega
  rw [empty] at place
  simpa using place

omit [Inhabited α] [Inhabited ε] in
theorem Proceeds.counts {request : Request} {before : Point} (proceeds : Proceeds s request before (.returned (.count 0))) :
    request = .getPendingTaskCount ∧ before = .entering ∧ s.pendingTasks = 0 := by
  generalize after : Point.returned (.count 0) = point at proceeds
  cases proceeds with
  | count asks => exact ⟨asks,rfl,(Answer.count.inj (Point.returned.inj after)).symm⟩
  | _ => cases after

/-- A call returns 0 where it reads it. -/
theorem CallMoves.counts {i : Nat} {call : Call} (moves : CallMoves platform s i call t) :
    ∃ point, t.calls = s.calls.set i {call with point := point} ∧ (point = .returned (.count 0) →
      call.counting = true ∧ s.pendingTasks = 0) := by
  cases moves with
  | proceed point proceeds =>
    refine ⟨point,rfl,?_⟩
    rintro rfl
    obtain ⟨asks,entering,zero⟩ := proceeds.counts
    exact ⟨counting_iff.mpr ⟨asks,entering⟩,zero⟩
  | _ => exact ⟨_,rfl,nofun⟩

structure Counting (platform : Platform ε) (s : State α ε) : Prop extends Sane platform s where
  alone : Alone s
  polled : Polled s

theorem counting_step (s : State α ε) (label : Label α ε) (t : State α ε) (counting : Counting platform s)
    (sequential : Sequential s label) (idle : Idle s label) (taken : step platform s label = some t) :
    Counting platform t := by
  have sane := sane_step s label t counting.toSane taken
  refine ⟨sane,alone_step s label t counting.alone sequential taken,?_⟩
  have old : Every (fun _ call => call.point = .returned (.count 0) → ∀ id < call.enqueued, t.done id = 1) s.calls := by
    intro j call found zero id earlier
    exact done_stays counting.ledger sane.ledger taken (counting.polled j call found zero id earlier)
  unfold Polled
  rcases step_acts taken with ⟨i,call,rfl,found,moves⟩ | ⟨i,call,rfl,found,_,moves,rfl⟩ | ⟨request,rfl,rfl⟩ |
    ⟨_,k,moves⟩
  · obtain ⟨point,calls,counts⟩ := moves.counts
    rw [calls]
    refine old.set fun zero id earlier => ?_
    obtain ⟨reads,none⟩ := counts zero
    have done := counting.alone.all_done counting.toSane found reads none (idle call found reads none) earlier
    exact done_stays counting.ledger sane.ledger taken done
  · exact old.set fun zero => by contradiction
  · exact old.append fun zero => by contradiction
  · rw [moves.frame.1]
    exact old

theorem polled_breach {label : Label α ε} (counting : Counting platform s) (breach : ¬ Idle s label)
    (taken : step platform s label = some t) : ¬ Polled t := by
  cases label with
  | call i =>
    unfold Idle at breach
    push Not at breach
    obtain ⟨⟨request,enqueued,point⟩,found,reads,zero,worker,member,holds⟩ := breach
    obtain ⟨rfl,rfl⟩ := counting_iff.mp reads
    obtain ⟨id,task⟩ := Option.ne_none_iff_exists'.mp holds
    obtain ⟨k,present⟩ := List.mem_iff_getElem?.mp member
    simp only [step,Option.mem_def.mp found,stepCall,zero,Option.some.injEq] at taken
    subst taken
    intro polled
    obtain ⟨inside,unfinished⟩ := counting.ledger.unfinished present task
    rw [← counting.alone.counting i _ found reads] at inside
    have done : s.done id = 1 := polled i _ (get_self found) rfl id inside
    omega
  | _ => exact absurd trivial breach

/-- In a run with one thread that submits tasks and asks for their number, and no
`Stop`, an answer 0 always means that all tasks have finished if and only if it is
given only while no worker has a task. -/
theorem polled_iff {config : Config} {labels : List (Label α ε)}
    (sequential : Obeys (step platform) Sequential (construct platform config) labels)
    (reached : run (step platform) (construct platform config) labels = some s) :
    Along (step platform) Polled (construct platform config) labels ↔
      Obeys (step platform) Idle (construct platform config) labels := by
  refine along_iff_obeys_within (Counting platform) counting_step (fun _ counting => counting.polled)
    (fun state label next counting _ breach taken => polled_breach counting breach taken) ?_ sequential reached
  refine ⟨sane_init platform config,?_,?_⟩
  · rw [construct_eq]
    exact ⟨.nil _,.nil _,.nil _⟩
  · rw [construct_eq]
    exact Every.nil _

/-- One worker has executed the only task when the thread asks. -/
theorem polled_iff_one_task :
    ∃ s : State Nat Nat, run (step ⟨64,4,fun _ => 0⟩) (construct ⟨64,4,fun _ => 0⟩ ⟨1,1⟩)
        [.invoke .submit,.call 0,.call 0,.call 0,.call 0,.worker 0,.worker 0,.worker 0,.worker 0,.worker 0,.worker 0,
          .worker 0,.worker 0,.worker 0,.finish 0 (.ok 5),.worker 0,.invoke .getPendingTaskCount,.call 1] = some s ∧
      s.calls[1]? = some ⟨.getPendingTaskCount,1,.returned (.count 0)⟩ ∧
      Along (step ⟨64,4,fun _ => 0⟩) Polled (construct ⟨64,4,fun _ => 0⟩ ⟨1,1⟩)
        [.invoke .submit,.call 0,.call 0,.call 0,.call 0,.worker 0,.worker 0,.worker 0,.worker 0,.worker 0,.worker 0,
          .worker 0,.worker 0,.worker 0,.finish 0 (.ok 5),.worker 0,.invoke .getPendingTaskCount,.call 1] := by
  obtain ⟨s,reached,read⟩ : ∃ s : State Nat Nat,
      run (step ⟨64,4,fun _ => 0⟩) (construct ⟨64,4,fun _ => 0⟩ ⟨1,1⟩)
        [.invoke .submit,.call 0,.call 0,.call 0,.call 0,.worker 0,.worker 0,.worker 0,.worker 0,.worker 0,.worker 0,
          .worker 0,.worker 0,.worker 0,.finish 0 (.ok 5),.worker 0,.invoke .getPendingTaskCount,.call 1] = some s ∧
      s.calls[1]? = some ⟨.getPendingTaskCount,1,.returned (.count 0)⟩ := ⟨_,rfl,rfl⟩
  exact ⟨s,reached,read,(polled_iff (by decide) reached).mpr (by decide)⟩

/-- The worker has popped the task but not executed it, and the thread reads 0. -/
theorem count_misses_popped :
    ∃ s : State Nat Nat, run (step ⟨64,4,fun _ => 0⟩) (construct ⟨64,4,fun _ => 0⟩ ⟨1,1⟩)
        [.invoke .submit,.call 0,.call 0,.call 0,.call 0,.worker 0,.worker 0,.worker 0,.worker 0,.worker 0,.worker 0,
          .invoke .getPendingTaskCount,.call 1] = some s ∧
      Obeys (step ⟨64,4,fun _ => 0⟩) Sequential (construct ⟨64,4,fun _ => 0⟩ ⟨1,1⟩ : State Nat Nat)
        [.invoke .submit,.call 0,.call 0,.call 0,.call 0,.worker 0,.worker 0,.worker 0,.worker 0,.worker 0,.worker 0,
          .invoke .getPendingTaskCount,.call 1] ∧
      s.calls = [⟨.submit,0,.returned (.future 0)⟩,⟨.getPendingTaskCount,1,.returned (.count 0)⟩] ∧
      s.executed = [] ∧ ¬ Polled s := by
  obtain ⟨s,reached,calls,executed,finished⟩ : ∃ s : State Nat Nat,
      run (step ⟨64,4,fun _ => 0⟩) (construct ⟨64,4,fun _ => 0⟩ ⟨1,1⟩)
        [.invoke .submit,.call 0,.call 0,.call 0,.call 0,.worker 0,.worker 0,.worker 0,.worker 0,.worker 0,.worker 0,
          .invoke .getPendingTaskCount,.call 1] = some s ∧
      s.calls = [⟨.submit,0,.returned (.future 0)⟩,⟨.getPendingTaskCount,1,.returned (.count 0)⟩] ∧
      s.executed = [] ∧ s.done 0 = 0 := ⟨_,rfl,rfl,rfl,rfl⟩
  refine ⟨s,reached,by decide,calls,executed,fun polled => ?_⟩
  have done := polled 1 ⟨.getPendingTaskCount,1,.returned (.count 0)⟩ (by rw [calls]; rfl) rfl 0 Nat.zero_lt_one
  rw [finished] at done
  contradiction

end Ezthread.ThreadPool
