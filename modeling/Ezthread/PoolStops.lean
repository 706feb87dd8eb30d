import Ezthread.PoolFutures

/-! What is still running when a `Stop` returns, the one of `~ThreadPool` among
them. -/
namespace Ezthread.ThreadPool
open Transition Activation Future

variable {α ε : Type*} [Inhabited α] [Inhabited ε] {platform : Platform ε} {s t : State α ε}

def Point.stopped : Point → Bool
  | .returned (.stopped _) => true
  | _ => false

def Call.exchanging : Call → Bool
  | ⟨.stop _,_,.entering⟩ => true
  | _ => false

/-- Every worker has ended, and no task is executed from here on. -/
structure Over (platform : Platform ε) (s : State α ε) : Prop where
  exited : ∀ worker ∈ s.workers, worker = .exited
  executed : ∀ labels t, run (step platform) s labels = some t → t.executed = s.executed

def StopsOver (platform : Platform ε) (s : State α ε) : Prop :=
  Every (fun _ call => call.point.stopped = true → Over platform s) s.calls

def Call.stops (call : Call) : Bool :=
  match call.request with
  | .stop _ => true
  | _ => false

/-- It has come to the stage, or returned. -/
def Call.past (stage : Nat) (call : Call) : Prop := call.point.stopped = true ∨ stage ≤ call.point.stage

omit [Inhabited α] [Inhabited ε] in
theorem exchanging_iff {call : Call} :
    call.exchanging = true ↔ (∃ waitForTasks, call.request = .stop waitForTasks) ∧ call.point = .entering := by
  obtain ⟨request,enqueued,point⟩ := call
  cases request <;> cases point <;> simp [Call.exchanging]

theorem CallMoves.executed {i : Nat} {call : Call} (moves : CallMoves platform s i call t) : t.executed = s.executed := by
  cases moves <;> rfl

theorem exited_step {label : Label α ε} (exited : ∀ worker ∈ s.workers, worker = .exited)
    (taken : step platform s label = some t) : t.workers = s.workers ∧ t.executed = s.executed := by
  cases step_moves taken with
  | invoke request => exact ⟨rfl,rfl⟩
  | worker k t moves =>
    obtain ⟨worker,found,alive⟩ := moves.alive
    exact absurd (exited worker (List.mem_of_getElem? found)) alive
  | call i call t found moves => exact ⟨moves.frame.1,moves.executed⟩

theorem over_of_exited (exited : ∀ worker ∈ s.workers, worker = .exited) : Over platform s where
  exited := exited
  executed := by
    intro labels t reached
    refine (run_invariant (fun state => state.workers = s.workers ∧ state.executed = s.executed) ?_ ⟨rfl,rfl⟩ reached).2
    intro state label next given taken
    obtain ⟨workers,executed⟩ := given
    obtain ⟨same,kept⟩ := exited_step (by rw [workers]; exact exited) taken
    exact ⟨same.trans workers,kept.trans executed⟩

omit [Inhabited α] [Inhabited ε] in
theorem Proceeds.stopped {request : Request} {before after : Point} (proceeds : Proceeds s request before after)
    (stopped : after.stopped = true) :
    (∃ waitForTasks, request = .stop waitForTasks) ∧ before = .entering ∧ s.stopping = true := by
  cases proceeds with
  | lose waitForTasks asks stopping => exact ⟨⟨waitForTasks,asks⟩,rfl,stopping⟩
  | _ => contradiction

omit [Inhabited α] [Inhabited ε] in
theorem Proceeds.running {request : Request} {before after : Point} (proceeds : Proceeds s request before after) :
    before.stopped = false := by
  cases proceeds <;> rfl

/-- A `Stop` returns where it finds the pool stopping, or at the end of the one
that did not. -/
theorem CallMoves.stopped {i : Nat} {call : Call} (moves : CallMoves platform s i call t) :
    ∃ point, t.calls = s.calls.set i {call with point := point} ∧ call.point.stopped = false ∧
      call.point.stage ≤ point.stage ∧ (t.stopping = true → s.stopping = true ∨ 1 ≤ point.stage) ∧
      (point.stopped = true → call.exchanging = true ∧ s.stopping = true ∨ call.point = .storeStopping) := by
  cases moves with
  | proceed point proceeds =>
    refine ⟨point,rfl,proceeds.running,proceeds.forward.1,Or.inl,fun stopped => ?_⟩
    obtain ⟨asks,entering,stopping⟩ := proceeds.stopped stopped
    exact Or.inl ⟨exchanging_iff.mpr ⟨asks,entering⟩,stopping⟩
  | exchange waitForTasks entering =>
    exact ⟨_,rfl,by rw [entering]; rfl,by simp [entering,Point.stage],fun _ => Or.inr (Nat.le_refl 1),
      fun stopped => absurd stopped Bool.false_ne_true⟩
  | storeStopping stores =>
    exact ⟨_,rfl,by rw [stores]; rfl,by simp [stores,Point.stage],fun _ => Or.inr (by simp [Point.stage]),fun _ => Or.inr stores⟩
  | push _ stands | pause stands | resume stands | fetchAdd _ stands | unlock _ stands | takeWorkers stands | clear stands
  | storePending stands =>
    exact ⟨_,rfl,by rw [stands]; rfl,by simp [stands,Point.stage],Or.inl,fun stopped => absurd stopped Bool.false_ne_true⟩

/-- Of two `Stop`s the one called first is past its joins. -/
structure Stops (platform : Platform ε) (s : State α ε) : Prop where
  kept : Kept platform s
  stopsOver : StopsOver platform s
  stopping : s.stopping = true → Reached 1 s.calls
  ordered : ∀ (i j : Nat) (first second : Call), s.calls[i]? = some first → s.calls[j]? = some second → i < j →
    first.stops = true → second.stops = true → first.past Point.clear.stage

omit [Inhabited α] [Inhabited ε] in
theorem Fits.stops {workers : Nat} {call : Call} (fits : Fits workers call) (begun : 1 ≤ call.point.stage) :
    call.stops = true := by
  obtain ⟨request,enqueued,point⟩ := call
  cases request with
  | stop => rfl
  | _ =>
    cases point with
    | returned answer => rcases answer with (_ | _) | _ | _ | _ <;> simp [Fits,Point.stage] at fits begun
    | _ => simp [Fits,Point.stage] at fits begun

/-- Whoever finds the pool stopping comes after the `Stop` that stopped it, which is
past its joins. -/
theorem Stops.found {j : Nat} {call : Call} (stops : Stops platform s) (found : s.calls[j]? = some call)
    (exchanging : call.exchanging = true) (stopping : s.stopping = true) : Reached Point.clear.stage s.calls := by
  obtain ⟨⟨waitForTasks,asks⟩,entering⟩ := exchanging_iff.mp exchanging
  have own : call.stops = true := by simp [Call.stops,asks]
  obtain ⟨i,first,present,begun⟩ := stops.stopping stopping
  have winner : first.stops = true := Fits.stops (stops.kept.conduct.fits i first present) begun
  rcases Nat.lt_trichotomy i j with earlier | same | later
  · refine ⟨i,first,present,(stops.ordered i j first call present found earlier winner own).elim (fun returned => ?_) id⟩
    obtain ⟨request,enqueued,point⟩ := first
    cases point with
    | returned answer =>
      cases answer with
      | stopped won =>
        cases won with
        | true => simp [Point.stage]
        | false => simp [Point.stage] at begun
      | _ => contradiction
    | _ => contradiction
  · subst same
    obtain rfl := Option.some.inj (found.symm.trans present)
    simp [entering,Point.stage] at begun
  · have past := stops.ordered j i call first found present later own winner
    simp [Call.past,entering,Point.stopped,Point.stage] at past

theorem Stops.call {i : Nat} {call : Call} (stops : Stops platform s) (kept : Kept platform t)
    (old : Every (fun _ call => call.point.stopped = true → Over platform t) s.calls) (found : s.calls[i]? = some call)
    (moves : CallMoves platform s i call t) : Stops platform t := by
  obtain ⟨point,calls,running,forward,stopping,returns⟩ := moves.stopped
  refine ⟨kept,?_,?_,?_⟩
  · unfold StopsOver
    rw [calls]
    refine old.set fun stopped => over_of_exited fun worker member => ?_
    rw [moves.frame.1] at member
    obtain ⟨k,present⟩ := List.mem_iff_getElem?.mp member
    rcases returns stopped with ⟨exchanging,finds⟩ | stores
    · exact stops.kept.control.exited (stops.found found exchanging finds) k worker present
    · exact stops.kept.control.exited ⟨i,call,found,by simp [stores,Point.stage]⟩ k worker present
  · intro given
    rw [calls]
    rcases stopping given with before | begun
    · exact (stops.stopping before).set found forward
    · exact ⟨i,_,get_self found,begun⟩
  · rw [calls]
    intro j k first second present other earlier firstStops secondStops
    obtain ⟨behind,there,follows⟩ : ∃ behind, s.calls[k]? = some behind ∧ behind.stops = true := by
      rcases get_set other with ⟨rfl,rfl⟩ | ⟨_,same⟩
      · exact ⟨call,found,secondStops⟩
      · exact ⟨second,same,secondStops⟩
    rcases get_set present with ⟨rfl,rfl⟩ | ⟨_,same⟩
    · have past := stops.ordered j k call behind found there earlier firstStops follows
      exact Or.inr (Nat.le_trans (past.resolve_left (by simp [running])) forward)
    · exact stops.ordered j k first behind same there earlier firstStops follows

end Ezthread.ThreadPool
