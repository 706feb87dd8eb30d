import Ezthread.PoolProgress

/-! Which call of a pool has submitted which task. -/
namespace Ezthread.ThreadPool
open Transition Activation Future

variable {α ε : Type*} [Inhabited α] [Inhabited ε] {platform : Platform ε} {s t : State α ε}

/-- The task a call has pushed. -/
def Point.task : Point → Option Nat
  | .fetchAdd id | .unlock id | .notifyOne id | .returned (.future id) | .returned (.nothing (some id)) => some id
  | _ => none

/-- Which tasks have a promise. -/
def State.promised (s : State α ε) : List Bool := s.promises.map Option.isSome

/-- What a step does to the calls and to the tasks they have pushed. -/
inductive Books (s t : State α ε) : Prop
  | begins (request : Request) (calls : t.calls = s.calls ++ [⟨request,s.promises.length,.entering⟩])
      (promised : t.promised = s.promised)
  | works (calls : t.calls = s.calls) (promised : t.promised = s.promised)
  | proceeds (i call point) (found : s.calls[i]? = some call) (calls : t.calls = s.calls.set i {call with point := point})
      (promised : t.promised = s.promised) (task : point.task = call.point.task)
  | pushes (i call promise) (found : s.calls[i]? = some call) (entering : call.point = .entering)
      (enqueues : Enqueues (α := α) (ε := ε) call.request promise)
      (calls : t.calls = s.calls.set i {call with point := .fetchAdd s.promises.length})
      (promised : t.promised = s.promised ++ [promise.isSome])

omit [Inhabited α] [Inhabited ε] in
theorem promised_length (s : State α ε) : s.promised.length = s.promises.length := List.length_map _

omit [Inhabited α] [Inhabited ε] in
theorem promised_iff {s : State α ε} {id : Nat} :
    s.promised[id]? = some true ↔ ∃ promise, s.promises[id]? = some (some promise) := by
  rw [State.promised,List.getElem?_map,Option.map_eq_some_iff]
  constructor
  · intro given
    obtain ⟨promise,found,some⟩ := given
    obtain ⟨state,rfl⟩ := Option.isSome_iff_exists.mp some
    exact ⟨state,found⟩
  · intro given
    obtain ⟨state,found⟩ := given
    exact ⟨some state,found,rfl⟩

omit [Inhabited α] [Inhabited ε] in
theorem settleTask_isSome {outcome : Except ε α} {promise after : Option (SharedState α ε)}
    {result : Except (Failure ε) Unit} (settled : settleTask platform outcome promise = (after,result)) :
    after.isSome = promise.isSome := by
  cases promise <;> cases settled <;> rfl

omit [Inhabited α] [Inhabited ε] in
theorem promised_set {id : Nat} {promise after : Option (SharedState α ε)} (present : s.promises[id]? = some promise)
    (same : after.isSome = promise.isSome) : (s.promises.set id after).map Option.isSome = s.promised := by
  obtain ⟨inside,rfl⟩ := List.getElem?_eq_some_iff.mp present
  have whole : s.promises.set id s.promises[id] = s.promises := List.set_getElem_self inside
  calc (s.promises.set id after).map Option.isSome = (s.promises.map Option.isSome).set id s.promises[id].isSome := by
        rw [List.map_set,same]
    _ = (s.promises.set id s.promises[id]).map Option.isSome := List.map_set.symm
    _ = s.promised := by rw [whole,State.promised]

omit [Inhabited α] [Inhabited ε] in
theorem Proceeds.task {request : Request} {before after : Point} (proceeds : Proceeds s request before after) :
    after.task = before.task := by
  cases proceeds <;> rfl

theorem Moves.books (moves : Moves platform s t) : Books s t := by
  cases moves with
  | invoke request => exact .begins request rfl rfl
  | worker k t moves =>
    cases moves with
    | settle id outcome promise after found present settled =>
      exact .works rfl (promised_set present (settleTask_isSome settled))
    | abort id outcome promise after failure found present settled =>
      exact .works rfl (promised_set present (settleTask_isSome settled))
    | _ => exact .works rfl rfl
  | call i call t found moves =>
    cases moves with
    | proceed point proceeds => exact .proceeds i call point found rfl rfl proceeds.task
    | push promise entering enqueues => exact .pushes i call promise found entering enqueues rfl List.map_append
    | fetchAdd id stands | unlock id stands => exact .proceeds i call _ found rfl rfl (by rw [stands]; rfl)
    | pause stands | resume stands | exchange _ stands | takeWorkers stands | clear stands | storePending stands | storeStopping stands =>
      exact .proceeds i call _ found rfl rfl (by rw [stands]; rfl)

/-- A call's task is younger than the call, and has a promise if `Submit` pushed
it; and a task that has a promise is that of a call of `Submit`. -/
structure Submissions (s : State α ε) : Prop where
  assigned : Every (fun _ call => ∀ id, call.point.task = some id → call.enqueued ≤ id ∧ id < s.promises.length ∧
    (call.request = .submit → s.promised[id]? = some true)) s.calls
  submitted : ∀ id, s.promised[id]? = some true →
    ∃ (i : Nat) (call : Call), s.calls[i]? = some call ∧ call.request = .submit ∧ call.point.task = some id

/-- The same call later on: it keeps the task it has pushed. -/
structure Follows (call later : Call) : Prop where
  request : later.request = call.request
  enqueued : later.enqueued = call.enqueued
  task : ∀ id, call.point.task = some id → later.point.task = some id

theorem Books.promises_le (books : Books s t) : s.promises.length ≤ t.promises.length := by
  rw [← promised_length s,← promised_length t]
  cases books with
  | begins _ _ promised | works _ promised | proceeds _ _ _ _ _ promised =>
    exact Nat.le_of_eq (congrArg List.length promised).symm
  | pushes _ _ _ _ _ _ _ promised =>
    rw [promised,List.length_append]
    exact Nat.le_add_right _ _

theorem Books.promised_grows (books : Books s t) {id : Nat} {kind : Bool} (found : s.promised[id]? = some kind) :
    t.promised[id]? = some kind := by
  cases books with
  | begins _ _ promised | works _ promised | proceeds _ _ _ _ _ promised => rwa [promised]
  | pushes _ _ _ _ _ _ _ promised =>
    rw [promised]
    exact get_grows found

omit [Inhabited α] [Inhabited ε] in
theorem follows_set {i j : Nat} {call moved : Call} {point : Point} (found : s.calls[i]? = some moved)
    (present : s.calls[j]? = some call) (task : ∀ id, moved.point.task = some id → point.task = some id) :
    ∃ later, (s.calls.set i {moved with point := point})[j]? = some later ∧ Follows call later := by
  by_cases same : i = j
  · subst same
    obtain rfl : moved = call := Option.some.inj (found.symm.trans present)
    exact ⟨_,get_self found,rfl,rfl,task⟩
  · exact ⟨call,by rw [List.getElem?_set_ne same]; exact present,rfl,rfl,fun _ own => own⟩

theorem Books.follows (books : Books s t) {j : Nat} {call : Call} (present : s.calls[j]? = some call) :
    ∃ later, t.calls[j]? = some later ∧ Follows call later := by
  cases books with
  | begins request calls =>
    rw [calls]
    exact ⟨call,get_grows present,rfl,rfl,fun _ own => own⟩
  | works calls =>
    rw [calls]
    exact ⟨call,present,rfl,rfl,fun _ own => own⟩
  | proceeds i moved point found calls _ task =>
    rw [calls]
    exact follows_set found present fun id own => task.trans own
  | pushes i moved promise found entering _ calls =>
    rw [calls]
    refine follows_set found present fun id own => ?_
    rw [entering] at own
    contradiction

theorem Enqueues.submits {request : Request} {promise : Option (SharedState α ε)} (enqueues : Enqueues request promise) :
    promise.isSome = true ↔ request = .submit := by
  cases enqueues <;> simp

/-- A call keeps its task or pushes one. -/
theorem Books.task (books : Books s t) {j : Nat} {call : Call} (present : s.calls[j]? = some call) :
    ∃ later, t.calls[j]? = some later ∧ (later.point.task = call.point.task ∨ call.point.task = none ∧
      later.point.task = some s.promises.length ∧ (call.request = .submit → t.promised = s.promised ++ [true])) := by
  cases books with
  | begins request calls =>
    rw [calls]
    exact ⟨call,get_grows present,Or.inl rfl⟩
  | works calls =>
    rw [calls]
    exact ⟨call,present,Or.inl rfl⟩
  | proceeds i moved point found calls _ task =>
    rw [calls]
    by_cases same : i = j
    · subst same
      obtain rfl : moved = call := Option.some.inj (found.symm.trans present)
      exact ⟨_,get_self found,Or.inl task⟩
    · exact ⟨call,(List.getElem?_set_ne same).trans present,Or.inl rfl⟩
  | pushes i moved promise found entering enqueues calls promised =>
    rw [calls]
    by_cases same : i = j
    · subst same
      obtain rfl : moved = call := Option.some.inj (found.symm.trans present)
      refine ⟨_,get_self found,Or.inr ⟨by rw [entering]; rfl,rfl,fun asks => ?_⟩⟩
      rw [promised,enqueues.submits.mpr asks]
    · exact ⟨call,(List.getElem?_set_ne same).trans present,Or.inl rfl⟩

theorem submissions_step (conduct : Conduct s) (submissions : Submissions s) (books : Books s t) : Submissions t := by
  have length := books.promises_le
  have old : Every (fun _ call => ∀ id, call.point.task = some id → call.enqueued ≤ id ∧ id < t.promises.length ∧
      (call.request = .submit → t.promised[id]? = some true)) s.calls := by
    intro j call found id own
    obtain ⟨younger,inside,submits⟩ := submissions.assigned j call found id own
    exact ⟨younger,Nat.lt_of_lt_of_le inside length,fun asks => books.promised_grows (submits asks)⟩
  have kept (id : Nat) (known : s.promised[id]? = some true) :
      ∃ (i : Nat) (call : Call), t.calls[i]? = some call ∧ call.request = .submit ∧ call.point.task = some id := by
    obtain ⟨i,call,found,asks,own⟩ := submissions.submitted id known
    obtain ⟨later,present,follows⟩ := books.follows found
    exact ⟨i,later,present,follows.request.trans asks,follows.task id own⟩
  cases books with
  | begins request calls promised =>
    refine ⟨?_,fun id known => kept id (promised ▸ known)⟩
    rw [calls]
    exact old.append fun id own => by contradiction
  | works calls promised =>
    refine ⟨?_,fun id known => kept id (promised ▸ known)⟩
    rw [calls]
    exact old
  | proceeds i call point found calls promised task =>
    refine ⟨?_,fun id known => kept id (promised ▸ known)⟩
    rw [calls]
    exact old.set fun id own => old i call found id (task ▸ own)
  | pushes i call promise found entering enqueues calls promised =>
    have last : t.promises.length = s.promises.length + 1 := by
      rw [← promised_length t,promised,List.length_append,promised_length]
      rfl
    constructor
    · rw [calls]
      apply old.set
      intro id own
      obtain rfl : s.promises.length = id := Option.some.inj own
      refine ⟨conduct.enqueued i call found,by omega,fun asks => ?_⟩
      rw [promised,enqueues.submits.mpr asks,← promised_length s]
      exact List.getElem?_concat_length
    · intro id known
      rw [promised] at known
      rcases get_append known with earlier | ⟨last,some⟩
      · exact kept id earlier
      · refine ⟨i,{call with point := .fetchAdd s.promises.length},?_,enqueues.submits.mp some.symm,?_⟩
        · rw [calls]
          exact get_self found
        · rw [last,promised_length]
          rfl

structure Kept (platform : Platform ε) (s : State α ε) : Prop extends Sane platform s where
  submissions : Submissions s

theorem kept_step (s : State α ε) (label : Label α ε) (t : State α ε) (kept : Kept platform s)
    (taken : step platform s label = some t) : Kept platform t :=
  ⟨sane_step s label t kept.toSane taken,submissions_step kept.conduct kept.submissions (step_moves taken).books⟩

theorem kept_init (platform : Platform ε) (config : Config) : Kept platform (construct platform config : State α ε) := by
  refine ⟨sane_init platform config,?_⟩
  rw [construct_eq]
  exact ⟨Every.nil _,fun id known => by simp [State.promised,empty] at known⟩

theorem kept_run {config : Config} {labels : List (Label α ε)}
    (reached : run (step platform) (construct platform config) labels = some s) : Kept platform s :=
  run_invariant (Kept platform) kept_step (kept_init platform config) reached

theorem run_follows {labels : List (Label α ε)} (reached : run (step platform) s labels = some t) {j : Nat} {call : Call}
    (present : s.calls[j]? = some call) : ∃ later, t.calls[j]? = some later ∧ Follows call later := by
  refine run_invariant (fun u => ∃ later, u.calls[j]? = some later ∧ Follows call later) ?_
    ⟨call,present,rfl,rfl,fun _ own => own⟩ reached
  intro u label v known taken
  obtain ⟨later,found,follows⟩ := known
  obtain ⟨last,after,again⟩ := (step_moves taken).books.follows found
  exact ⟨last,after,again.request.trans follows.request,again.enqueued.trans follows.enqueued,
    fun id own => again.task id (follows.task id own)⟩

theorem run_calls {labels : List (Label α ε)} (reached : run (step platform) s labels = some t) :
    s.calls.length ≤ t.calls.length := by
  by_contra fewer
  obtain ⟨_,present,_⟩ := run_follows reached (List.getElem?_eq_getElem (Nat.lt_of_not_le fewer))
  exact absurd (get_lt present) (Nat.lt_irrefl _)

/-- A call begun during a run is younger than the tasks there were at its start. -/
theorem run_begun {labels : List (Label α ε)} (reached : run (step platform) s labels = some t) {i : Nat} {call : Call}
    (found : t.calls[i]? = some call) (begun : s.calls.length ≤ i) : s.promises.length ≤ call.enqueued := by
  have every := run_invariant (fun u : State α ε => s.promises.length ≤ u.promises.length ∧
      Every (fun i call => s.calls.length ≤ i → s.promises.length ≤ call.enqueued) u.calls)
    (fun u label v known taken => ?_) ⟨Nat.le_refl _,fun i call found begun => ?_⟩ reached
  · exact every.2 i call found begun
  · obtain ⟨length,young⟩ := known
    have books := (step_moves taken).books
    refine ⟨Nat.le_trans length books.promises_le,?_⟩
    cases books with
    | begins request calls =>
      rw [calls]
      exact young.append fun _ => length
    | works calls =>
      rw [calls]
      exact young
    | proceeds i call point found calls | pushes i call promise found _ _ calls =>
      rw [calls]
      exact young.set (young i call found)
  · exact absurd (get_lt found) (Nat.not_lt.mpr begun)

/-- All a step can do, with the label of a step of a call. -/
theorem step_acts {label : Label α ε} (taken : step platform s label = some t) :
    (∃ i call, label = .call i ∧ s.calls[i]? = some call ∧ CallMoves platform s i call t) ∨
    (∃ i call, label = .fail i ∧ s.calls[i]? = some call ∧ call.point = .entering ∧ CallMoves platform s i call t ∧
      t = s.proceed i call .threw) ∨
    (∃ request, label = .invoke request ∧ t = {s with calls := s.calls ++ [⟨request,s.promises.length,.entering⟩]}) ∨
    ((∀ i, label ≠ .call i) ∧ ∃ k, WorkerMoves platform s k t) := by
  cases label with
  | invoke request =>
    cases taken
    exact Or.inr (Or.inr (Or.inl ⟨request,rfl,rfl⟩))
  | call i =>
    simp only [step] at taken
    split at taken
    next call found => exact Or.inl ⟨i,call,rfl,found,stepCall_moves taken⟩
    next => contradiction
  | fail i =>
    simp only [step] at taken
    split at taken
    next enqueued found =>
      cases taken
      exact Or.inr (Or.inl ⟨i,_,rfl,found,rfl,.proceed _ (.fail (Or.inl rfl)),rfl⟩)
    next enqueued found =>
      cases taken
      exact Or.inr (Or.inl ⟨i,_,rfl,found,rfl,.proceed _ (.fail (Or.inr rfl)),rfl⟩)
    next => contradiction
  | worker k =>
    simp only [step] at taken
    split at taken
    next worker found => exact Or.inr (Or.inr (Or.inr ⟨by simp,k,stepWorker_moves found taken⟩))
    next => contradiction
  | finish k outcome =>
    simp only [step] at taken
    split at taken
    next id found =>
      cases taken
      exact Or.inr (Or.inr (Or.inr ⟨by simp,k,.walk _ _ s.workerActive found (.finish id outcome)⟩))
    next => contradiction

omit [Inhabited α] [Inhabited ε] in
theorem Proceeds.entered {request : Request} {before after : Point} (proceeds : Proceeds s request before after) :
    after ≠ .entering := by
  cases proceeds <;> simp

/-- A step of a call takes it past its entry; it pops and finishes no task. -/
theorem CallMoves.entered {i : Nat} {call : Call} (moves : CallMoves platform s i call t) :
    (∃ point, t.calls = s.calls.set i {call with point := point} ∧ point ≠ .entering) ∧
      t.dequeued = s.dequeued ∧ t.finished = s.finished := by
  cases moves with
  | proceed point proceeds => exact ⟨⟨point,rfl,proceeds.entered⟩,rfl,rfl⟩
  | _ => exact ⟨⟨_,rfl,by simp⟩,rfl,rfl⟩

/-- A step finishes one task at most. -/
theorem finished_step {label : Label α ε} (ledger : Ledger s) (taken : step platform s label = some t) :
    t.finished = s.finished ∨ ∃ entry, t.finished = s.finished ++ [entry] ∧ s.done entry.1 = 0 := by
  cases step_moves taken with
  | invoke => exact Or.inl rfl
  | call i call t found moves => exact Or.inl moves.entered.2.2
  | worker k t moves =>
    cases moves with
    | settle id outcome promise after found => exact Or.inr ⟨_,rfl,(ledger.unfinished found rfl).2⟩
    | _ => exact Or.inl rfl

theorem done_le {label : Label α ε} (ledger : Ledger s) (taken : step platform s label = some t) (id : Nat) :
    s.done id ≤ t.done id := by
  unfold State.done
  rcases finished_step ledger taken with same | ⟨entry,more,_⟩
  · rw [same]
  · rw [more,List.map_append,List.count_append]
    exact Nat.le_add_right _ _

theorem Ledger.done_le_one (ledger : Ledger s) (id : Nat) : s.done id ≤ 1 := by
  have place := ledger.place id
  split at place <;> omega

theorem done_stays {label : Label α ε} {id : Nat} (before : Ledger s) (after : Ledger t)
    (taken : step platform s label = some t) (done : s.done id = 1) : t.done id = 1 :=
  Nat.le_antisymm (after.done_le_one id) (done ▸ done_le before taken id)

theorem discarded_le {label : Label α ε} (taken : step platform s label = some t) (id : Nat) :
    s.discarded.count id ≤ t.discarded.count id := by
  cases step_moves taken with
  | invoke => exact Nat.le_refl _
  | worker k t moves => cases moves <;> exact Nat.le_refl _
  | call i call t found moves =>
    cases moves with
    | clear =>
      change s.discarded.count id ≤ (s.discarded ++ s.taskQueue).count id
      rw [List.count_append]
      exact Nat.le_add_right _ _
    | _ => exact Nat.le_refl _

/-- A task that has left the pool does not come back. -/
theorem vacant_stays {label : Label α ε} {id : Nat} (before : Ledger s) (after : Ledger t)
    (taken : step platform s label = some t) (inside : id < s.promises.length)
    (vacant : id ∉ s.taskQueue ∧ s.held id = 0) : id ∉ t.taskQueue ∧ t.held id = 0 := by
  have place := before.place id
  have later := after.place id
  rw [if_pos inside,List.count_eq_zero.mpr vacant.1,vacant.2] at place
  rw [if_pos (Nat.lt_of_lt_of_le inside (step_moves taken).books.promises_le)] at later
  have done := done_le before taken id
  have discarded := discarded_le taken id
  rw [← List.count_eq_zero]
  omega

/-- The function of the task has returned or thrown. -/
def Ended (s : State α ε) (id : Nat) (outcome : Except ε α) : Prop :=
  (id,outcome) ∈ s.finished ∨ ∃ k : Nat, s.workers[k]? = some (.settle id outcome)

omit [Inhabited α] [Inhabited ε] in
theorem Ended.of_goto {k id : Nat} {after : Worker α ε} {outcome : Except ε α} (ended : Ended (s.goto k after) id outcome)
    (other : after ≠ .settle id outcome) : Ended s id outcome := by
  rcases ended with done | ⟨j,found⟩
  · exact Or.inl done
  · rcases get_set found with ⟨_,same⟩ | ⟨_,kept⟩
    · exact absurd same.symm other
    · exact Or.inr ⟨j,kept⟩

/-- It does so by the step that says how. -/
theorem ended_step {label : Label α ε} {id : Nat} {outcome : Except ε α} (taken : step platform s label = some t)
    (ended : Ended t id outcome) :
    Ended s id outcome ∨ ∃ k, label = .finish k outcome ∧ s.workers[k]? = some (.running id) := by
  cases label with
  | invoke request =>
    cases taken
    exact Or.inl ended
  | call i =>
    simp only [step] at taken
    split at taken
    next call found =>
      have moves := stepCall_moves taken
      unfold Ended at ended
      rw [moves.frame.1,moves.entered.2.2] at ended
      exact Or.inl ended
    next => contradiction
  | fail i =>
    simp only [step] at taken
    split at taken
    next =>
      cases taken
      exact Or.inl ended
    next =>
      cases taken
      exact Or.inl ended
    next => contradiction
  | finish k other =>
    simp only [step] at taken
    split at taken
    next own found =>
      cases taken
      by_cases same : own = id ∧ other = outcome
      · obtain ⟨rfl,rfl⟩ := same
        exact Or.inr ⟨k,rfl,found⟩
      · refine Or.inl (ended.of_goto fun equal => same ?_)
        exact Worker.settle.inj equal
    next => contradiction
  | worker k =>
    simp only [step] at taken
    split at taken
    next worker found =>
      left
      cases stepWorker_moves found taken with
      | walk before after active present walks =>
        refine ended.of_goto fun settles => ?_
        subst settles
        cases walks
        cases found.symm.trans present
        contradiction
      | lock => exact ended.of_goto (by split <;> simp)
      | release before after present releases => exact ended.of_goto (by cases releases <;> simp)
      | settle own result promise after present =>
        rcases ended.of_goto (by simp) with done | settles
        · rcases List.mem_append.mp done with before | own
          · exact Or.inl before
          · cases List.mem_singleton.mp own
            exact Or.inr ⟨k,present⟩
        · exact Or.inr settles
      | _ => exact ended.of_goto (by simp)
    next => contradiction

theorem Ledger.finished_lt (ledger : Ledger s) {id : Nat} {outcome : Except ε α} (done : (id,outcome) ∈ s.finished) :
    id < s.promises.length := by
  have some : 0 < s.done id := List.count_pos_iff.mpr (List.mem_map.mpr ⟨_,done,rfl⟩)
  have place := ledger.place id
  split at place
  next inside => exact inside
  next => omega

theorem Ledger.ended_lt (ledger : Ledger s) {id : Nat} {outcome : Except ε α} (ended : Ended s id outcome) :
    id < s.promises.length := by
  rcases ended with done | ⟨k,found⟩
  · exact ledger.finished_lt done
  · exact (ledger.unfinished found rfl).1

end Ezthread.ThreadPool
