import Ezthread.PoolSubmissions

/-! A call of one of the parallel algorithms on a pool that has other callers: the
caller submits its chunk tasks one after another, waits for their futures and goes
on alone. Every step of the pool but those of the caller itself is anyone's. -/
namespace Ezthread.ForkJoin
open Transition Activation ThreadPool

variable {τ β γ ρ ε : Type*}

/-- What a loop of calls of the user's function does: the arguments it calls it with
and how it ends. -/
structure Work (β ρ ε : Type*) where
  calls : List β
  outcome : Except ε ρ

/-- `for (...) result = body(result, x);` up to the first exception. -/
def rounds (body : ρ → β → Work γ ρ ε) : ρ → List β → Work γ ρ ε
  | result,[] => ⟨[],.ok result⟩
  | result,x :: rest =>
      match (body result x).outcome with
      | .ok next => ⟨(body result x).calls ++ (rounds body next rest).calls,(rounds body next rest).outcome⟩
      | .error ex => ⟨(body result x).calls,.error ex⟩

/-- A round is one call of `func`. -/
def fold (func : ρ → β → Except ε ρ) : ρ → List β → Work β ρ ε := rounds fun result x => ⟨[x],func result x⟩

/-- An algorithm as its caller runs it: the chunk tasks in the order of submission,
what each does, and what is done after the waits, given the tasks in the order they
have finished. On a sequential path there are no tasks. -/
structure Fork (τ β ρ ε : Type*) where
  tasks : List τ
  work : τ → Work β Unit ε
  rest : List τ → Work β ρ ε

/-- `left` holds the tasks not submitted yet, or the futures not waited for yet. -/
inductive Point (τ ρ ε : Type*)
  | submit (left : List τ)
  | submitting (call : Nat) (task : τ) (left : List τ)
  | wait (left : List Nat)
  | threw
  | left (outcome : Except ε ρ)

/-- `futures` holds the number that the task of each future has in the pool. -/
structure State (τ ρ ε : Type*) where
  pool : ThreadPool.State Unit ε
  futures : List (Nat × τ)
  point : Point τ ρ ε

inductive Label (ε : Type*)
  | pool (label : ThreadPool.Label Unit ε)
  | caller

/-- The task that the call of `Submit` in progress has pushed. -/
def State.pushed (s : State τ ρ ε) : Option (Nat × τ) :=
  match s.point with
  | .submitting call task _ => (s.pool.calls[call]?.bind fun call => call.point.task).map fun id => (id,task)
  | _ => none

/-- The chunk tasks in the pool. -/
def State.owned (s : State τ ρ ε) : List (Nat × τ) := s.futures ++ s.pushed.toList

/-- In the order they have finished. -/
def State.finished (s : State τ ρ ε) : List τ := s.pool.finished.filterMap fun entry => s.owned.lookup entry.1

/-- A chunk task ends as its own work does, another one in any way. -/
def State.gives (fork : Fork τ β ρ ε) (s : State τ ρ ε) (k : Nat) (outcome : Except ε Unit) : Except ε Unit :=
  match s.pool.workers[k]? with
  | some (.running id) => (s.owned.lookup id).elim outcome fun task => (fork.work task).outcome
  | _ => outcome

def State.ends (fork : Fork τ β ρ ε) (s : State τ ρ ε) : ThreadPool.Label Unit ε → ThreadPool.Label Unit ε
  | .finish k outcome => .finish k (s.gives fork k outcome)
  | label => label

variable [Inhabited ε]

def stepCaller (platform : Platform ε) (fork : Fork τ β ρ ε) (s : State τ ρ ε) : Option (State τ ρ ε) :=
  match s.point with
  | .submit [] => some {s with point := .wait (s.futures.map Prod.fst)}
  | .submit (task :: left) =>
      (ThreadPool.step platform s.pool (.invoke .submit)).map fun pool =>
        {s with pool := pool, point := .submitting s.pool.calls.length task left}
  | .submitting call task left =>
      match s.pool.calls[call]? with
      | some ⟨_,_,.returned (.future id)⟩ => some {s with futures := s.futures ++ [(id,task)], point := .submit left}
      | some ⟨_,_,.threw⟩ => some {s with point := .threw}
      | _ => none
  | .wait [] => some {s with point := .left (fork.rest s.finished).outcome}
  | .wait (id :: left) =>
      match s.pool.promises[id]? with
      | some (some promise) => if promise.ready then some {s with point := .wait left} else none
      | _ => none
  | .threw | .left _ => none

def step (platform : Platform ε) (fork : Fork τ β ρ ε) (s : State τ ρ ε) : Label ε → Option (State τ ρ ε)
  | .pool label => (ThreadPool.step platform s.pool (s.ends fork label)).map fun pool => {s with pool := pool}
  | .caller => stepCaller platform fork s

/-- The call begins in any state of the pool. -/
def init (fork : Fork τ β ρ ε) (pool : ThreadPool.State Unit ε) : State τ ρ ε := ⟨pool,[],.submit fork.tasks⟩

/-- All a step of the caller can do. -/
inductive CallerMoves (platform : Platform ε) (fork : Fork τ β ρ ε) (s : State τ ρ ε) : State τ ρ ε → Prop
  | join (stands : s.point = .submit []) :
      CallerMoves platform fork s {s with point := .wait (s.futures.map Prod.fst)}
  | submit (task left) (stands : s.point = .submit (task :: left)) :
      CallerMoves platform fork s {s with
        pool := {s.pool with calls := s.pool.calls ++ [⟨.submit,s.pool.promises.length,.entering⟩]}
        point := .submitting s.pool.calls.length task left}
  | push (call task left request enqueued id) (stands : s.point = .submitting call task left)
      (found : s.pool.calls[call]? = some ⟨request,enqueued,.returned (.future id)⟩) :
      CallerMoves platform fork s {s with futures := s.futures ++ [(id,task)], point := .submit left}
  | fail (call task left request enqueued) (stands : s.point = .submitting call task left)
      (found : s.pool.calls[call]? = some ⟨request,enqueued,.threw⟩) :
      CallerMoves platform fork s {s with point := .threw}
  | pass (id left promise) (stands : s.point = .wait (id :: left)) (found : s.pool.promises[id]? = some (some promise))
      (ready : promise.ready = true) : CallerMoves platform fork s {s with point := .wait left}
  | leave (stands : s.point = .wait []) :
      CallerMoves platform fork s {s with point := .left (fork.rest s.finished).outcome}

theorem stepCaller_moves {platform : Platform ε} {fork : Fork τ β ρ ε} {s t : State τ ρ ε}
    (taken : stepCaller platform fork s = some t) : CallerMoves platform fork s t := by
  unfold stepCaller at taken
  split at taken
  next stands =>
    cases taken
    exact .join stands
  next task left stands =>
    cases taken
    exact .submit task left stands
  next call task left stands =>
    split at taken
    next request enqueued id found =>
      cases taken
      exact .push call task left request enqueued id stands found
    next request enqueued found =>
      cases taken
      exact .fail call task left request enqueued stands found
    next => contradiction
  next stands =>
    cases taken
    exact .leave stands
  next id left stands =>
    split at taken
    next promise found =>
      split at taken
      next ready =>
        cases taken
        exact .pass id left promise stands found ready
      next => contradiction
    next => contradiction
  next => contradiction
  next => contradiction

section Lookup
variable {entries : List (Nat × τ)}

theorem lookup_of_mem {id : Nat} {task : τ} (distinct : (entries.map Prod.fst).Nodup) (member : (id,task) ∈ entries) :
    entries.lookup id = some task := by
  obtain ⟨before,after,rfl⟩ := List.append_of_mem member
  refine List.lookup_eq_some_iff.mpr ⟨before,after,rfl,fun entry early => bne_iff_ne.mpr fun same => ?_⟩
  rw [List.map_append,List.map_cons] at distinct
  exact (List.nodup_append.mp distinct).2.2 entry.1 (List.mem_map_of_mem early) id List.mem_cons_self same.symm

theorem mem_of_lookup {id : Nat} {task : τ} (found : entries.lookup id = some task) : (id,task) ∈ entries := by
  obtain ⟨before,after,rfl,_⟩ := List.lookup_eq_some_iff.mp found
  simp

theorem lookup_isSome {id : Nat} : (entries.lookup id).isSome = true ↔ id ∈ entries.map Prod.fst := by
  simp [List.lookup_isSome_iff]

theorem lookups_self (distinct : (entries.map Prod.fst).Nodup) :
    (entries.map Prod.fst).filterMap (fun id => entries.lookup id) = entries.map Prod.snd := by
  rw [List.filterMap_map,← List.filterMap_eq_map]
  refine List.filterMap_congr fun entry member => ?_
  exact lookup_of_mem distinct member

/-- Numbers without repetition that include those of all entries look each entry up
once. -/
theorem lookups_perm {ids : List Nat} (distinct : (entries.map Prod.fst).Nodup) (once : ids.Nodup)
    (all : ∀ id ∈ entries.map Prod.fst, id ∈ ids) :
    (ids.filterMap fun id => entries.lookup id).Perm (entries.map Prod.snd) := by
  have own : (ids.filter fun id => (entries.lookup id).isSome).Perm (entries.map Prod.fst) := by
    refine (List.perm_ext_iff_of_nodup (once.filter _) distinct).mpr fun id => ?_
    rw [List.mem_filter,lookup_isSome]
    exact ⟨And.right,fun member => ⟨all id member,member⟩⟩
  have same : ids.filterMap (fun id => entries.lookup id) =
      (ids.filter fun id => (entries.lookup id).isSome).filterMap fun id => entries.lookup id := by
    rw [List.filterMap_filter]
    refine List.filterMap_congr fun id _ => ?_
    cases entries.lookup id <;> rfl
  rw [same,← lookups_self distinct]
  exact own.filterMap _

end Lookup

variable {platform : Platform ε} {fork : Fork τ β ρ ε} {s t : State τ ρ ε}

/-- How far the caller has come with its tasks. -/
def Planned (fork : Fork τ β ρ ε) (s : State τ ρ ε) : Prop :=
  match s.point with
  | .submit left => s.futures.map Prod.snd ++ left = fork.tasks
  | .submitting call task left => s.futures.map Prod.snd ++ task :: left = fork.tasks ∧
      ∃ own, s.pool.calls[call]? = some own ∧ own.request = .submit
  | .wait left => s.futures.map Prod.snd = fork.tasks ∧
      ∃ waited, waited ++ left = s.futures.map Prod.fst ∧ ∀ id ∈ waited, s.pool.done id = 1
  | .threw => True
  | .left outcome => s.futures.map Prod.snd = fork.tasks ∧ (∀ id ∈ s.futures.map Prod.fst, s.pool.done id = 1) ∧
      outcome = (fork.rest s.finished).outcome

structure Inv (platform : Platform ε) (fork : Fork τ β ρ ε) (s : State τ ρ ε) : Prop where
  kept : Kept platform s.pool
  planned : Planned fork s
  distinct : (s.owned.map Prod.fst).Nodup
  promised : ∀ entry ∈ s.owned, s.pool.promised[entry.1]? = some true
  ends : ∀ entry ∈ s.owned, ∀ outcome, Ended s.pool entry.1 outcome → outcome = (fork.work entry.2).outcome

/-- A step of the pool pushes at most the task of the call in progress. -/
theorem owned_pool {pool : ThreadPool.State Unit ε} (planned : Planned fork s) (books : Books s.pool pool) :
    ({s with pool := pool} : State τ ρ ε).owned = s.owned ∨
    ∃ task, ({s with pool := pool} : State τ ρ ε).owned = s.owned ++ [(s.pool.promises.length,task)] ∧
      pool.promised = s.pool.promised ++ [true] := by
  obtain ⟨before,futures,point⟩ := s
  cases point with
  | submitting call task left =>
    obtain ⟨_,own,present,asks⟩ := planned
    obtain ⟨later,found,same | ⟨none,some,promised⟩⟩ := books.task present
    · left
      simp [State.owned,State.pushed,present,found,same]
    · refine Or.inr ⟨task,?_,promised asks⟩
      simp [State.owned,State.pushed,present,found,none,some]
  | _ => exact Or.inl rfl

omit [Inhabited ε] in
theorem ends_finish {label : ThreadPool.Label Unit ε} {k id : Nat} {outcome : Except ε Unit}
    (same : s.ends fork label = .finish k outcome) (running : s.pool.workers[k]? = some (.running id)) {task : τ}
    (own : s.owned.lookup id = some task) : outcome = (fork.work task).outcome := by
  cases label with
  | finish j other =>
    obtain ⟨rfl,rfl⟩ := ThreadPool.Label.finish.inj same
    simp only [State.gives,running,own,Option.elim_some]
  | _ => contradiction

theorem finished_pool {pool : ThreadPool.State Unit ε} {label : ThreadPool.Label Unit ε} {outcome : Except ε ρ}
    (ledger : Ledger s.pool) (taken : ThreadPool.step platform s.pool label = some pool) (left : s.point = .left outcome)
    (done : ∀ id ∈ s.futures.map Prod.fst, s.pool.done id = 1) :
    ({s with pool := pool} : State τ ρ ε).finished = s.finished := by
  have owned (u : ThreadPool.State Unit ε) : ({s with pool := u} : State τ ρ ε).owned = s.futures := by
    simp [State.owned,State.pushed,left]
  unfold State.finished
  rw [owned pool,owned s.pool]
  rcases finished_step ledger taken with same | ⟨entry,more,fresh⟩
  · rw [same]
  · have other : s.futures.lookup entry.1 = none := by
      cases shape : s.futures.lookup entry.1 with
      | none => rfl
      | some task =>
        have finished := done entry.1 (List.mem_map.mpr ⟨_,mem_of_lookup shape,rfl⟩)
        omega
    rw [more,List.filterMap_append]
    simp [other]

theorem planned_pool {pool : ThreadPool.State Unit ε} {label : ThreadPool.Label Unit ε} (inv : Inv platform fork s)
    (taken : ThreadPool.step platform s.pool label = some pool) : Planned fork ({s with pool := pool} : State τ ρ ε) := by
  have planned := inv.planned
  have kept := kept_step s.pool label pool inv.kept taken
  have stays (id : Nat) (done : s.pool.done id = 1) : pool.done id = 1 :=
    done_stays inv.kept.ledger kept.ledger taken done
  obtain ⟨before,futures,point⟩ := s
  cases point with
  | submit left => exact planned
  | submitting call task left =>
    obtain ⟨plan,own,present,asks⟩ := planned
    obtain ⟨later,found,follows⟩ := (step_moves taken).books.follows present
    exact ⟨plan,later,found,follows.request.trans asks⟩
  | wait left =>
    obtain ⟨plan,waited,whole,done⟩ := planned
    exact ⟨plan,waited,whole,fun id member => stays id (done id member)⟩
  | threw => trivial
  | left outcome =>
    obtain ⟨plan,done,ends⟩ := planned
    refine ⟨plan,fun id member => stays id (done id member),ends.trans ?_⟩
    rw [← finished_pool inv.kept.ledger taken rfl done]

/-- A chunk task whose function has ended after a step was in the pool before it, and
ended or just ending. -/
theorem Inv.ended_pool {pool : ThreadPool.State Unit ε} {label : ThreadPool.Label Unit ε} {entry : Nat × τ}
    {outcome : Except ε Unit} (inv : Inv platform fork s)
    (taken : ThreadPool.step platform s.pool (s.ends fork label) = some pool)
    (member : entry ∈ ({s with pool := pool} : State τ ρ ε).owned) (ended : Ended pool entry.1 outcome) :
    entry ∈ s.owned ∧ (Ended s.pool entry.1 outcome ∨
      ∃ k, s.ends fork label = .finish k outcome ∧ s.pool.workers[k]? = some (.running entry.1)) := by
  have before := ended_step taken ended
  have inside : entry.1 < s.pool.promises.length := by
    rcases before with earlier | ⟨k,_,running⟩
    · exact inv.kept.ledger.ended_lt earlier
    · exact (inv.kept.ledger.unfinished running rfl).1
  refine ⟨?_,before⟩
  rcases owned_pool inv.planned (step_moves taken).books with same | ⟨task,more,_⟩
  · exact same ▸ member
  · rw [more] at member
    rcases List.mem_append.mp member with own | new
    · exact own
    · -- the task has just been pushed
      obtain rfl := List.mem_singleton.mp new
      exact absurd inside (Nat.lt_irrefl _)

theorem inv_pool {pool : ThreadPool.State Unit ε} {label : ThreadPool.Label Unit ε} (inv : Inv platform fork s)
    (taken : ThreadPool.step platform s.pool (s.ends fork label) = some pool) :
    Inv platform fork ({s with pool := pool} : State τ ρ ε) := by
  have books := (step_moves taken).books
  have old (entry : Nat × τ) (member : entry ∈ s.owned) : pool.promised[entry.1]? = some true :=
    books.promised_grows (inv.promised entry member)
  have fresh (entry : Nat × τ) (member : entry ∈ s.owned) : entry.1 < s.pool.promises.length := by
    rw [← promised_length]
    exact get_lt (inv.promised entry member)
  have kept := kept_step s.pool _ pool inv.kept taken
  have planned := planned_pool inv taken
  have ends (entry : Nat × τ) (member : entry ∈ ({s with pool := pool} : State τ ρ ε).owned) (outcome : Except ε Unit)
      (ended : Ended pool entry.1 outcome) : outcome = (fork.work entry.2).outcome := by
    obtain ⟨own,before | ⟨k,same,running⟩⟩ := inv.ended_pool taken member ended
    · exact inv.ends entry own outcome before
    · exact ends_finish same running (lookup_of_mem inv.distinct own)
  rcases owned_pool inv.planned books with same | ⟨task,more,promised⟩
  · refine ⟨kept,planned,?_,?_,ends⟩
    · rw [same]
      exact inv.distinct
    · rw [same]
      exact old
  · refine ⟨kept,planned,?_,?_,ends⟩
    · rw [more,List.map_append]
      refine List.nodup_append.mpr ⟨inv.distinct,List.nodup_singleton _,fun id member last new => ?_⟩
      obtain ⟨entry,own,rfl⟩ := List.mem_map.mp member
      rw [List.mem_singleton.mp new]
      exact Nat.ne_of_lt (fresh entry own)
    · rw [more]
      intro entry member
      rcases List.mem_append.mp member with own | new
      · exact old entry own
      · rw [List.mem_singleton.mp new,promised,← promised_length]
        exact List.getElem?_concat_length

omit [Inhabited ε] in
theorem CallerMoves.owned (moves : CallerMoves platform fork s t) : t.owned = s.owned := by
  cases moves with
  | submit task left stands => simp [State.owned,State.pushed,stands,ThreadPool.Point.task]
  | push call task left request enqueued id stands found =>
    simp [State.owned,State.pushed,stands,found,ThreadPool.Point.task]
  | fail call task left request enqueued stands found =>
    simp [State.owned,State.pushed,stands,found,ThreadPool.Point.task]
  | join stands | pass _ _ _ stands | leave stands => simp [State.owned,State.pushed,stands]

/-- The caller itself only begins calls of `Submit`. -/
theorem CallerMoves.pool (moves : CallerMoves platform fork s t) (kept : Kept platform s.pool) :
    Kept platform t.pool ∧ t.pool.promised = s.pool.promised ∧ t.pool.workers = s.pool.workers ∧
      t.pool.finished = s.pool.finished := by
  cases moves with
  | submit => exact ⟨kept_step s.pool (.invoke .submit) _ kept rfl,rfl,rfl,rfl⟩
  | _ => exact ⟨kept,rfl,rfl,rfl⟩

/-- A task whose future is ready has finished. -/
theorem done_of_ready {id : Nat} {promise : Future.SharedState Unit ε} (ledger : Ledger s.pool)
    (found : s.pool.promises[id]? = some (some promise)) (ready : promise.ready = true) : s.pool.done id = 1 := by
  have most := ledger.done_le_one id
  by_contra other
  obtain rfl := ledger.fresh id promise found (by omega)
  contradiction

theorem planned_caller (inv : Inv platform fork s) (moves : CallerMoves platform fork s t) : Planned fork t := by
  have planned := inv.planned
  unfold Planned at planned
  have same : t.finished = s.finished := by
    unfold State.finished
    rw [moves.owned,(moves.pool inv.kept).2.2.2]
  cases moves with
  | join stands =>
    rw [stands] at planned
    exact ⟨by simpa using planned,[],rfl,by simp⟩
  | submit task left stands =>
    rw [stands] at planned
    exact ⟨planned,_,List.getElem?_concat_length,rfl⟩
  | push call task left request enqueued id stands found =>
    rw [stands] at planned
    exact (by simpa using planned.1 : (s.futures ++ [(id,task)]).map Prod.snd ++ left = fork.tasks)
  | fail => trivial
  | pass id left promise stands found ready =>
    rw [stands] at planned
    obtain ⟨plan,waited,whole,done⟩ := planned
    refine ⟨plan,waited ++ [id],by simpa using whole,fun other member => ?_⟩
    rcases List.mem_append.mp member with earlier | own
    · exact done other earlier
    · rw [List.mem_singleton.mp own]
      exact done_of_ready inv.kept.ledger found ready
  | leave stands =>
    rw [stands] at planned
    obtain ⟨plan,waited,whole,done⟩ := planned
    rw [List.append_nil] at whole
    exact ⟨plan,fun id member => done id (whole ▸ member),congrArg (fun order => (fork.rest order).outcome) same.symm⟩

theorem inv_caller (inv : Inv platform fork s) (moves : CallerMoves platform fork s t) : Inv platform fork t := by
  obtain ⟨kept,promised,workers,finished⟩ := moves.pool inv.kept
  refine ⟨kept,planned_caller inv moves,?_,?_,?_⟩
  · rw [moves.owned]
    exact inv.distinct
  · rw [moves.owned,promised]
    exact inv.promised
  · unfold Ended
    rw [moves.owned,workers,finished]
    exact inv.ends

theorem inv_step (s : State τ ρ ε) (label : Label ε) (t : State τ ρ ε) (inv : Inv platform fork s)
    (taken : step platform fork s label = some t) : Inv platform fork t := by
  cases label with
  | pool label =>
    obtain ⟨pool,stepped,rfl⟩ := Option.map_eq_some_iff.mp taken
    exact inv_pool inv stepped
  | caller => exact inv_caller inv (stepCaller_moves taken)

theorem inv_init {pool : ThreadPool.State Unit ε} (kept : Kept platform pool) :
    Inv platform fork (init fork pool) :=
  ⟨kept,rfl,List.nodup_nil,by simp [State.owned,State.pushed,init],by simp [State.owned,State.pushed,init]⟩

/-- The call is made on a pool in any state it can be in. -/
theorem inv_run {config : Config} {pool : ThreadPool.State Unit ε} {before : List (ThreadPool.Label Unit ε)}
    {labels : List (Label ε)} (built : run (ThreadPool.step platform) (construct platform config) before = some pool)
    (reached : run (step platform fork) (init fork pool) labels = some s) : Inv platform fork s :=
  run_invariant (Inv platform fork) inv_step (inv_init (kept_run built)) reached

def Point.unsubmitted : Point τ ρ ε → List τ
  | .submit tasks => tasks
  | .submitting _ task tasks => task :: tasks
  | _ => []

/-- The caller submits nothing but its tasks. -/
def Belongs (fork : Fork τ β ρ ε) (s : State τ ρ ε) : Prop :=
  (∀ entry ∈ s.futures, entry.2 ∈ fork.tasks) ∧ ∀ task ∈ s.point.unsubmitted, task ∈ fork.tasks

omit [Inhabited ε] in
theorem Belongs.owned (belongs : Belongs fork s) : ∀ entry ∈ s.owned, entry.2 ∈ fork.tasks := by
  intro entry member
  rcases List.mem_append.mp member with future | pushed
  · exact belongs.1 entry future
  · obtain ⟨pool,futures,point⟩ := s
    cases point with
    | submitting call task left =>
      obtain ⟨id,_,rfl⟩ := Option.map_eq_some_iff.mp (Option.mem_toList.mp pushed)
      exact belongs.2 task List.mem_cons_self
    | _ => contradiction

omit [Inhabited ε] in
theorem CallerMoves.belongs (moves : CallerMoves platform fork s t) (belongs : Belongs fork s) : Belongs fork t := by
  obtain ⟨futures,unsubmitted⟩ := belongs
  cases moves with
  | submit task left stands =>
    rw [stands] at unsubmitted
    exact ⟨futures,unsubmitted⟩
  | push call task left request enqueued id stands found =>
    rw [stands] at unsubmitted
    obtain ⟨own,rest⟩ := List.forall_mem_cons.mp unsubmitted
    refine ⟨fun entry member => ?_,rest⟩
    rcases List.mem_append.mp member with old | new
    · exact futures entry old
    · rw [List.mem_singleton.mp new]
      exact own
  | join | fail | pass | leave => exact ⟨futures,by simp [Point.unsubmitted]⟩

theorem belongs_step {label : Label ε} (belongs : Belongs fork s) (taken : step platform fork s label = some t) :
    Belongs fork t := by
  cases label with
  | pool label =>
    obtain ⟨pool,_,rfl⟩ := Option.map_eq_some_iff.mp taken
    exact belongs
  | caller => exact (stepCaller_moves taken).belongs belongs

/-- The caller has left by itself. -/
def State.ended (s : State τ ρ ε) : Bool :=
  match s.point with
  | .left _ => true
  | _ => false

omit [Inhabited ε] in
theorem ended_iff : s.ended = true ↔ ∃ outcome, s.point = .left outcome := by
  unfold State.ended
  split
  next outcome stands => exact ⟨fun _ => ⟨outcome,stands⟩,fun _ => rfl⟩
  next other => exact ⟨fun given => by contradiction,fun given => absurd given.choose_spec (other _)⟩

omit [Inhabited ε] in
theorem State.owned_left {outcome : Except ε ρ} (left : s.point = .left outcome) : s.owned = s.futures := by
  simp [State.owned,State.pushed,left]

/-- The tasks whose functions have been called, in order. -/
def State.started (s : State τ ρ ε) : List τ := s.pool.executed.filterMap fun id => s.owned.lookup id

/-- The calls of the user's function: those of the tasks, then the caller's own. -/
def State.called (fork : Fork τ β ρ ε) (s : State τ ρ ε) : List β :=
  s.started.flatMap (fun task => (fork.work task).calls) ++
    match s.point with
    | .left _ => (fork.rest s.finished).calls
    | _ => []

/-- When the caller has left by itself every task has finished, and been executed,
once. -/
theorem Inv.left {outcome : Except ε ρ} (inv : Inv platform fork s) (left : s.point = .left outcome) :
    s.finished.Perm fork.tasks ∧ s.started.Perm fork.tasks ∧ outcome = (fork.rest s.finished).outcome := by
  have planned := inv.planned
  unfold Planned at planned
  rw [left] at planned
  obtain ⟨plan,done,ends⟩ := planned
  have distinct := inv.distinct
  rw [State.owned_left left] at distinct
  have ledger := inv.kept.ledger
  have owned := State.owned_left left
  refine ⟨?_,?_,ends⟩
  · have once : (s.pool.finished.map Prod.fst).Nodup := List.nodup_iff_count_le_one.mpr ledger.done_le_one
    have found := lookups_perm distinct once fun id member =>
      List.count_pos_iff.mp (Nat.lt_of_lt_of_eq Nat.zero_lt_one (done id member).symm)
    rw [List.filterMap_map,plan,← owned] at found
    exact found
  · have once : s.pool.executed.Nodup := by
      refine List.nodup_iff_count_le_one.mpr fun id => ?_
      have single := ledger.executed_once id
      omega
    have found := lookups_perm distinct once fun id member => by
      have ran := ledger.executed id
      have finished := done id member
      exact List.count_pos_iff.mp (by omega)
    rw [plan,← owned] at found
    exact found

theorem Inv.called {outcome : Except ε ρ} (inv : Inv platform fork s) (left : s.point = .left outcome) :
    (s.called fork).Perm (fork.tasks.flatMap (fun task => (fork.work task).calls) ++ (fork.rest s.finished).calls) := by
  unfold State.called
  rw [left]
  exact ((inv.left left).2.1.flatMap_right _).append_right _

end Ezthread.ForkJoin
