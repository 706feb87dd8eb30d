import Ezthread.Algorithms
import Ezthread.ParallelSort

/-! How the parallel algorithms are left: what becomes of their chunk tasks when a
`Submit` throws, and of the exceptions of the user's function. -/
namespace Ezthread.ForkJoin
open Transition Activation ThreadPool

variable {τ β ρ ε : Type*} {s t : State τ ρ ε}

/-- No chunk task is queued or running. -/
def Vacant (s : State τ ρ ε) : Prop := ∀ entry ∈ s.owned, entry.1 ∉ s.pool.taskQueue ∧ s.pool.held entry.1 = 0

def State.gone (s : State τ ρ ε) : Bool :=
  match s.point with
  | .threw | .left _ => true
  | _ => false

/-- The call of `Submit` in progress has thrown. -/
def State.failing (s : State τ ρ ε) : Bool :=
  match s.point with
  | .submitting call _ _ =>
      match s.pool.calls[call]? with
      | some ⟨_,_,.threw⟩ => true
      | _ => false
  | _ => false

def Vacated (s : State τ ρ ε) : Prop := s.gone = true → Vacant s

/-- Of the call's `Submit`s only those at the places of `fails` throw. -/
def Throws (fails : Nat → Prop) (s : State τ ρ ε) : Label ε → Prop
  | .caller => s.failing = true → fails s.futures.length
  | .pool _ => True

/-- None of the places at which the call submits a task is one of `fails`, but for
the first. -/
def FirstAlone (fork : Fork τ β ρ ε) (fails : Nat → Prop) : Prop := ∀ i, fails i → i < fork.tasks.length → i = 0

instance (s : State τ ρ ε) : Decidable (Vacant s) := inferInstanceAs (Decidable (∀ _ ∈ _, _))

instance (s : State τ ρ ε) : Decidable (Vacated s) := inferInstanceAs (Decidable (_ → _))

variable [Inhabited ε] {platform : Platform ε} {fork : Fork τ β ρ ε}

omit [Inhabited ε] in
theorem owned_gone (gone : s.gone = true) : s.owned = s.futures := by
  unfold State.gone at gone
  unfold State.owned State.pushed
  split at gone
  next stands => rw [stands,Option.toList_none,List.append_nil]
  next outcome stands => rw [stands,Option.toList_none,List.append_nil]
  next => contradiction

/-- After the waits every chunk task has finished. -/
theorem Inv.vacant {outcome : Except ε ρ} (inv : Inv platform fork s) (left : s.point = .left outcome) : Vacant s := by
  have planned := inv.planned
  unfold Planned at planned
  rw [left] at planned
  intro entry member
  have place := inv.kept.ledger.place entry.1
  have done := planned.2.1 entry.1 (List.mem_map_of_mem (State.owned_left left ▸ member))
  rw [← List.count_eq_zero]
  split at place <;> omega

omit [Inhabited ε] in
/-- When the first `Submit` throws there is no chunk task yet. -/
theorem owned_failing (none : s.futures = []) (failing : s.failing = true) : s.owned = [] := by
  unfold State.failing at failing
  split at failing
  next call task left stands =>
    split at failing
    next request enqueued found => simp [State.owned,State.pushed,none,stands,found,ThreadPool.Point.task]
    next => contradiction
  next => contradiction

theorem vacated_step {fails : Nat → Prop} (alone : FirstAlone fork fails) (s : State τ ρ ε) (label : Label ε)
    (t : State τ ρ ε) (inv : Inv platform fork s ∧ Vacated s) (throws : Throws fails s label)
    (taken : step platform fork s label = some t) : Inv platform fork t ∧ Vacated t := by
  obtain ⟨inv,vacated⟩ := inv
  have after := inv_step s label t inv taken
  refine ⟨after,fun gone => ?_⟩
  cases label with
  | pool label =>
    obtain ⟨pool,stepped,rfl⟩ := Option.map_eq_some_iff.mp taken
    intro entry member
    rw [owned_gone gone,← owned_gone (s := s) gone] at member
    have inside := get_lt (inv.promised entry member)
    rw [promised_length] at inside
    exact vacant_stays inv.kept.ledger after.kept.ledger stepped inside (vacated gone entry member)
  | caller =>
    have moves := stepCaller_moves taken
    have owned := moves.owned
    cases moves with
    | fail call task left request enqueued stands found =>
      have failing : s.failing = true := by simp [State.failing,stands,found]
      have planned := inv.planned
      unfold Planned at planned
      rw [stands] at planned
      have place : s.futures.length < fork.tasks.length := by simp [← planned.1]
      have first := alone _ (throws failing) place
      intro entry member
      rw [owned,owned_failing (List.length_eq_zero_iff.mp first) failing] at member
      contradiction
    | leave => exact after.vacant rfl
    | join | submit | push | pass => contradiction

section Leaving
variable {i : Nat} {fails : Nat → Prop} {labels : List (Label ε)}

/-- As long as none of its `Submit`s has thrown, it does not matter which may. -/
theorem obeys_unthrown (reached : run (step platform fork) s labels = some t) (unthrown : t.point ≠ .threw) :
    Obeys (step platform fork) (Throws fails) s labels := by
  have breach (u : State τ ρ ε) (label : Label ε) (v : State τ ρ ε) (_ : True) (broken : ¬ Throws fails u label)
      (taken : step platform fork u label = some v) : v.point = .threw := by
    cases label with
    | pool => exact absurd trivial broken
    | caller =>
      have failing : u.failing = true := by
        by_contra quiet
        exact broken fun own => absurd own quiet
      unfold State.failing at failing
      cases stepCaller_moves taken with
      | fail => rfl
      | push call task left request enqueued id stands found => simp [stands,found] at failing
      | join stands | submit _ _ stands | pass _ _ _ stands | leave stands => simp [stands] at failing
  have persists (u : State τ ρ ε) (label : Label ε) (v : State τ ρ ε) (_ : True) (threw : u.point = .threw)
      (taken : step platform fork u label = some v) : v.point = .threw := by
    cases label with
    | pool label =>
      obtain ⟨pool,_,rfl⟩ := Option.map_eq_some_iff.mp taken
      exact threw
    | caller => simp [step,stepCaller,threw] at taken
  exact obeys_of_last (fun _ => True) (fun _ _ _ _ _ => trivial) breach persists trivial reached unthrown

/-- The first `i` chunk tasks are in the queue, and no other task. -/
structure Queued (i : Nat) (pool : ThreadPool.State Unit ε) (futures : List (Nat × τ)) : Prop where
  count : futures.length = i
  free : pool.queueMutex = none
  queue : pool.taskQueue = futures.map Prod.fst

variable {pool : ThreadPool.State Unit ε} {futures : List (Nat × τ)}

/-- One round of the loop in which no worker takes a step. -/
theorem Queued.submits (queued : Queued i pool futures) (inside : i < fork.tasks.length) (room : i + 1 < 2 ^ platform.width) :
    ∃ labels more longer, run (step platform fork) ⟨pool,futures,.submit (fork.tasks.drop i)⟩ labels =
      some ⟨more,longer,.submit (fork.tasks.drop (i + 1))⟩ ∧ Queued (i + 1) more longer := by
  have free := queued.free
  have space : pool.taskQueue.length + 1 < 2 ^ platform.width := by rwa [queued.queue,List.length_map,queued.count]
  refine ⟨[.caller,.pool (.call pool.calls.length),.pool (.call pool.calls.length),.pool (.call pool.calls.length),
    .pool (.call pool.calls.length),.caller],
    {pool with
      queueMutex := none
      taskQueue := pool.taskQueue ++ [pool.promises.length]
      pendingTasks := (pool.pendingTasks + 1) % 2 ^ platform.width
      calls := pool.calls ++ [⟨.submit,pool.promises.length,.returned (.future pool.promises.length)⟩]
      promises := pool.promises ++ [some Future.SharedState.new]},
    futures ++ [(pool.promises.length,fork.tasks[i])],?_,?_⟩
  · rw [List.drop_eq_getElem_cons inside]
    simp [run,step,stepCaller,State.ends,ThreadPool.step,stepCall,push,free,space,ThreadPool.State.proceed,Request.enqueued]
  · exact ⟨by simp [queued.count],rfl,by simp [queued.queue]⟩

theorem queued_reached (fork : Fork τ β ρ ε) (free : pool.queueMutex = none) (empty : pool.taskQueue = [])
    (inside : i ≤ fork.tasks.length) (room : i < 2 ^ platform.width) :
    ∃ labels more futures, run (step platform fork) (init fork pool) labels =
      some ⟨more,futures,.submit (fork.tasks.drop i)⟩ ∧ Queued i more futures := by
  induction i with
  | zero => exact ⟨[],pool,[],rfl,rfl,free,empty⟩
  | succ i ih =>
    obtain ⟨labels,_,_,reached,queued⟩ := ih (by omega) (by omega)
    obtain ⟨next,more,futures,submits,after⟩ := queued.submits inside room
    exact ⟨labels ++ next,more,futures,run_trans reached submits,after⟩

/-- Then the next `Submit` throws. -/
theorem Queued.leaves (queued : Queued i pool futures) (inside : i < fork.tasks.length) (may : fails i) :
    ∃ labels more, run (step platform fork) ⟨pool,futures,.submit (fork.tasks.drop i)⟩ labels = some ⟨more,futures,.threw⟩ ∧
      Obeys (step platform fork) (Throws fails) ⟨pool,futures,.submit (fork.tasks.drop i)⟩ labels ∧
      more.taskQueue = pool.taskQueue := by
  rw [List.drop_eq_getElem_cons inside]
  generalize fork.tasks[i] = task
  generalize fork.tasks.drop (i + 1) = left
  let calling (point : ThreadPool.Point) : ThreadPool.State Unit ε :=
    {pool with calls := pool.calls ++ [⟨.submit,pool.promises.length,point⟩]}
  have begins : step platform fork ⟨pool,futures,.submit (task :: left)⟩ .caller =
      some ⟨calling .entering,futures,.submitting pool.calls.length task left⟩ := rfl
  have throws : step platform fork ⟨calling .entering,futures,.submitting pool.calls.length task left⟩
      (.pool (.fail pool.calls.length)) = some ⟨calling .threw,futures,.submitting pool.calls.length task left⟩ := by
    simp [calling,step,State.ends,ThreadPool.step,ThreadPool.State.proceed]
  have exits : step platform fork ⟨calling .threw,futures,.submitting pool.calls.length task left⟩ .caller =
      some ⟨calling .threw,futures,.threw⟩ := by
    simp [calling,step,stepCaller]
  refine ⟨[.caller,.pool (.fail pool.calls.length),.caller],_,run_step begins (run_step throws (run_step exits rfl)),?_,rfl⟩
  refine ⟨fun failing => absurd failing Bool.false_ne_true,fun next taken => ?_⟩
  obtain rfl := Option.some.inj (begins.symm.trans taken)
  refine ⟨trivial,fun next taken => ?_⟩
  obtain rfl := Option.some.inj (throws.symm.trans taken)
  exact ⟨fun _ => queued.count.symm ▸ may,fun _ _ => trivial⟩

end Leaving

/-- However it is scheduled, the call leaves no chunk task behind if of its `Submit`s
only those at the places of `fails` may throw. -/
def Vacates (platform : Platform ε) (config : Config) (fork : Fork τ β ρ ε) (fails : Nat → Prop) : Prop :=
  ∀ (before : List (ThreadPool.Label Unit ε)) (pool : ThreadPool.State Unit ε) (labels : List (Label ε)),
    run (ThreadPool.step platform) (construct platform config) before = some pool →
      Obeys (step platform fork) (Throws fails) (init fork pool) labels →
        Along (step platform fork) Vacated (init fork pool) labels

theorem vacates_of_first {config : Config} {fails : Nat → Prop} (alone : FirstAlone fork fails) :
    Vacates platform config fork fails := by
  intro before pool labels built obeyed
  exact along_obeying (fun s => Inv platform fork s ∧ Vacated s) (vacated_step alone) (fun _ inv => inv.2)
    ⟨inv_init (kept_run built),by simp [Vacated,State.gone,init]⟩ obeyed

/-- If another `Submit` than the first may throw, on a new pool it does before any
worker has taken a step. -/
theorem first_of_vacates {config : Config} {fails : Nat → Prop} (room : fork.tasks.length ≤ 2 ^ platform.width)
    (vacates : Vacates platform config fork fails) : FirstAlone fork fails := by
  intro i may inside
  by_contra later
  have free : (construct platform config : ThreadPool.State Unit ε).queueMutex = none := by rw [construct_eq]; rfl
  have empty : (construct platform config : ThreadPool.State Unit ε).taskQueue = [] := by rw [construct_eq]; rfl
  obtain ⟨labels,more,futures,reached,queued⟩ := queued_reached fork free empty (Nat.le_of_lt inside)
    (Nat.lt_of_lt_of_le inside room)
  obtain ⟨next,last,leaves,throws,queue⟩ := queued.leaves inside may
  have obeyed := obeys_append (obeys_unthrown reached nofun) reached throws
  have vacated := along_last (vacates [] _ (labels ++ next) rfl obeyed) (run_trans reached leaves)
  obtain ⟨entry,rest,rfl⟩ := List.exists_cons_of_length_pos (show 0 < futures.length by rw [queued.count]; omega)
  have left := (vacated rfl entry List.mem_cons_self).1
  exact left (by rw [queue,queued.queue]; exact List.mem_cons_self)

/-- An exception that a call of the user's function has thrown: a task, or what the
caller does by itself, ends with no other. -/
def Thrown (fork : Fork τ β ρ ε) (s : State τ ρ ε) (ex : ε) : Prop :=
  (∃ task ∈ s.finished, (fork.work task).outcome = .error ex) ∨
    ∃ outcome, s.point = .left outcome ∧ (fork.rest s.finished).outcome = .error ex

/-- If the user's function has thrown, so does the algorithm. -/
def Agrees (fork : Fork τ β ρ ε) (s : State τ ρ ε) : Prop :=
  (∃ ex, Thrown fork s ex) → ∃ ex, s.point = .left (.error ex) ∧ Thrown fork s ex

/-- Nothing that a task throws reaches the caller. -/
theorem Inv.agrees_iff {outcome : Except ε ρ} (inv : Inv platform fork s) (left : s.point = .left outcome) :
    Agrees fork s ↔ (∀ task ∈ fork.tasks, ∀ ex, (fork.work task).outcome ≠ .error ex) ∨
      ∃ ex, (fork.rest s.finished).outcome = .error ex := by
  obtain ⟨finished,_,ends⟩ := inv.left left
  constructor
  · intro agrees
    by_cases fails : ∃ ex, (fork.rest s.finished).outcome = .error ex
    · exact Or.inr fails
    · refine Or.inl fun task member ex throws => ?_
      obtain ⟨other,exits,_⟩ := agrees ⟨ex,Or.inl ⟨task,finished.symm.subset member,throws⟩⟩
      obtain rfl : outcome = .error other := Point.left.inj (left.symm.trans exits)
      exact fails ⟨other,ends.symm⟩
  · intro either thrown
    have exits (ex : ε) (fails : (fork.rest s.finished).outcome = .error ex) :
        ∃ ex, s.point = .left (.error ex) ∧ Thrown fork s ex :=
      ⟨ex,by rw [left,ends,fails],Or.inr ⟨outcome,left,fails⟩⟩
    rcases either with quiet | ⟨ex,fails⟩
    · obtain ⟨ex,⟨task,member,throws⟩ | ⟨_,_,fails⟩⟩ := thrown
      · exact absurd throws (quiet task (finished.subset member) ex)
      · exact exits ex fails
    · exact exits ex fails

/-- In every run in which the call comes to its end. -/
def AgreesIff (platform : Platform ε) (pool : ThreadPool.State Unit ε) (fork : Fork τ β ρ ε) (condition : Prop) : Prop :=
  ∀ (labels : List (Label ε)) (s : State τ ρ ε) (outcome : Except ε ρ),
    run (step platform fork) (init fork pool) labels = some s → s.point = .left outcome → (Agrees fork s ↔ condition)

end Ezthread.ForkJoin

namespace Ezthread.Algorithms
open Transition Chunks ForkJoin ThreadPool

variable {α β γ ρ ε : Type*}

theorem loop_throws {body : β → Work γ Unit ε} {range : List β} :
    (∀ ex, (loop body range).outcome ≠ .error ex) ↔ ∀ x ∈ range, ∀ ex, (body x).outcome ≠ .error ex := by
  unfold loop
  induction range with
  | nil => simp [rounds]
  | cons x rest ih =>
    rw [List.forall_mem_cons,rounds]
    cases shape : (body x).outcome with
    | ok next => simpa using ih
    | error ex => simp

theorem advance_throws {range : List α} {func : α → Except ε Unit} {chunk : Chunk} :
    (∀ index ∈ indices chunk, ∀ ex, (advance range func index).outcome ≠ .error ex) ↔
      ∀ x ∈ slice range chunk, ∀ ex, func x ≠ .error ex := by
  rw [slice,← elements_slice]
  constructor
  · intro quiet x member ex
    obtain ⟨index,inside,found⟩ := List.mem_filterMap.mp member
    have own := quiet index inside ex
    simpa only [advance,found,call] using own
  · intro quiet index inside ex
    unfold advance
    split
    next x found => exact quiet x (List.mem_filterMap.mpr ⟨index,inside,found⟩) ex
    next => exact fun given => by contradiction

section Room
variable {w : Nat}

/-- A call has no more tasks than a `size_t` can count. -/
theorem parallelFor_room {maxThreads start stop : Nat} {func : Nat → Except ε Unit} (fits : stop < 2 ^ w) :
    (parallelFor w maxThreads start stop func).tasks.length ≤ 2 ^ w := by
  unfold parallelFor parallelLoop
  dsimp only
  split
  next => exact Nat.zero_le _
  next =>
    split
    next => exact Nat.zero_le _
    next =>
      have few := submitFrom_length w start stop (Reduce.chunkSize w (stop - start) (min maxThreads (stop - start)))
        (min maxThreads (stop - start)) 0
      have most : min maxThreads (stop - start) ≤ stop - start := Nat.min_le_right _ _
      dsimp only
      omega

theorem reduce_room {threads : Option Nat} {initial : α} {range : List α} {func : α → α → Except ε α}
    (fits : range.length < 2 ^ w) : (reduce w threads initial range func).tasks.length ≤ 2 ^ w := by
  unfold reduce
  dsimp only
  split
  next => exact Nat.zero_le _
  next =>
    split
    next => exact Nat.zero_le _
    next several =>
      have few := Reduce.submitted_length w range.length (Reduce.numThreads threads range.length)
      have most := Reduce.numThreads_le several
      exact Nat.le_trans few (by omega)

theorem sort_room {threads : Option Nat} {size : Nat} {whole : Except ε Unit} {sorts : Chunk → Except ε Unit}
    {merges : List Chunk → Except ε Unit} (fits : size < 2 ^ w) :
    (sort w threads size whole sorts merges).tasks.length ≤ 2 ^ w := by
  unfold sort
  split
  next => exact Nat.zero_le _
  next =>
    split
    next => exact Nat.zero_le _
    next hardware =>
      dsimp only
      split
      next => exact Nat.zero_le _
      next =>
        have few := Reduce.submitted_length w size (min hardware (size / 1000))
        have most : min hardware (size / 1000) ≤ size / 1000 := Nat.min_le_right _ _
        have less := Nat.div_le_self size 1000
        exact Nat.le_trans few (by omega)

end Room

variable [Inhabited ε] {platform : Platform ε} {config : Config} {pool : ThreadPool.State Unit ε}
  {before : List (ThreadPool.Label Unit ε)}

theorem agreesIff_sequential {work : Work β ρ ε} {condition : Prop}
    (built : run (ThreadPool.step platform) (construct platform config) before = some pool) (always : condition) :
    AgreesIff platform pool (sequential work) condition := by
  intro labels s outcome reached left
  rw [(inv_run built reached).agrees_iff left]
  exact ⟨fun _ => always,fun _ => Or.inl nofun⟩

/-- With more than one thread the tasks alone matter, for nothing else can throw. -/
theorem agreesIff_tasks {tasks : List Chunk} {work : Chunk → Work β Unit ε} {condition : Prop}
    (built : run (ThreadPool.step platform) (construct platform config) before = some pool)
    (quiet : (∀ chunk ∈ tasks, ∀ ex, (work chunk).outcome ≠ .error ex) ↔ condition) :
    AgreesIff platform pool ⟨tasks,work,fun _ => ⟨[],.ok ()⟩⟩ condition := by
  intro labels s outcome reached left
  rw [(inv_run built reached).agrees_iff left,← quiet]
  exact or_iff_left nofun

theorem parallelFor_agrees (built : run (ThreadPool.step platform) (construct platform config) before = some pool)
    (w maxThreads start stop : Nat) (func : Nat → Except ε Unit) :
    AgreesIff platform pool (parallelFor w maxThreads start stop func)
      (min maxThreads (stop - start) ≤ 1 ∨
        ∀ chunk ∈ submitFrom w start stop (Reduce.chunkSize w (stop - start) (min maxThreads (stop - start)))
          (min maxThreads (stop - start)) 0, ∀ j ∈ indices chunk, ∀ ex, func j ≠ .error ex) := by
  unfold parallelFor parallelLoop
  dsimp only
  split
  next empty => exact agreesIff_sequential built (Or.inl (by omega))
  next =>
    split
    next single => exact agreesIff_sequential built (Or.inl single)
    next several =>
      refine agreesIff_tasks built ?_
      rw [or_iff_right several]
      exact forall₂_congr fun chunk _ => loop_throws

/-- `ForEach` has a pool and cuts the range. -/
def Several (pool : Option Nat) (distance : Nat) : Prop := ∃ maxThreads, pool = some maxThreads ∧ 1 < min maxThreads distance

theorem forEach_agrees (built : run (ThreadPool.step platform) (construct platform config) before = some pool) {w : Nat}
    (threads : Option Nat) {range : List α} (func : α → Except ε Unit) (fits : range.length < 2 ^ (w - 1)) :
    AgreesIff platform pool (forEach w threads range func)
      (¬ Several threads range.length ∨ ∀ x ∈ range, ∀ ex, func x ≠ .error ex) := by
  cases threads with
  | none =>
    rw [forEach_alone]
    exact agreesIff_sequential built (Or.inl fun several => by obtain ⟨_,none,_⟩ := several; contradiction)
  | some maxThreads =>
    rcases Nat.lt_or_ge 1 (min maxThreads range.length) with several | single
    · rw [forEach_chunks func several]
      refine agreesIff_tasks built ?_
      have cut : ¬ ¬ Several (some maxThreads) range.length := not_not.mpr ⟨maxThreads,rfl,several⟩
      have whole := (several_span several fits).slices range
      rw [Nat.sub_zero,List.drop_zero,List.take_length] at whole
      rw [or_iff_right cut]
      constructor
      · intro quiet x member ex
        rw [← whole] at member
        obtain ⟨part,inside,own⟩ := List.mem_flatten.mp member
        obtain ⟨chunk,submitted,rfl⟩ := List.mem_map.mp inside
        exact advance_throws.mp (loop_throws.mp (quiet chunk submitted)) x own ex
      · intro quiet chunk submitted
        refine loop_throws.mpr (advance_throws.mpr fun x own => quiet x ?_)
        rw [← whole]
        exact List.mem_flatten.mpr ⟨_,List.mem_map_of_mem submitted,own⟩
    · rw [forEach_single func single]
      refine agreesIff_sequential built (Or.inl fun several => ?_)
      obtain ⟨_,same,many⟩ := several
      cases same
      omega

omit [Inhabited ε] in
theorem map_throws {result : Except ε α} {ex : ε} : result.map (fun _ => ()) = .error ex ↔ result = .error ex := by
  cases result <;> simp [Except.map]

theorem reduce_agrees (built : run (ThreadPool.step platform) (construct platform config) before = some pool) {w : Nat}
    (threads : Option Nat) (initial : α) {range : List α} (func : α → α → Except ε α) (fits : range.length < 2 ^ (w - 1)) :
    AgreesIff platform pool (reduce w threads initial range func)
      (Reduce.numThreads threads range.length ≤ 1 ∨
        (∀ chunk ∈ Reduce.submitted w range.length (Reduce.numThreads threads range.length),
          ∀ ex, (fold func initial (slice range chunk)).outcome ≠ .error ex) ∨
        ∃ ex, (fold func initial (partialResults func initial range (Reduce.numThreads threads range.length)
          (Reduce.submitted w range.length (Reduce.numThreads threads range.length)))).outcome = .error ex) := by
  unfold reduce
  dsimp only
  split
  next empty =>
    refine agreesIff_sequential built (Or.inl ?_)
    rw [empty]
    cases threads <;> simp [Reduce.numThreads]
  next occupied =>
    split
    next single => exact agreesIff_sequential built (Or.inl single)
    next several =>
      intro labels s outcome reached left
      have inv := inv_run built reached
      have span := Reduce.submitted_span (Nat.lt_of_not_le several) (Reduce.numThreads_le several) fits
        (Reduce.wide_of_fits fits (Nat.pos_of_ne_zero occupied))
      rw [inv.agrees_iff left,or_iff_right several]
      refine or_congr (forall₂_congr fun chunk _ => forall_congr' fun ex => not_congr map_throws) ?_
      have same : partialResults func initial range (Reduce.numThreads threads range.length) s.finished =
          partialResults func initial range (Reduce.numThreads threads range.length)
            (Reduce.submitted w range.length (Reduce.numThreads threads range.length)) :=
        store_any_order span (inv.left left).1 _ _
      exact exists_congr fun ex => iff_of_eq (congrArg (fun results => (fold func initial results).outcome = .error ex) same)

/-- The path with chunks and the sequential one agree on failure exactly where no
chunk task throws, or in `Reduce` where the last fold throws as well. -/
theorem agreement_iff (built : run (ThreadPool.step platform) (construct platform config) before = some pool) :
    (∀ start stop (func : Nat → Except ε Unit),
      AgreesIff platform pool (parallelFor platform.width (config.adjust platform).maxThreads start stop func)
        (min (config.adjust platform).maxThreads (stop - start) ≤ 1 ∨
          ∀ chunk ∈ submitFrom platform.width start stop
              (Reduce.chunkSize platform.width (stop - start) (min (config.adjust platform).maxThreads (stop - start)))
              (min (config.adjust platform).maxThreads (stop - start)) 0,
            ∀ j ∈ indices chunk, ∀ ex, func j ≠ .error ex)) ∧
    (∀ threads (range : List α) (func : α → Except ε Unit), range.length < 2 ^ (platform.width - 1) →
      AgreesIff platform pool (forEach platform.width threads range func)
        (¬ Several threads range.length ∨ ∀ x ∈ range, ∀ ex, func x ≠ .error ex)) ∧
    ∀ threads initial (range : List α) (func : α → α → Except ε α), range.length < 2 ^ (platform.width - 1) →
      AgreesIff platform pool (reduce platform.width threads initial range func)
        (Reduce.numThreads threads range.length ≤ 1 ∨
          (∀ chunk ∈ Reduce.submitted platform.width range.length (Reduce.numThreads threads range.length),
            ∀ ex, (fold func initial (slice range chunk)).outcome ≠ .error ex) ∨
          ∃ ex, (fold func initial (partialResults func initial range (Reduce.numThreads threads range.length)
            (Reduce.submitted platform.width range.length (Reduce.numThreads threads range.length)))).outcome = .error ex) :=
  ⟨parallelFor_agrees built _ _,fun threads _ func => forEach_agrees built threads func,
    fun threads initial _ func => reduce_agrees built threads initial func⟩

/-- A function that always throws: without chunks the caller sees it, and in `Reduce`
when it folds the results of the chunks. -/
theorem agreement_iff_throwing :
    (∃ s : State Chunk Unit Nat, run (step ⟨64,4,fun _ => 0⟩ (parallelFor 64 1 0 2 fun _ => .error 7))
        (init (parallelFor 64 1 0 2 fun _ => .error 7) (construct ⟨64,4,fun _ => 0⟩ ⟨1,1⟩)) [.caller,.caller] = some s ∧
      Agrees (parallelFor 64 1 0 2 fun _ => .error 7) s) ∧
    (∃ s : State Chunk Unit Nat, run (step ⟨64,4,fun _ => 0⟩ (forEach 64 none [10,20] fun _ => .error 7))
        (init (forEach 64 none [10,20] fun _ => .error 7) (construct ⟨64,4,fun _ => 0⟩ ⟨1,1⟩)) [.caller,.caller] = some s ∧
      Agrees (forEach 64 none [10,20] fun _ => .error 7) s) ∧
    ∃ s : State Chunk Nat Nat, run (step ⟨64,4,fun _ => 0⟩ (reduce 64 (some 2) 0 [10,20] fun _ _ => .error 7))
        (init (reduce 64 (some 2) 0 [10,20] fun _ _ => .error 7) (construct ⟨64,4,fun _ => 0⟩ ⟨1,1⟩)) twoTasks = some s ∧
      Agrees (reduce 64 (some 2) 0 [10,20] fun _ _ => .error 7) s := by
  have built : run (ThreadPool.step ⟨64,4,fun _ => 0⟩) (construct ⟨64,4,fun _ => 0⟩ ⟨1,1⟩) [] =
      some (construct ⟨64,4,fun _ => 0⟩ ⟨1,1⟩ : ThreadPool.State Unit Nat) := rfl
  obtain ⟨loops,walks,folds⟩ := agreement_iff (α := Nat) built
  have loops := loops 0 2 fun _ => .error 7
  have walks := walks none [10,20] (fun _ => .error 7) (by decide)
  have folds := folds (some 2) 0 [10,20] (fun _ _ => .error 7) (by decide)
  refine ⟨?_,?_,?_⟩
  · exact ⟨_,rfl,(loops [.caller,.caller] _ _ rfl rfl).mpr (Or.inl (by decide))⟩
  · refine ⟨_,rfl,(walks [.caller,.caller] _ _ rfl rfl).mpr (Or.inl ?_)⟩
    intro several
    obtain ⟨_,some,_⟩ := several
    contradiction
  · obtain ⟨s,reached,ended⟩ := (Option.any_eq_true _ _).mp (show (run
        (step ⟨64,4,fun _ => 0⟩ (reduce 64 (some 2) 0 [10,20] fun _ _ => .error 7))
        (init (reduce 64 (some 2) 0 [10,20] fun _ _ => .error 7) (construct ⟨64,4,fun _ => 0⟩ ⟨1,1⟩)) twoTasks).any
        State.ended = true by decide +kernel)
    obtain ⟨outcome,left⟩ := ended_iff.mp ended
    exact ⟨s,reached,(folds _ s outcome reached left).mpr (Or.inr (Or.inr ⟨7,rfl⟩))⟩

/-- Both chunk tasks of a `ParallelFor` run and the first throws, but its caller
returns. -/
theorem wait_swallows :
    ∃ s : State Chunk Unit Nat, run
        (step ⟨64,4,fun _ => 0⟩ (parallelFor 64 2 0 2 fun j => if j = 0 then .error 7 else .ok ()))
        (init (parallelFor 64 2 0 2 fun j => if j = 0 then .error 7 else .ok ()) (construct ⟨64,4,fun _ => 0⟩ ⟨1,2⟩))
        twoTasks = some s ∧
      Thrown (parallelFor 64 2 0 2 fun j => if j = 0 then .error 7 else .ok ()) s 7 ∧ s.point = .left (.ok ()) ∧
      ¬ Agrees (parallelFor 64 2 0 2 fun j => if j = 0 then .error 7 else .ok ()) s := by
  obtain ⟨s,reached,ended⟩ := (Option.any_eq_true _ _).mp (show (run
      (step ⟨64,4,fun _ => 0⟩ (parallelFor 64 2 0 2 fun j => if j = 0 then .error 7 else .ok ()))
      (init (parallelFor 64 2 0 2 fun j => if j = 0 then .error 7 else .ok ()) (construct ⟨64,4,fun _ => 0⟩ ⟨1,2⟩))
      twoTasks).any State.ended = true by decide +kernel)
  obtain ⟨outcome,left⟩ := ended_iff.mp ended
  have built : run (ThreadPool.step ⟨64,4,fun _ => 0⟩) (construct ⟨64,4,fun _ => 0⟩ ⟨1,2⟩) [] =
      some (construct ⟨64,4,fun _ => 0⟩ ⟨1,2⟩ : ThreadPool.State Unit Nat) := rfl
  obtain ⟨finished,_,rfl⟩ := (inv_run built reached).left left
  have thrown : Thrown (parallelFor 64 2 0 2 fun j => if j = 0 then .error 7 else .ok ()) s 7 :=
    Or.inl ⟨⟨0,0,1⟩,finished.symm.subset (by decide),rfl⟩
  refine ⟨s,reached,thrown,left,fun agrees => ?_⟩
  obtain ⟨ex,exits,_⟩ := agrees ⟨7,thrown⟩
  cases Point.left.inj (left.symm.trans exits)

/-- None of the algorithms leaves a chunk task in the pool if and only if no `Submit`
of the call but the first may throw. -/
theorem vacates_iff_first (platform : Platform ε) (config : Config) (fails : Nat → Prop) :
    (∀ start stop (func : Nat → Except ε Unit), stop < 2 ^ platform.width →
      (Vacates platform config (parallelFor platform.width (config.adjust platform).maxThreads start stop func) fails ↔
        FirstAlone (parallelFor platform.width (config.adjust platform).maxThreads start stop func) fails)) ∧
    (∀ threads initial (range : List α) (func : α → α → Except ε α), range.length < 2 ^ platform.width →
      (Vacates platform config (reduce platform.width threads initial range func) fails ↔
        FirstAlone (reduce platform.width threads initial range func) fails)) ∧
    ∀ threads size (whole : Except ε Unit) sorts merges, size < 2 ^ platform.width →
      (Vacates platform config (sort platform.width threads size whole sorts merges) fails ↔
        FirstAlone (sort platform.width threads size whole sorts merges) fails) :=
  ⟨fun _ _ _ fits => ⟨first_of_vacates (parallelFor_room fits),vacates_of_first⟩,
    fun _ _ _ _ fits => ⟨first_of_vacates (reduce_room fits),vacates_of_first⟩,
    fun _ _ _ _ _ fits => ⟨first_of_vacates (sort_room fits),vacates_of_first⟩⟩

/-- With two chunk tasks the first `Submit` may throw, but not the second. -/
theorem vacates_iff_first_two :
    Vacates ⟨64,4,fun _ => 0⟩ ⟨1,2⟩ (parallelFor 64 2 0 2 fun _ => .ok () : Fork Chunk Nat Unit Nat) (· = 0) ∧
      ¬ Vacates ⟨64,4,fun _ => 0⟩ ⟨1,2⟩ (parallelFor 64 2 0 2 fun _ => .ok () : Fork Chunk Nat Unit Nat) (· = 1) := by
  refine ⟨((vacates_iff_first (α := Nat) ⟨64,4,fun _ => 0⟩ ⟨1,2⟩ _).1 0 2 _ (by decide)).mpr fun _ first _ => first,
    fun vacates => ?_⟩
  have alone := ((vacates_iff_first (α := Nat) ⟨64,4,fun _ => 0⟩ ⟨1,2⟩ _).1 0 2 _ (by decide)).mp vacates
  exact absurd (alone 1 rfl (by decide)) (by decide)

/-- The second `Submit` throws, and `ParallelFor` leaves with its first chunk task in
the queue. -/
theorem submit_leaves_task :
    ∃ s : State Chunk Unit Nat, run (step ⟨64,4,fun _ => 0⟩ (parallelFor 64 2 0 2 fun _ => .ok ()))
        (init (parallelFor 64 2 0 2 fun _ => .ok ()) (construct ⟨64,4,fun _ => 0⟩ ⟨1,2⟩))
        [.caller,.pool (.call 0),.pool (.call 0),.pool (.call 0),.pool (.call 0),.caller,
          .caller,.pool (.fail 1),.caller] = some s ∧
      s.gone = true ∧ ¬ Vacated s := by
  obtain ⟨s,reached,leaves⟩ := (Option.any_eq_true _ _).mp (show (run
      (step ⟨64,4,fun _ => 0⟩ (parallelFor 64 2 0 2 fun _ => .ok ()))
      (init (parallelFor 64 2 0 2 fun _ => .ok ()) (construct ⟨64,4,fun _ => 0⟩ ⟨1,2⟩))
      [.caller,.pool (.call 0),.pool (.call 0),.pool (.call 0),.pool (.call 0),.caller,
        .caller,.pool (.fail 1),.caller] : Option (State Chunk Unit Nat)).any
      (fun s => s.gone && !decide (Vacated s)) = true by decide +kernel)
  rw [Bool.and_eq_true,Bool.not_eq_true',decide_eq_false_iff_not] at leaves
  exact ⟨s,reached,leaves⟩

end Ezthread.Algorithms
