import Ezthread.Activation
import Ezthread.Algorithms

/-! Tasks that call `ParallelFor` on their own pool, neither paused nor stopping. A step
is one section of `m_queueMutex`, or what a thread does by itself up to the next; a
future is named by the number of its task. -/
namespace Ezthread.NestedLoops
open Transition Activation Chunks Algorithms

/-- What a task calls until it returns. -/
inductive Body where
  | ret
  | parallelFor (start stop : Nat) (func : Nat → Body) (next : Body)

def Body.seq : Body → Body → Body
  | .ret,rest => rest
  | .parallelFor start stop func next,rest => .parallelFor start stop func (next.seq rest)

def loop (func : Nat → Body) (range : List Nat) : Body := range.foldr (fun j rest => (func j).seq rest) .ret

/-- In `run` the thread is in its own calls, in `submit` before a round of the loop of
`ParallelFor`, and in `wait` before the `Wait` of the first future left. -/
inductive Point where
  | run (body : Body)
  | submit (left : List Chunk) (func : Nat → Body) (futures : List Nat) (next : Body)
  | wait (futures : List Nat) (next : Body)

def parallelFor (w maxThreads start stop : Nat) (func : Nat → Body) (next : Body) : Point :=
  let count := stop - start
  let numThreads := min maxThreads count
  if start ≥ stop then .run next
  else if numThreads ≤ 1 then .run ((loop func (List.range' start count)).seq next)
  else .submit (submitFrom w start stop (Reduce.chunkSize w count numThreads) numThreads 0) func [] next

/-- Tasks not yet submitted are `outside`; a worker has taken none, or the task of that
number. -/
structure State where
  taskQueue : List (Nat × Body)
  workers : List (Option (Nat × Point))
  enqueued : Nat
  finished : List Nat
  outside : List Body

inductive Label where
  | submit (i : Nat)
  | take (k : Nat)
  | work (k : Nat)

def init (workers : Nat) (tasks : List Body) : State := ⟨[],List.replicate workers none,0,[],tasks⟩

def State.push (s : State) (body : Body) : State :=
  {s with taskQueue := s.taskQueue ++ [(s.enqueued,body)], enqueued := s.enqueued + 1}

def State.drop (s : State) (i : Nat) : State := {s with outside := s.outside.eraseIdx i}

def State.stand (s : State) (k : Nat) (worker : Option (Nat × Point)) : State :=
  {s with workers := s.workers.set k worker}

def stepWork (w maxThreads : Nat) (s : State) (k id : Nat) : Point → Option State
  | .run .ret => some (({s with finished := id :: s.finished} : State).stand k none)
  | .run (.parallelFor start stop func next) => some (s.stand k (some (id,parallelFor w maxThreads start stop func next)))
  | .submit (chunk :: left) func futures next =>
      some ((s.push (loop func (indices chunk))).stand k (some (id,.submit left func (futures ++ [s.enqueued]) next)))
  | .submit [] _ futures next => some (s.stand k (some (id,.wait futures next)))
  | .wait (future :: rest) next => if future ∈ s.finished then some (s.stand k (some (id,.wait rest next))) else none
  | .wait [] next => some (s.stand k (some (id,.run next)))

def step (w maxThreads : Nat) (s : State) : Label → Option State
  | .submit i => s.outside[i]?.map fun body => (s.push body).drop i
  | .take k =>
      match s.workers[k]?,s.taskQueue with
      | some none,task :: rest => some (({s with taskQueue := rest} : State).stand k (some (task.1,.run task.2)))
      | _,_ => none
  | .work k =>
      match s.workers[k]? with
      | some (some (id,point)) => stepWork w maxThreads s k id point
      | _ => none

/-- All tasks have been submitted, and every call has returned. -/
def Done (s : State) : Prop := s.outside = [] ∧ s.taskQueue = [] ∧ ∀ worker ∈ s.workers, worker = none

def Completes (w maxThreads : Nat) (s : State) : Prop :=
  ∃ labels last, run (step w maxThreads) s labels = some last ∧ Done last

/-- The indices a call runs by itself. -/
def looped (maxThreads start stop : Nat) : List Nat :=
  if min maxThreads (stop - start) ≤ 1 then List.range' start (stop - start) else []

/-- The chunks a call submits. -/
def forked (w maxThreads start stop : Nat) : List Chunk :=
  if min maxThreads (stop - start) ≤ 1 then []
  else submitFrom w start stop (Reduce.chunkSize w (stop - start) (min maxThreads (stop - start)))
    (min maxThreads (stop - start)) 0

def most (demands : List Nat) : Nat := demands.foldr max 0

/-- The threads of tasks that a thread waits for, and the thread itself. -/
def together : List Nat → Nat
  | [] => 0
  | demand :: rest => 1 + (demand :: rest).sum

/-- How many threads a body and all that it forks can take up at once by waiting. -/
def Body.demand (w maxThreads : Nat) : Body → Nat
  | .ret => 0
  | .parallelFor start stop func next =>
      max (next.demand w maxThreads)
        (max (most ((looped maxThreads start stop).map fun j => (func j).demand w maxThreads))
          (together ((forked w maxThreads start stop).map fun chunk =>
            most ((indices chunk).map fun j => (func j).demand w maxThreads))))

/-- Bounds the steps a body and all that it forks can take. -/
def Body.size (w maxThreads : Nat) : Body → Nat
  | .ret => 0
  | .parallelFor start stop func next =>
      ((looped maxThreads start stop).map fun j => (func j).size w maxThreads).sum +
        ((forked w maxThreads start stop).map fun chunk =>
          ((indices chunk).map fun j => (func j).size w maxThreads).sum + 4).sum + next.size w maxThreads + 3

def Point.next : Point → Body
  | .run body => body
  | .submit _ _ _ next => next
  | .wait _ next => next

def Point.futures : Point → List Nat
  | .run _ => []
  | .submit _ _ futures _ => futures
  | .wait futures _ => futures

/-- The tasks a call has still to submit. -/
def Point.pending : Point → List Body
  | .submit left func _ _ => left.map fun chunk => loop func (indices chunk)
  | _ => []

def Point.size (w maxThreads : Nat) : Point → Nat
  | .run body => body.size w maxThreads + 1
  | .submit left func futures next =>
      (left.map fun chunk => (loop func (indices chunk)).size w maxThreads + 4).sum + futures.length + next.size w maxThreads + 3
  | .wait futures next => futures.length + next.size w maxThreads + 2

def weigh (w maxThreads : Nat) : Option (Nat × Point) → Nat
  | some (_,point) => point.size w maxThreads
  | none => 0

def State.rank (w maxThreads : Nat) (s : State) : Nat :=
  (s.taskQueue.map fun task => task.2.size w maxThreads + 2).sum + (s.workers.map (weigh w maxThreads)).sum +
    (s.outside.map fun body => body.size w maxThreads + 3).sum

variable {w maxThreads : Nat} {s t : State}

theorem demand_seq (body rest : Body) :
    (body.seq rest).demand w maxThreads = max (body.demand w maxThreads) (rest.demand w maxThreads) := by
  induction body with
  | ret => exact (Nat.zero_max _).symm
  | parallelFor start stop func next _ ih =>
    simp only [Body.seq,Body.demand,ih]
    omega

theorem size_seq (body rest : Body) :
    (body.seq rest).size w maxThreads = body.size w maxThreads + rest.size w maxThreads := by
  induction body with
  | ret => exact (Nat.zero_add _).symm
  | parallelFor start stop func next _ ih =>
    simp only [Body.seq,Body.size,ih]
    omega

theorem demand_loop (func : Nat → Body) (range : List Nat) :
    (loop func range).demand w maxThreads = most (range.map fun j => (func j).demand w maxThreads) := by
  induction range with
  | nil => rfl
  | cons j rest ih => exact (demand_seq (func j) (loop func rest)).trans (congrArg (max _) ih)

theorem size_loop (func : Nat → Body) (range : List Nat) :
    (loop func range).size w maxThreads = (range.map fun j => (func j).size w maxThreads).sum := by
  induction range with
  | nil => rfl
  | cons j rest ih =>
    rw [List.map_cons,List.sum_cons,← ih]
    exact size_seq (func j) (loop func rest)

theorem demand_parallelFor (start stop : Nat) (func : Nat → Body) (next : Body) :
    (Body.parallelFor start stop func next).demand w maxThreads =
      max (next.demand w maxThreads) (max ((loop func (looped maxThreads start stop)).demand w maxThreads)
        (together ((forked w maxThreads start stop).map fun chunk => (loop func (indices chunk)).demand w maxThreads))) := by
  simp only [Body.demand,demand_loop]

theorem size_parallelFor (start stop : Nat) (func : Nat → Body) (next : Body) :
    (Body.parallelFor start stop func next).size w maxThreads =
      (loop func (looped maxThreads start stop)).size w maxThreads +
        ((forked w maxThreads start stop).map fun chunk => (loop func (indices chunk)).size w maxThreads + 4).sum +
        next.size w maxThreads + 3 := by
  simp only [Body.size,size_loop]

/-- What a call runs by itself is run before it returns, and nothing is forked; or
what it submits is all it does. -/
theorem parallelFor_cases (w maxThreads start stop : Nat) (func : Nat → Body) (next : Body) :
    (forked w maxThreads start stop = [] ∧
        parallelFor w maxThreads start stop func next = .run ((loop func (looped maxThreads start stop)).seq next)) ∨
      (looped maxThreads start stop = [] ∧
        parallelFor w maxThreads start stop func next = .submit (forked w maxThreads start stop) func [] next) := by
  unfold forked looped parallelFor
  by_cases few : min maxThreads (stop - start) ≤ 1
  · refine Or.inl ⟨if_pos few,?_⟩
    rw [if_pos few]
    by_cases empty : start ≥ stop
    · rw [if_pos empty,Nat.sub_eq_zero_of_le empty]
      rfl
    · simp only [if_pos few,if_neg empty]
  · have inside : ¬ start ≥ stop := by omega
    exact Or.inr ⟨if_neg few,by simp only [if_neg few,if_neg inside]⟩

/-- What a thread does by itself alone. -/
inductive Goes (w maxThreads : Nat) (finished : List Nat) : Point → Point → Prop
  | enter (start stop : Nat) (func : Nat → Body) (next : Body) :
      Goes w maxThreads finished (.run (.parallelFor start stop func next)) (parallelFor w maxThreads start stop func next)
  | join (func : Nat → Body) (futures : List Nat) (next : Body) :
      Goes w maxThreads finished (.submit [] func futures next) (.wait futures next)
  | pass (future : Nat) (rest : List Nat) (next : Body) (ready : future ∈ finished) :
      Goes w maxThreads finished (.wait (future :: rest) next) (.wait rest next)
  | leave (next : Body) : Goes w maxThreads finished (.wait [] next) (.run next)

inductive Works (w maxThreads : Nat) (s : State) (k id : Nat) : Point → State → Prop
  | finish : Works w maxThreads s k id (.run .ret) (({s with finished := id :: s.finished} : State).stand k none)
  | push (chunk : Chunk) (left : List Chunk) (func : Nat → Body) (futures : List Nat) (next : Body) :
      Works w maxThreads s k id (.submit (chunk :: left) func futures next)
        ((s.push (loop func (indices chunk))).stand k (some (id,.submit left func (futures ++ [s.enqueued]) next)))
  | go (before after : Point) (goes : Goes w maxThreads s.finished before after) :
      Works w maxThreads s k id before (s.stand k (some (id,after)))

inductive Moves (w maxThreads : Nat) (s : State) : State → Prop
  | submit (i : Nat) (body : Body) (found : s.outside[i]? = some body) :
      Moves w maxThreads s ((s.push body).drop i)
  | take (k : Nat) (task : Nat × Body) (rest : List (Nat × Body)) (idle : s.workers[k]? = some none)
      (front : s.taskQueue = task :: rest) :
      Moves w maxThreads s (({s with taskQueue := rest} : State).stand k (some (task.1,.run task.2)))
  | work (k id : Nat) (point : Point) (t : State) (found : s.workers[k]? = some (some (id,point)))
      (works : Works w maxThreads s k id point t) : Moves w maxThreads s t

/-- A thread at the `Wait` of a task that has not finished. -/
def Point.waits (finished : List Nat) : Point → Prop
  | .wait (future :: _) _ => future ∉ finished
  | _ => False

theorem stepWork_works {k id : Nat} {point : Point} (taken : stepWork w maxThreads s k id point = some t) :
    Works w maxThreads s k id point t := by
  unfold stepWork at taken
  split at taken
  next => exact Option.some.inj taken ▸ .finish
  next => exact Option.some.inj taken ▸ .go _ _ (.enter _ _ _ _)
  next => exact Option.some.inj taken ▸ .push _ _ _ _ _
  next => exact Option.some.inj taken ▸ .go _ _ (.join _ _ _)
  next future rest next =>
    split at taken
    next ready => exact Option.some.inj taken ▸ .go _ _ (.pass future rest next ready)
    next => contradiction
  next => exact Option.some.inj taken ▸ .go _ _ (.leave _)

theorem step_moves {label : Label} (taken : step w maxThreads s label = some t) : Moves w maxThreads s t := by
  cases label with
  | submit i =>
    obtain ⟨body,found,rfl⟩ := Option.map_eq_some_iff.mp taken
    exact .submit i body found
  | take k =>
    simp only [step] at taken
    split at taken
    next task rest idle front => exact Option.some.inj taken ▸ .take k task rest idle front
    next => contradiction
  | work k =>
    simp only [step] at taken
    split at taken
    next id point found => exact .work k id point t found (stepWork_works taken)
    next => contradiction

theorem Moves.step (moves : Moves w maxThreads s t) : ∃ label, step w maxThreads s label = some t := by
  cases moves with
  | submit i body found => exact ⟨.submit i,by simp only [NestedLoops.step,found,Option.map_some]⟩
  | take k task rest idle front => exact ⟨.take k,by simp only [NestedLoops.step,idle,front]⟩
  | work k id point t found works =>
    refine ⟨.work k,?_⟩
    simp only [NestedLoops.step,found]
    cases works with
    | finish | push => rfl
    | go before after goes =>
      cases goes with
      | enter | join | leave => rfl
      | pass future rest next ready => exact if_pos ready

/-- Every thread can go on but at the `Wait` of a task that has not finished. -/
theorem works_or_waits (k id : Nat) (point : Point) :
    point.waits s.finished ∨ ∃ t, Works w maxThreads s k id point t := by
  cases point with
  | run body =>
    cases body with
    | ret => exact Or.inr ⟨_,.finish⟩
    | parallelFor start stop func next => exact Or.inr ⟨_,.go _ _ (.enter start stop func next)⟩
  | submit left func futures next =>
    cases left with
    | nil => exact Or.inr ⟨_,.go _ _ (.join func futures next)⟩
    | cons chunk left => exact Or.inr ⟨_,.push chunk left func futures next⟩
  | wait futures next =>
    cases futures with
    | nil => exact Or.inr ⟨_,.go _ _ (.leave next)⟩
    | cons future rest =>
      by_cases ready : future ∈ s.finished
      · exact Or.inr ⟨_,.go _ _ (.pass future rest next ready)⟩
      · exact Or.inl ready

theorem sum_erase {tasks : List Body} {i : Nat} {body : Body} (weight : Body → Nat) (found : tasks[i]? = some body) :
    ((tasks.eraseIdx i).map weight).sum + weight body = (tasks.map weight).sum := by
  obtain ⟨inside,rfl⟩ := List.getElem?_eq_some_iff.mp found
  have whole := ((List.getElem_cons_eraseIdx_perm inside).map weight).sum_eq
  rw [List.map_cons,List.sum_cons] at whole
  omega

theorem parallelFor_size (start stop : Nat) (func : Nat → Body) (next : Body) :
    (parallelFor w maxThreads start stop func next).size w maxThreads <
      (Point.run (.parallelFor start stop func next)).size w maxThreads := by
  rw [Point.size,size_parallelFor]
  rcases parallelFor_cases w maxThreads start stop func next with ⟨_,own⟩ | ⟨_,forks⟩
  · rw [own,Point.size,size_seq]
    omega
  · rw [forks,Point.size,List.length_nil]
    omega

theorem Goes.smaller {finished : List Nat} {before after : Point} (goes : Goes w maxThreads finished before after) :
    after.size w maxThreads < before.size w maxThreads := by
  cases goes with
  | enter start stop func next => exact parallelFor_size start stop func next
  | join | pass | leave =>
    simp only [Point.size,List.map_nil,List.sum_nil,List.length_cons]
    omega

theorem Moves.smaller (moves : Moves w maxThreads s t) : t.rank w maxThreads < s.rank w maxThreads := by
  cases moves with
  | submit i body found =>
    have fewer := sum_erase (fun body => body.size w maxThreads + 3) found
    simp only [State.rank,State.push,State.drop,List.map_append,List.sum_append,List.map_singleton,List.sum_singleton]
    omega
  | take k task rest idle front =>
    have moved := sum_set (weigh w maxThreads) (some (task.1,.run task.2)) idle
    simp only [weigh,Point.size] at moved
    simp only [State.rank,State.stand,front,List.map_cons,List.sum_cons]
    omega
  | work k id point t found works =>
    cases works with
    | finish =>
      have moved := sum_set (weigh w maxThreads) none found
      simp only [weigh,Point.size] at moved
      simp only [State.rank,State.stand]
      omega
    | push chunk left func futures next =>
      have moved := sum_set (weigh w maxThreads) (some (id,.submit left func (futures ++ [s.enqueued]) next)) found
      simp only [weigh,Point.size,List.map_cons,List.sum_cons,List.length_append,List.length_singleton] at moved
      simp only [State.rank,State.push,State.stand,List.map_append,List.sum_append,List.map_singleton,List.sum_singleton]
      omega
    | go before after goes =>
      have moved := sum_set (weigh w maxThreads) (some (id,after)) found
      have smaller := goes.smaller
      simp only [weigh] at moved
      simp only [State.rank,State.stand]
      omega

theorem parallelFor_futures (start stop : Nat) (func : Nat → Body) (next : Body) :
    (parallelFor w maxThreads start stop func next).futures = [] := by
  rcases parallelFor_cases w maxThreads start stop func next with ⟨_,own⟩ | ⟨_,forks⟩
  · rw [own,Point.futures]
  · rw [forks,Point.futures]

theorem Goes.futures {finished : List Nat} {before after : Point} (goes : Goes w maxThreads finished before after) :
    after.futures.Sublist before.futures := by
  cases goes with
  | enter start stop func next =>
    rw [parallelFor_futures]
    exact List.nil_sublist _
  | join func futures next => exact List.Sublist.refl futures
  | pass future rest next ready => exact List.sublist_cons_self future rest
  | leave next => exact List.nil_sublist _

/-- How often a thread waits for a task. -/
def awaits (id : Nat) : Option (Nat × Point) → Nat
  | some (_,point) => point.futures.count id
  | none => 0

def Runs (workers : List (Option (Nat × Point))) (id : Nat) : Prop :=
  ∃ (k : Nat) (point : Point), workers[k]? = some (some (id,point))

/-- A task is finished, in the queue or on a worker; a thread waits for tasks
submitted after its own, and no two wait for the same. -/
structure Inv (s : State) : Prop where
  finished : ∀ id ∈ s.finished, id < s.enqueued
  queued : ∀ task ∈ s.taskQueue, task.1 < s.enqueued
  running : ∀ (k id : Nat) (point : Point), s.workers[k]? = some (some (id,point)) →
    id < s.enqueued ∧ ∀ future ∈ point.futures, id < future ∧ future < s.enqueued
  places : ∀ id < s.enqueued, id ∈ s.finished ∨ id ∈ s.taskQueue.map Prod.fst ∨ Runs s.workers id
  once : ∀ id, (s.workers.map (awaits id)).sum ≤ 1

theorem Inv.unawaited (inv : Inv s) : (s.workers.map (awaits s.enqueued)).sum = 0 := by
  refine List.sum_eq_zero fun count member => ?_
  obtain ⟨worker,inside,rfl⟩ := List.mem_map.mp member
  obtain ⟨k,found⟩ := List.mem_iff_getElem?.mp inside
  cases worker with
  | none => rfl
  | some thread =>
    exact List.count_eq_zero.mpr fun waited => Nat.lt_irrefl _ ((inv.running k _ _ found).2 _ waited).2

theorem Runs.set {workers : List (Option (Nat × Point))} {k id : Nat} {before worker : Option (Nat × Point)}
    (runs : Runs workers id) (found : workers[k]? = some before)
    (own : ∀ point, before = some (id,point) → ∃ after, worker = some (id,after)) : Runs (workers.set k worker) id := by
  obtain ⟨j,point,stands⟩ := runs
  by_cases same : k = j
  · subst same
    obtain ⟨after,rfl⟩ := own point (Option.some.inj (found.symm.trans stands))
    exact ⟨k,after,get_self found⟩
  · exact ⟨j,point,(List.getElem?_set_ne same).trans stands⟩

theorem Inv.push (inv : Inv s) (body : Body) : Inv (s.push body) where
  finished id member := Nat.lt_succ_of_lt (inv.finished id member)
  queued task member := by
    rcases List.mem_append.mp member with old | new
    · exact Nat.lt_succ_of_lt (inv.queued task old)
    · rw [List.mem_singleton.mp new]
      exact Nat.lt_succ_self _
  running k id point found := by
    obtain ⟨own,futures⟩ := inv.running k id point found
    exact ⟨Nat.lt_succ_of_lt own,fun future member =>
      ⟨(futures future member).1,Nat.lt_succ_of_lt (futures future member).2⟩⟩
  places id inside := by
    simp only [State.push,List.map_append,List.mem_append]
    rcases Nat.lt_succ_iff_lt_or_eq.mp inside with old | rfl
    · rcases inv.places id old with done | queued | runs
      · exact Or.inl done
      · exact Or.inr (Or.inl (Or.inl queued))
      · exact Or.inr (Or.inr runs)
    · exact Or.inr (Or.inl (Or.inr (List.mem_singleton.mpr rfl)))
  once := inv.once

theorem Inv.stand {k : Nat} {before worker : Option (Nat × Point)} (inv : Inv s) (found : s.workers[k]? = some before)
    (bounded : ∀ id point, worker = some (id,point) →
      id < s.enqueued ∧ ∀ future ∈ point.futures, id < future ∧ future < s.enqueued)
    (own : ∀ id point, before = some (id,point) → id ∈ s.finished ∨ ∃ after, worker = some (id,after))
    (once : ∀ id, ((s.workers.set k worker).map (awaits id)).sum ≤ 1) :
    Inv (s.stand k worker) where
  finished := inv.finished
  queued := inv.queued
  running j id point stands := by
    rcases get_set stands with ⟨_,same⟩ | ⟨_,old⟩
    · exact bounded id point same.symm
    · exact inv.running j id point old
  places id inside := by
    rcases inv.places id inside with done | queued | runs
    · exact Or.inl done
    · exact Or.inr (Or.inl queued)
    · by_cases done : id ∈ s.finished
      · exact Or.inl done
      · exact Or.inr (Or.inr (runs.set found fun point same => (own id point same).resolve_left done))
  once := once

theorem Inv.take {k : Nat} {task : Nat × Body} {rest : List (Nat × Body)} (inv : Inv s) (idle : s.workers[k]? = some none)
    (front : s.taskQueue = task :: rest) : Inv (({s with taskQueue := rest} : State).stand k (some (task.1,.run task.2))) where
  finished := inv.finished
  queued other member := inv.queued other (front ▸ List.mem_cons_of_mem task member)
  running j id point stands := by
    rcases get_set stands with ⟨_,same⟩ | ⟨_,old⟩
    · cases same
      exact ⟨inv.queued task (front ▸ List.mem_cons_self),by simp [Point.futures]⟩
    · exact inv.running j id point old
  places id inside := by
    have placed := inv.places id inside
    rw [front,List.map_cons,List.mem_cons] at placed
    rcases placed with done | (rfl | queued) | runs
    · exact Or.inl done
    · exact Or.inr (Or.inr ⟨k,_,get_self idle⟩)
    · exact Or.inr (Or.inl queued)
    · exact Or.inr (Or.inr (runs.set idle fun point same => by contradiction))
  once id := by
    have moved := sum_set (awaits id) (some (task.1,.run task.2)) idle
    have most := inv.once id
    simp only [awaits,Point.futures,List.count_nil] at moved
    simp only [State.stand]
    omega

theorem Inv.finish {k id : Nat} (inv : Inv s) (found : s.workers[k]? = some (some (id,.run .ret))) :
    Inv (({s with finished := id :: s.finished} : State).stand k none) := by
  have ended : Inv {s with finished := id :: s.finished} :=
    ⟨List.forall_mem_cons.mpr ⟨(inv.running k id _ found).1,inv.finished⟩,inv.queued,inv.running,
      fun other inside => (inv.places other inside).imp_left (List.mem_cons_of_mem id),inv.once⟩
  refine ended.stand found (fun _ _ same => by contradiction) (fun other point same => ?_) fun other => ?_
  · cases same
    exact Or.inl List.mem_cons_self
  · have moved := sum_set (awaits other) none found
    have most := inv.once other
    simp only [awaits,Point.futures,List.count_nil] at moved
    show ((s.workers.set k none).map (awaits other)).sum ≤ 1
    omega

theorem Inv.work {k id : Nat} {point : Point} (inv : Inv s) (found : s.workers[k]? = some (some (id,point)))
    (works : Works w maxThreads s k id point t) : Inv t := by
  obtain ⟨own,futures⟩ := inv.running k id point found
  cases works with
  | finish => exact inv.finish found
  | push chunk left func given next =>
    refine (inv.push _).stand found (fun other point same => ?_) (fun other point same => ?_) fun other => ?_
    · cases same
      refine ⟨Nat.lt_succ_of_lt own,fun future member => ?_⟩
      rcases List.mem_append.mp member with old | new
      · exact ⟨(futures future old).1,Nat.lt_succ_of_lt (futures future old).2⟩
      · rw [List.mem_singleton.mp new]
        exact ⟨own,Nat.lt_succ_self _⟩
    · cases same
      exact Or.inr ⟨_,rfl⟩
    · have moved := sum_set (awaits other) (some (id,.submit left func (given ++ [s.enqueued]) next)) found
      have most := inv.once other
      have fresh := inv.unawaited
      simp only [awaits,Point.futures,List.count_append,List.count_singleton] at moved
      by_cases new : s.enqueued = other
      · subst new
        simp only [BEq.rfl,if_pos] at moved
        simp only [State.push]
        omega
      · simp only [beq_iff_eq,if_neg new] at moved
        simp only [State.push]
        omega
  | go before after goes =>
    refine inv.stand found (fun other point same => ?_) (fun other point same => ?_) fun other => ?_
    · cases same
      exact ⟨own,fun future member => futures future (goes.futures.subset member)⟩
    · cases same
      exact Or.inr ⟨_,rfl⟩
    · have moved := sum_set (awaits other) (some (id,after)) found
      have most := inv.once other
      have fewer := goes.futures.count_le other
      simp only [awaits] at moved
      omega

theorem inv_moves (inv : Inv s) (moves : Moves w maxThreads s t) : Inv t := by
  cases moves with
  | submit i body found => exact ⟨(inv.push body).finished,(inv.push body).queued,(inv.push body).running,(inv.push body).places,inv.once⟩
  | take k task rest idle front => exact inv.take idle front
  | work k id point t found works => exact inv.work found works

theorem Moves.workers_length (moves : Moves w maxThreads s t) : t.workers.length = s.workers.length := by
  cases moves with
  | submit i body found => rfl
  | take k task rest idle front => exact List.length_set
  | work k id point t found works =>
    cases works with
    | finish | push | go => exact List.length_set

theorem inv_init (workers : Nat) (tasks : List Body) : Inv (init workers tasks) where
  finished := by simp [init]
  queued := by simp [init]
  running k id point found := by simp [init,List.getElem?_replicate] at found
  places := by simp [init]
  once id := by simp [init,awaits]

theorem inv_run {workers : Nat} {tasks : List Body} {labels : List Label}
    (reached : run (step w maxThreads) (init workers tasks) labels = some s) : Inv s :=
  run_invariant Inv (fun _ _ _ inv taken => inv_moves inv (step_moves taken)) (inv_init workers tasks) reached

end Ezthread.NestedLoops
