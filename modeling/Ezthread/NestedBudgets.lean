import Ezthread.NestedLoops
import Mathlib.Algebra.BigOperators.Ring.List
import Mathlib.Algebra.Order.BigOperators.Group.List
import Mathlib.Algebra.Order.Group.Nat

/-! Where the demands of the submitted tasks are fewer than the workers, no nest of
`ParallelFor` calls gets stuck. Every task has a share for the threads it takes up; a
thread that waits owes the shares of the tasks it waits for. -/
namespace Ezthread.NestedLoops
open Transition Activation Chunks Algorithms

def due (share : Nat → Nat) (finished futures : List Nat) : Nat :=
  (futures.map fun future => if future ∈ finished then 0 else share future).sum

def holds (share : Nat → Nat) : Option (Nat × Point) → Nat
  | some (id,_) => share id
  | none => 0

def owes (share : Nat → Nat) (finished : List Nat) : Option (Nat × Point) → Nat
  | some (_,point) => due share finished point.futures
  | none => 0

def State.held (share : Nat → Nat) (s : State) : Nat :=
  (s.taskQueue.map fun task => share task.1).sum + (s.workers.map (holds share)).sum

def State.owed (share : Nat → Nat) (s : State) : Nat := (s.workers.map (owes share s.finished)).sum

def State.unsubmitted (w maxThreads : Nat) (s : State) : Nat := (s.outside.map (Body.demand w maxThreads)).sum

variable {w maxThreads : Nat} {s t : State} {share other : Nat → Nat}

theorem due_agree {futures : List Nat} (finished : List Nat) (agree : ∀ future ∈ futures, other future = share future) :
    due other finished futures = due share finished futures := by
  unfold due
  refine congrArg List.sum (List.map_congr_left fun future member => ?_)
  rw [agree future member]

theorem held_agree (inv : Inv s) (agree : ∀ id < s.enqueued, other id = share id) : s.held other = s.held share := by
  unfold State.held
  refine congrArg₂ (· + ·) (congrArg List.sum (List.map_congr_left fun task member => ?_))
    (congrArg List.sum (List.map_congr_left fun worker member => ?_))
  · exact agree task.1 (inv.queued task member)
  · obtain ⟨k,found⟩ := List.mem_iff_getElem?.mp member
    cases worker with
    | none => rfl
    | some thread => exact agree thread.1 (inv.running k _ _ found).1

theorem owed_agree (inv : Inv s) (agree : ∀ id < s.enqueued, other id = share id) : s.owed other = s.owed share := by
  unfold State.owed
  refine congrArg List.sum (List.map_congr_left fun worker member => ?_)
  obtain ⟨k,found⟩ := List.mem_iff_getElem?.mp member
  cases worker with
  | none => rfl
  | some thread => exact due_agree s.finished fun future waited => agree future ((inv.running k _ _ found).2 future waited).2

theorem held_push (body : Body) : (s.push body).held share = s.held share + share s.enqueued := by
  simp only [State.held,State.push,List.map_append,List.sum_append,List.map_singleton,List.sum_singleton]
  omega

theorem held_take {k : Nat} {task : Nat × Body} {rest : List (Nat × Body)} (idle : s.workers[k]? = some none)
    (front : s.taskQueue = task :: rest) :
    (({s with taskQueue := rest} : State).stand k (some (task.1,.run task.2))).held share = s.held share := by
  have moved := sum_set (holds share) (some (task.1,.run task.2)) idle
  simp only [holds] at moved
  simp only [State.held,State.stand,front,List.map_cons,List.sum_cons]
  omega

theorem held_stand {k id : Nat} {before : Point} (found : s.workers[k]? = some (some (id,before))) (after : Point) :
    (s.stand k (some (id,after))).held share = s.held share := by
  have moved := sum_set (holds share) (some (id,after)) found
  simp only [holds] at moved
  simp only [State.held,State.stand]
  omega

theorem held_finish {k id : Nat} (share : Nat → Nat) (found : s.workers[k]? = some (some (id,.run .ret))) :
    (({s with finished := id :: s.finished} : State).stand k none).held share + share id = s.held share := by
  have moved := sum_set (holds share) none found
  simp only [holds] at moved
  simp only [State.held,State.stand]
  omega

theorem owed_take {k : Nat} {task : Nat × Body} {rest : List (Nat × Body)} (idle : s.workers[k]? = some none) :
    (({s with taskQueue := rest} : State).stand k (some (task.1,.run task.2))).owed share = s.owed share := by
  have moved := sum_set (owes share s.finished) (some (task.1,.run task.2)) idle
  simp only [owes,Point.futures,due,List.map_nil,List.sum_nil] at moved
  simp only [State.owed,State.stand]
  omega

theorem owed_stand {k id : Nat} {before : Point} (share : Nat → Nat) (found : s.workers[k]? = some (some (id,before))) (after : Point) :
    (s.stand k (some (id,after))).owed share + due share s.finished before.futures =
      s.owed share + due share s.finished after.futures := by
  have moved := sum_set (owes share s.finished) (some (id,after)) found
  simp only [owes] at moved
  simp only [State.owed,State.stand]
  omega

theorem Goes.dues {finished : List Nat} {before after : Point} (goes : Goes w maxThreads finished before after) :
    due share finished after.futures = due share finished before.futures := by
  cases goes with
  | enter start stop func next => rw [parallelFor_futures,Point.futures]
  | join func futures next => rfl
  | pass future rest next ready =>
    simp only [due,Point.futures,List.map_cons,List.sum_cons,if_pos ready,Nat.zero_add]
  | leave next => rfl

theorem owed_go {k id : Nat} {before after : Point} (found : s.workers[k]? = some (some (id,before)))
    (goes : Goes w maxThreads s.finished before after) : (s.stand k (some (id,after))).owed share = s.owed share := by
  have owed := owed_stand share found after
  rw [goes.dues] at owed
  exact Nat.add_right_cancel owed

theorem due_append (share : Nat → Nat) (finished futures : List Nat) (future : Nat) (unfinished : future ∉ finished) :
    due share finished (futures ++ [future]) = due share finished futures + share future := by
  simp only [due,List.map_append,List.sum_append,List.map_singleton,List.sum_singleton,if_neg unfinished]

/-- A task that ends is owed no more. -/
theorem due_finish (share : Nat → Nat) (finished futures : List Nat) (id : Nat) :
    due share (id :: finished) futures ≤ due share finished futures ∧
      due share finished futures ≤ due share (id :: finished) futures + share id * futures.count id := by
  induction futures with
  | nil => exact ⟨Nat.le_refl _,Nat.le_refl _⟩
  | cons future rest ih =>
    simp only [due,List.map_cons,List.sum_cons,List.count_cons] at ih ⊢
    by_cases same : future = id
    · subst same
      simp only [List.mem_cons_self,if_true,BEq.rfl,Nat.mul_add]
      split <;> omega
    · have member : future ∈ id :: finished ↔ future ∈ finished := by simp [same]
      simp only [member,beq_iff_eq,if_neg same,Nat.add_zero]
      omega

theorem owed_finish {k id : Nat} (share : Nat → Nat) (inv : Inv s) (found : s.workers[k]? = some (some (id,.run .ret))) :
    s.owed share ≤ (({s with finished := id :: s.finished} : State).stand k none).owed share + share id := by
  have moved := sum_set (owes share (id :: s.finished)) none found
  simp only [owes,Point.futures,due,List.map_nil,List.sum_nil] at moved
  have each : s.owed share ≤
      (s.workers.map fun worker => owes share (id :: s.finished) worker + share id * awaits id worker).sum := by
    refine List.sum_le_sum fun worker _ => ?_
    cases worker with
    | none => exact Nat.zero_le _
    | some thread => exact (due_finish share s.finished thread.2.futures id).2
  have once := Nat.mul_le_mul_left (share id) (inv.once id)
  rw [List.sum_map_add,List.sum_map_mul_left] at each
  simp only [State.owed,State.stand] at each ⊢
  omega

/-- With an empty queue no thread waits, whatever it is that makes each wait for another. -/
theorem Inv.unblocked (Waits : Nat → Point → Prop) (inv : Inv s) (empty : s.taskQueue = [])
    (blocked : ∀ (k id : Nat) (point : Point), s.workers[k]? = some (some (id,point)) → Waits id point →
      ∃ future ∈ point.futures, future ∉ s.finished ∧
        ∀ (j : Nat) (after : Point), s.workers[j]? = some (some (future,after)) → Waits future after)
    {k id : Nat} {point : Point} (found : s.workers[k]? = some (some (id,point))) : ¬ Waits id point := by
  induction gap : s.enqueued - id using Nat.strong_induction_on generalizing k id point with
  | _ gap ih =>
    intro waits
    obtain ⟨future,waited,unfinished,others⟩ := blocked k id point found waits
    obtain ⟨later,inside⟩ := (inv.running k id point found).2 future waited
    rcases inv.places future inside with done | queued | ⟨j,after,stands⟩
    · exact unfinished done
    · simp [empty] at queued
    · exact ih (s.enqueued - future) (by omega) stands rfl (others j after stands)

/-- A condition on each task in the queue and one on each thread, given their shares. -/
structure Assigned (w maxThreads : Nat) (fits : Nat → Nat → Prop) (stands : (Nat → Nat) → List Nat → Nat → Point → Prop)
    (share : Nat → Nat) (s : State) : Prop where
  queued : ∀ task ∈ s.taskQueue, fits (task.2.demand w maxThreads) (share task.1)
  threads : ∀ (k id : Nat) (point : Point), s.workers[k]? = some (some (id,point)) → stands share s.finished (share id) point

section Assigned
variable {fits : Nat → Nat → Prop} {stands : (Nat → Nat) → List Nat → Nat → Point → Prop}

theorem Assigned.push {body : Body} (assigned : Assigned w maxThreads fits stands share s) (inv : Inv s)
    (agree : ∀ id < s.enqueued, other id = share id) (own : fits (body.demand w maxThreads) (other s.enqueued))
    (kept : ∀ budget point, stands share s.finished budget point →
      (∀ future ∈ point.futures, other future = share future) → stands other s.finished budget point) :
    Assigned w maxThreads fits stands other (s.push body) where
  queued task member := by
    rcases List.mem_append.mp member with old | new
    · rw [agree task.1 (inv.queued task old)]
      exact assigned.queued task old
    · rw [List.mem_singleton.mp new]
      exact own
  threads k id point found := by
    obtain ⟨inside,futures⟩ := inv.running k id point found
    rw [agree id inside]
    exact kept _ point (assigned.threads k id point found) fun future waited => agree future (futures future waited).2

theorem Assigned.stand {k : Nat} {worker : Option (Nat × Point)} (assigned : Assigned w maxThreads fits stands share s)
    (own : ∀ id point, worker = some (id,point) → stands share s.finished (share id) point) :
    Assigned w maxThreads fits stands share (s.stand k worker) where
  queued := assigned.queued
  threads j id point found := by
    rcases get_set found with ⟨_,same⟩ | ⟨_,old⟩
    · exact own id point same.symm
    · exact assigned.threads j id point old

theorem Assigned.go {k id : Nat} {after : Point} (assigned : Assigned w maxThreads fits stands share s)
    (own : stands share s.finished (share id) after) : Assigned w maxThreads fits stands share (s.stand k (some (id,after))) := by
  refine assigned.stand fun thread point same => ?_
  cases same
  exact own

theorem Assigned.take {k : Nat} {task : Nat × Body} {rest : List (Nat × Body)}
    (assigned : Assigned w maxThreads fits stands share s) (front : s.taskQueue = task :: rest)
    (runs : fits (task.2.demand w maxThreads) (share task.1) → stands share s.finished (share task.1) (.run task.2)) :
    Assigned w maxThreads fits stands share (({s with taskQueue := rest} : State).stand k (some (task.1,.run task.2))) :=
  Assigned.go (s := {s with taskQueue := rest})
    ⟨fun other member => assigned.queued other (front ▸ List.mem_cons_of_mem task member),assigned.threads⟩
    (runs (assigned.queued task (front ▸ List.mem_cons_self)))

theorem Assigned.finish {k id : Nat} (assigned : Assigned w maxThreads fits stands share s)
    (kept : ∀ budget point, stands share s.finished budget point → stands share (id :: s.finished) budget point) :
    Assigned w maxThreads fits stands share (({s with finished := id :: s.finished} : State).stand k none) :=
  Assigned.stand (s := {s with finished := id :: s.finished})
    ⟨assigned.queued,fun j own point found => kept _ point (assigned.threads j own point found)⟩
    fun _ _ same => by contradiction

end Assigned

/-- The thread's share pays for what it has still to run, and for itself and the tasks
it waits for. -/
structure Affords (w maxThreads : Nat) (share : Nat → Nat) (finished : List Nat) (budget : Nat) (point : Point) : Prop where
  next : point.next.demand w maxThreads ≤ budget
  forks : point.pending ≠ [] ∨ point.futures ≠ [] →
    1 + (point.pending.map (Body.demand w maxThreads)).sum + due share finished point.futures ≤ budget

structure Funded (w maxThreads total : Nat) (share : Nat → Nat) (s : State) : Prop where
  assigned : Assigned w maxThreads (· ≤ ·) (Affords w maxThreads) share s
  balance : s.held share + s.unsubmitted w maxThreads ≤ total + s.owed share

theorem affords_run {finished : List Nat} {budget : Nat} {body : Body} (enough : body.demand w maxThreads ≤ budget) :
    Affords w maxThreads share finished budget (.run body) := by
  refine ⟨enough,fun forks => ?_⟩
  rcases forks with pending | waiting <;> contradiction

theorem together_pos {demands : List Nat} (some : demands ≠ []) : together demands = 1 + demands.sum := by
  cases demands with
  | nil => contradiction
  | cons demand rest => rfl

theorem affords_parallelFor {finished : List Nat} {budget start stop : Nat} {func : Nat → Body} {next : Body}
    (enough : (Body.parallelFor start stop func next).demand w maxThreads ≤ budget) :
    Affords w maxThreads share finished budget (parallelFor w maxThreads start stop func next) := by
  rw [demand_parallelFor] at enough
  rcases parallelFor_cases w maxThreads start stop func next with ⟨_,own⟩ | ⟨_,forks⟩
  · rw [own]
    refine affords_run ?_
    rw [demand_seq]
    omega
  · rw [forks]
    refine ⟨(le_max_left _ _).trans enough,fun some => ?_⟩
    have pending : (forked w maxThreads start stop).map (fun chunk => (loop func (indices chunk)).demand w maxThreads) ≠ [] := by
      rcases some with pending | waiting
      · simpa [Point.pending] using pending
      · contradiction
    rw [together_pos pending] at enough
    simp only [Point.pending,Point.futures,due,List.map_map,Function.comp_def,List.map_nil,List.sum_nil]
    omega

theorem Goes.affords {finished : List Nat} {budget : Nat} {before after : Point}
    (goes : Goes w maxThreads finished before after) (affords : Affords w maxThreads share finished budget before) :
    Affords w maxThreads share finished budget after := by
  have same : due share finished after.futures = due share finished before.futures := goes.dues
  cases goes with
  | enter start stop func next => exact affords_parallelFor affords.next
  | join func futures next => exact ⟨affords.next,fun forks => affords.forks forks⟩
  | pass future rest next ready => exact ⟨affords.next,fun _ => same ▸ affords.forks (Or.inr (List.cons_ne_nil _ _))⟩
  | leave next => exact affords_run affords.next

theorem held_submit (inv : Inv s) (agree : ∀ id < s.enqueued, other id = share id) (body : Body) :
    (s.push body).held other = s.held share + other s.enqueued := by
  rw [held_push,held_agree inv agree]

theorem held_drop (inv : Inv s) (agree : ∀ id < s.enqueued, other id = share id) (body : Body) (i : Nat) :
    ((s.push body).drop i).held other = s.held share + other s.enqueued :=
  held_submit inv agree body

theorem owed_push (inv : Inv s) (agree : ∀ id < s.enqueued, other id = share id) (body : Body) :
    (s.push body).owed other = s.owed share :=
  show s.owed other = s.owed share from owed_agree inv agree

theorem owed_drop (inv : Inv s) (agree : ∀ id < s.enqueued, other id = share id) (body : Body) (i : Nat) :
    ((s.push body).drop i).owed other = s.owed share :=
  owed_push inv agree body

theorem unsubmitted_submit {i : Nat} {body : Body} (found : s.outside[i]? = some body) :
    ((s.push body).drop i).unsubmitted w maxThreads + body.demand w maxThreads =
      s.unsubmitted w maxThreads :=
  sum_erase (Body.demand w maxThreads) found

/-- Who waits for a new task owes its share. -/
theorem owed_fork {k id : Nat} {chunk : Chunk} {left : List Chunk} {func : Nat → Body} {futures : List Nat} {next : Body}
    (inv : Inv s) (agree : ∀ id < s.enqueued, other id = share id)
    (found : s.workers[k]? = some (some (id,.submit (chunk :: left) func futures next))) :
    ((s.push (loop func (indices chunk))).stand k (some (id,.submit left func (futures ++ [s.enqueued]) next))).owed other =
      s.owed share + other s.enqueued := by
  have fresh : s.enqueued ∉ s.finished := fun done => Nat.lt_irrefl _ (inv.finished _ done)
  have more := due_append other s.finished futures s.enqueued fresh
  have stands := owed_stand (s := s.push (loop func (indices chunk))) other found
    (.submit left func (futures ++ [s.enqueued]) next)
  have owed := owed_push inv agree (loop func (indices chunk))
  have finished : (s.push (loop func (indices chunk))).finished = s.finished := rfl
  simp only [Point.futures,finished] at stands
  omega

theorem Affords.agree {finished : List Nat} {budget : Nat} {point : Point}
    (affords : Affords w maxThreads share finished budget point)
    (agree : ∀ future ∈ point.futures, other future = share future) : Affords w maxThreads other finished budget point :=
  ⟨affords.next,fun forks => due_agree finished agree ▸ affords.forks forks⟩

theorem Affords.finish {finished : List Nat} {budget : Nat} {point : Point} (id : Nat)
    (affords : Affords w maxThreads share finished budget point) : Affords w maxThreads share (id :: finished) budget point :=
  ⟨affords.next,fun forks => (Nat.add_le_add_left (due_finish share finished point.futures id).1 _).trans (affords.forks forks)⟩

theorem Affords.fork {finished : List Nat} {budget future : Nat} {chunk : Chunk} {left : List Chunk} {func : Nat → Body}
    {futures : List Nat} {next : Body} (unfinished : future ∉ finished)
    (own : share future = (loop func (indices chunk)).demand w maxThreads)
    (affords : Affords w maxThreads share finished budget (.submit (chunk :: left) func futures next)) :
    Affords w maxThreads share finished budget (.submit left func (futures ++ [future]) next) := by
  refine ⟨affords.next,fun _ => ?_⟩
  have enough := affords.forks (Or.inl (List.cons_ne_nil _ _))
  have more := due_append share finished futures future unfinished
  simp only [Point.pending,Point.futures,List.map_cons,List.sum_cons] at enough ⊢
  omega

theorem Funded.finish {total k id : Nat} (inv : Inv s) (funded : Funded w maxThreads total share s)
    (found : s.workers[k]? = some (some (id,.run .ret))) :
    Funded w maxThreads total share (({s with finished := id :: s.finished} : State).stand k none) := by
  refine ⟨funded.assigned.finish fun _ _ affords => affords.finish id,?_⟩
  have held := held_finish share found
  have owed := owed_finish share inv found
  have balance := funded.balance
  simp only [State.unsubmitted,State.stand] at held owed balance ⊢
  omega

theorem Funded.fork {total k id : Nat} {chunk : Chunk} {left : List Chunk} {func : Nat → Body} {futures : List Nat}
    {next : Body} (inv : Inv s) (funded : Funded w maxThreads total share s) (agree : ∀ id < s.enqueued, other id = share id)
    (own : other s.enqueued = (loop func (indices chunk)).demand w maxThreads)
    (found : s.workers[k]? = some (some (id,.submit (chunk :: left) func futures next))) :
    Funded w maxThreads total other
      ((s.push (loop func (indices chunk))).stand k (some (id,.submit left func (futures ++ [s.enqueued]) next))) := by
  have fresh : s.enqueued ∉ s.finished := fun done => Nat.lt_irrefl _ (inv.finished _ done)
  have pushed := funded.assigned.push inv agree (Nat.le_of_eq own.symm) fun _ _ affords => affords.agree
  refine ⟨pushed.go ((pushed.threads k id _ found).fork fresh own),?_⟩
  rw [held_stand (s := s.push (loop func (indices chunk))) found,held_submit inv agree,owed_fork inv agree found]
  have balance := funded.balance
  simp only [State.unsubmitted,State.stand,State.push] at balance ⊢
  omega

theorem update_agree (s : State) (share : Nat → Nat) (amount : Nat) :
    ∀ id < s.enqueued, Function.update share s.enqueued amount id = share id :=
  fun _ inside => Function.update_of_ne (Nat.ne_of_lt inside) _ _

theorem funded_moves {total : Nat} (inv : Inv s) (funded : Funded w maxThreads total share s) (moves : Moves w maxThreads s t) :
    ∃ other, Funded w maxThreads total other t := by
  have balance := funded.balance
  cases moves with
  | submit i body found =>
    have agree := update_agree s share (body.demand w maxThreads)
    have own : Function.update share s.enqueued (body.demand w maxThreads) s.enqueued = body.demand w maxThreads :=
      Function.update_self _ _ _
    have pushed := funded.assigned.push inv agree (Nat.le_of_eq own.symm) fun _ _ affords => affords.agree
    refine ⟨_,⟨pushed.queued,pushed.threads⟩,?_⟩
    have fewer := @unsubmitted_submit w maxThreads _ _ _ found
    rw [held_drop inv agree,owed_drop inv agree]
    omega
  | take k task rest idle front =>
    refine ⟨share,funded.assigned.take front fun enough => affords_run enough,?_⟩
    rw [held_take idle front,owed_take idle]
    exact balance
  | work k id point t found works =>
    cases works with
    | finish => exact ⟨share,funded.finish inv found⟩
    | push => exact ⟨_,funded.fork inv (update_agree s share _) (Function.update_self _ _ _) found⟩
    | go point after goes =>
      refine ⟨share,funded.assigned.go (goes.affords (funded.assigned.threads k id point found)),?_⟩
      rw [held_stand found after,owed_go found goes]
      exact balance

/-- A thread that waits holds a share for itself beside what it owes. -/
theorem Affords.waiting {finished : List Nat} {budget : Nat} {point : Point}
    (affords : Affords w maxThreads share finished budget point) (waits : point.waits finished) :
    due share finished point.futures + 1 ≤ budget := by
  cases point with
  | run | submit => contradiction
  | wait futures next =>
    cases futures with
    | nil => contradiction
    | cons future rest =>
      have enough := affords.forks (Or.inr (List.cons_ne_nil _ _))
      simp only [Point.pending,List.map_nil,List.sum_nil] at enough
      omega

theorem waits_future {finished : List Nat} {point : Point} (waits : point.waits finished) :
    ∃ future ∈ point.futures, future ∉ finished := by
  cases point with
  | run | submit => contradiction
  | wait futures next =>
    cases futures with
    | nil => contradiction
    | cons future rest => exact ⟨future,List.mem_cons_self,waits⟩

/-- With fewer demands than workers some thread can always go on. -/
theorem Funded.progress {total : Nat} (inv : Inv s) (funded : Funded w maxThreads total share s)
    (few : total < s.workers.length) (working : ¬ Done s) : ∃ t, Moves w maxThreads s t := by
  by_contra stuck
  rw [not_exists] at stuck
  have waits (k id : Nat) (point : Point) (found : s.workers[k]? = some (some (id,point))) : point.waits s.finished :=
    (works_or_waits k id point).resolve_right fun ⟨t,works⟩ => stuck t (.work k id point t found works)
  have outside : s.outside = [] := by
    cases tasks : s.outside with
    | nil => rfl
    | cons body rest => exact absurd (.submit 0 body (by simp [tasks])) (stuck _)
  cases front : s.taskQueue with
  | nil =>
    refine working ⟨outside,front,fun worker member => ?_⟩
    obtain ⟨k,found⟩ := List.mem_iff_getElem?.mp member
    cases worker with
    | none => rfl
    | some thread =>
      refine absurd (waits k thread.1 thread.2 found) (inv.unblocked (fun _ point => point.waits s.finished)
        front (fun j id point stands waiting => ?_) found)
      obtain ⟨future,waited,unfinished⟩ := waits_future waiting
      exact ⟨future,waited,unfinished,fun i after other => waits i future after other⟩
  | cons task rest =>
    -- every worker waits, and holds more than it owes
    have each : (s.workers.map fun worker => owes share s.finished worker + 1).sum ≤ (s.workers.map (holds share)).sum := by
      refine List.sum_le_sum fun worker member => ?_
      obtain ⟨k,found⟩ := List.mem_iff_getElem?.mp member
      cases worker with
      | none => exact absurd (.take k task rest found front) (stuck _)
      | some thread => exact (funded.assigned.threads k _ _ found).waiting (waits k _ _ found)
    have balance := funded.balance
    rw [List.sum_map_add] at each
    simp only [List.map_const',List.sum_replicate_nat,Nat.mul_one] at each
    simp only [State.held,State.owed] at balance
    omega

structure Provided (w maxThreads total : Nat) (s : State) : Prop where
  inv : Inv s
  funded : ∃ share, Funded w maxThreads total share s
  few : total < s.workers.length

theorem provided_moves {total : Nat} (provided : Provided w maxThreads total s) (moves : Moves w maxThreads s t) :
    Provided w maxThreads total t := by
  obtain ⟨inv,⟨share,funded⟩,few⟩ := provided
  exact ⟨inv_moves inv moves,funded_moves inv funded moves,moves.workers_length ▸ few⟩

theorem Provided.completes {total : Nat} (provided : Provided w maxThreads total s) : Completes w maxThreads s := by
  obtain ⟨labels,last,_,reached,_,done⟩ := run_to_goal_obeying (Provided w maxThreads total) (fun _ _ => True)
    (State.rank w maxThreads) (fun state known (working : ¬ Done state) => by
      obtain ⟨inv,⟨share,funded⟩,few⟩ := known
      obtain ⟨t,moves⟩ := funded.progress inv few working
      obtain ⟨label,taken⟩ := moves.step
      exact ⟨label,t,trivial,taken,provided_moves ⟨inv,⟨share,funded⟩,few⟩ moves,moves.smaller⟩) s provided
  exact ⟨labels,last,reached,done⟩

theorem provided_init {workers : Nat} {tasks : List Body} (few : (tasks.map (Body.demand w maxThreads)).sum < workers) :
    Provided w maxThreads (tasks.map (Body.demand w maxThreads)).sum (init workers tasks) where
  inv := inv_init workers tasks
  funded := by
    refine ⟨fun _ => 0,⟨by simp [init],fun k id point found => ?_⟩,?_⟩
    · simp [init,List.getElem?_replicate] at found
    · simp [init,State.held,State.owed,State.unsubmitted,holds,owes]
  few := by simpa [init] using few

theorem completes_run {workers : Nat} {tasks : List Body} {labels : List Label}
    (few : (tasks.map (Body.demand w maxThreads)).sum < workers)
    (reached : run (step w maxThreads) (init workers tasks) labels = some s) : Completes w maxThreads s :=
  (run_invariant (Provided w maxThreads (tasks.map (Body.demand w maxThreads)).sum)
    (fun _ _ _ provided taken => provided_moves provided (step_moves taken)) (provided_init few) reached).completes

end Ezthread.NestedLoops
