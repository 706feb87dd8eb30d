import Ezthread.PoolShutdown
import Mathlib.Data.List.Perm.Subperm

/-! In which order the workers of a `ThreadPool` begin its tasks. They are taken from the
queue in the order they were enqueued, and what was taken and not begun is in the hands
of a worker. -/
namespace Ezthread.ThreadPool
open Transition Activation Future

variable {α ε : Type*}

/-- The task a worker has taken and not begun. -/
def Worker.unstarted : Worker α ε → Option Nat
  | .fetchSub id | .unlock (some id) | .markActive id | .execute id => some id
  | _ => none

/-- The tasks enqueued before the task and not begun. -/
def State.passed (s : State α ε) (id : Nat) : List Nat := (List.range id).filter fun other => other ∉ s.executed

/-- A task begins when fewer of those before it are still to begin than there are workers;
a single worker begins them in their order. -/
structure Fair (n : Nat) (s : State α ε) : Prop where
  staffed : s.workers.length = n
  few : ∀ id ∈ s.executed, (s.passed id).length < n
  serial : n = 1 → s.executed = List.range s.executed.length

variable {platform : Platform ε} {s t : State α ε}

theorem unstarted_of_held {id : Nat} (held : 0 < s.held id) (unbegun : s.begun id = 0) :
    id ∈ s.workers.filterMap Worker.unstarted := by
  obtain ⟨k,worker,found,task⟩ := count_some held
  have holds : worker.task = some id := by simpa using task
  have member := List.mem_of_getElem? found
  have fresh : ¬ (worker.started == some id) = true := fun begun => by
    have positive := count_pos (fun worker : Worker α ε => worker.started == some id) found begun
    exact absurd unbegun (Nat.ne_of_gt positive)
  refine List.mem_filterMap.mpr ⟨worker,member,?_⟩
  have idle : worker.started ≠ some id := by simpa using fresh
  clear task fresh member found
  cases worker with
  | unlock task => cases task <;> simp_all [Worker.task,Worker.unstarted]
  | _ => simp_all [Worker.task,Worker.started,Worker.unstarted]

theorem passed_mono (more : ∀ id ∈ s.executed, id ∈ t.executed) (id : Nat) : (t.passed id).length ≤ (s.passed id).length := by
  refine (List.monotone_filter_right _ fun other unbegun => ?_).length_le
  simp only [decide_eq_true_eq] at unbegun ⊢
  exact fun member => unbegun (more other member)

theorem range_of_none_passed {n id : Nat} (order : s.executed = List.range n) (none : s.passed id = []) (fresh : id ∉ s.executed) :
    id = n := by
  have reached : n ≤ id := by
    by_contra early
    exact fresh (by rw [order]; exact List.mem_range.mpr (by omega))
  by_contra different
  have unbegun : n ∈ s.passed id :=
    List.mem_filter.mpr ⟨List.mem_range.mpr (by omega),decide_eq_true (by rw [order]; simp)⟩
  rw [none] at unbegun
  contradiction

theorem fair_construct (platform : Platform ε) (config : Config) :
    Fair (config.adjust platform).minThreads (construct platform config : State α ε) := by
  rw [construct_eq]
  exact ⟨List.length_replicate,fun _ member => by simp [empty] at member,fun _ => rfl⟩

variable [Inhabited α] [Inhabited ε]

theorem Moves.executed (moves : Moves platform s t) : t.workers.length = s.workers.length ∧
    (t.executed = s.executed ∨ ∃ (k id : Nat), s.workers[k]? = some (Worker.execute id) ∧ t.executed = s.executed ++ [id]) := by
  cases moves with
  | invoke => exact ⟨rfl,Or.inl rfl⟩
  | call i call t found moves => cases moves <;> exact ⟨rfl,Or.inl rfl⟩
  | worker k t moves =>
    cases moves with
    | execute id found => exact ⟨List.length_set,Or.inr ⟨k,id,found,rfl⟩⟩
    | _ => exact ⟨List.length_set,Or.inl rfl⟩

/-- The task that begins and all before it that have not begun are held by different workers. -/
theorem few_passed {k id : Nat} (ledger : Ledger s) (found : s.workers[k]? = some (.execute id)) :
    (s.passed id).length < s.workers.length := by
  have own : id ∈ s.workers.filterMap Worker.unstarted :=
    List.mem_filterMap.mpr ⟨_,List.mem_of_getElem? found,rfl⟩
  have taken : id < s.dequeued.length := by
    have places := ledger.places id
    have held : 0 < s.held id := held_pos found rfl
    have counted := ledger.dequeued_count id
    split at counted
    next inside => exact inside
    next => omega
  have distinct : (id :: s.passed id).Nodup := by
    refine List.nodup_cons.mpr ⟨fun member => ?_,List.nodup_range.filter _⟩
    exact Nat.lt_irrefl id (List.mem_range.mp (List.mem_filter.mp member).1)
  have inside : id :: s.passed id ⊆ s.workers.filterMap Worker.unstarted := by
    intro other member
    rcases List.mem_cons.mp member with rfl | passed
    · exact own
    · obtain ⟨before,unbegun⟩ := List.mem_filter.mp passed
      have earlier : other < s.dequeued.length := (List.mem_range.mp before).trans taken
      have places := ledger.places other
      have counted := ledger.dequeued_count other
      have executed := ledger.executed other
      rw [List.count_eq_zero.mpr (of_decide_eq_true unbegun)] at executed
      rw [if_pos earlier] at counted
      exact unstarted_of_held (by omega) (by omega)
  exact (List.subperm_of_subset distinct inside).length_le.trans (List.length_filterMap_le _ _)

theorem Fair.moves {n : Nat} (fair : Fair n s) (ledger : Ledger s) (later : Ledger t) (moves : Moves platform s t) :
    Fair n t := by
  obtain ⟨staffed,same | ⟨k,id,found,begins⟩⟩ := moves.executed
  · refine ⟨staffed.trans fair.staffed,fun id member => ?_,fun single => by rw [same]; exact fair.serial single⟩
    rw [same] at member
    exact (passed_mono (fun other begun => same.symm ▸ begun) id).trans_lt (fair.few id member)
  · have fewer := few_passed ledger found
    have more (other : Nat) (begun : other ∈ s.executed) : other ∈ t.executed := begins ▸ List.mem_append_left _ begun
    refine ⟨staffed.trans fair.staffed,fun other member => ?_,fun single => ?_⟩
    · rw [begins] at member
      rcases List.mem_append.mp member with before | now
      · exact (passed_mono more other).trans_lt (fair.few other before)
      · obtain rfl : other = id := List.mem_singleton.mp now
        exact (passed_mono more other).trans_lt (fair.staffed ▸ fewer)
    · have none : s.passed id = [] := List.eq_nil_of_length_eq_zero (by have := fair.staffed; omega)
      have fresh : id ∉ s.executed := by
        intro begun
        have once := later.executed_once id
        have counted := List.count_pos_iff.mpr begun
        rw [begins,List.count_append,List.count_singleton_self] at once
        omega
      have last := range_of_none_passed (fair.serial single) none fresh
      rw [begins,List.length_append,List.length_singleton,List.range_succ,← fair.serial single,← last]

/-- Whenever a task has begun, fewer of the tasks enqueued before it are still to begin than the pool was
made with workers; and with one worker the tasks begin in the order they were enqueued. -/
theorem tasks_begin_in_order {config : Config} {labels : List (Label α ε)}
    (reached : run (step platform) (construct platform config) labels = some s) :
    (∀ id ∈ s.executed, ((List.range id).filter fun other => other ∉ s.executed).length < (config.adjust platform).minThreads) ∧
      ((config.adjust platform).minThreads = 1 → s.executed = List.range s.executed.length) := by
  have fair := (run_invariant (fun state => Inv platform state ∧ Fair (config.adjust platform).minThreads state)
    (fun before label after known taken => by
      have inv := inv_step before label after known.1 taken
      exact ⟨inv,known.2.moves known.1.ledger inv.ledger (step_moves taken)⟩)
    ⟨⟨control_init platform config,ledger_init platform config⟩,fair_construct platform config⟩ reached).2
  exact ⟨fair.few,fair.serial⟩

/-- The second task begins while a worker holds the first. -/
def overtakes : List (Label Nat Nat) :=
  [.invoke .submit,.call 0,.call 0,.call 0,.invoke .submit,.call 1,.call 1,.call 1,.worker 0,.worker 0,.worker 0,.worker 0,.worker 0,
    .worker 0,.worker 0,.worker 1,.worker 1,.worker 1,.worker 1,.worker 1,.worker 1,.worker 1,.worker 1,.worker 1]

theorem tasks_begin_in_order_overtaken : ∃ s : State Nat Nat,
    run (step ⟨64,4,fun _ => 0⟩) (construct ⟨64,4,fun _ => 0⟩ ⟨2,2⟩) overtakes = some s ∧ s.executed = [1] ∧
      ∀ id ∈ s.executed, ((List.range id).filter fun other => other ∉ s.executed).length < 2 := by
  obtain ⟨s,reached,begun⟩ : ∃ s : State Nat Nat,
      run (step ⟨64,4,fun _ => 0⟩) (construct ⟨64,4,fun _ => 0⟩ ⟨2,2⟩) overtakes = some s ∧ s.executed = [1] := ⟨_,rfl,rfl⟩
  exact ⟨s,reached,begun,(tasks_begin_in_order reached).1⟩

end Ezthread.ThreadPool
