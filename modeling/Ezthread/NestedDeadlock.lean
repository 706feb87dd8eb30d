import Ezthread.NestedBudgets

/-! Where the demands of the submitted tasks are as many as the workers, some order of
steps gets every worker stuck in a `ParallelFor` whose tasks no one is left to take. -/
namespace Ezthread.NestedLoops
open Transition Activation Chunks Algorithms

/-- A thread that cannot return from its call unless some task finishes. -/
inductive Stalled (w maxThreads : Nat) (finished : List Nat) : Point → Prop
  | enters (start stop : Nat) (func : Nat → Body) (next : Body) (forks : forked w maxThreads start stop ≠ []) :
      Stalled w maxThreads finished (.run (.parallelFor start stop func next))
  | submits (left : List Chunk) (func : Nat → Body) (futures : List Nat) (next : Body) (waits : left ≠ [] ∨ futures ≠ [])
      (unfinished : ∀ future ∈ futures.head?, future ∉ finished) : Stalled w maxThreads finished (.submit left func futures next)
  | waits (future : Nat) (rest : List Nat) (next : Body) (unfinished : future ∉ finished) :
      Stalled w maxThreads finished (.wait (future :: rest) next)

def Doomed (w maxThreads : Nat) (s : State) : Prop :=
  ∀ worker ∈ s.workers, ∃ id point, worker = some (id,point) ∧ Stalled w maxThreads s.finished point

/-- The thread has a share of its own only for what it runs next, or else for itself
and the tasks it waits for. -/
inductive Threatens (w maxThreads : Nat) (share : Nat → Nat) (finished : List Nat) (budget : Nat) (point : Point) : Prop
  | later (enough : budget ≤ point.next.demand w maxThreads) (unshared : ∀ future ∈ point.futures, share future = 0)
  | now (several : 2 ≤ budget)
      (enough : budget ≤ 1 + (point.pending.map (Body.demand w maxThreads)).sum + due share finished point.futures)

structure Threat (w maxThreads : Nat) (share : Nat → Nat) (s : State) : Prop where
  assigned : Assigned w maxThreads (fun demand budget => budget ≤ demand) (Threatens w maxThreads) share s
  balance : s.workers.length + s.owed share ≤ s.held share + s.unsubmitted w maxThreads

/-- A thread kept from a call whose tasks need no thread beside it. -/
def Point.withheld (w maxThreads budget : Nat) : Point → Prop
  | .run (.parallelFor start stop _ next) =>
      next.demand w maxThreads < budget ∧ budget < 2 ∧ forked w maxThreads start stop ≠ []
  | _ => False

variable {w maxThreads : Nat} {s t : State} {share other : Nat → Nat}

theorem Goes.stalled {finished : List Nat} {before after : Point} (goes : Goes w maxThreads finished before after)
    (stalled : Stalled w maxThreads finished before) : Stalled w maxThreads finished after := by
  cases goes with
  | enter start stop func next =>
    cases stalled with
    | enters _ _ _ _ forks =>
      rcases parallelFor_cases w maxThreads start stop func next with ⟨unforked,_⟩ | ⟨_,submits⟩
      · contradiction
      · rw [submits]
        exact .submits _ func [] next (Or.inl forks) (by simp)
  | join func futures next =>
    cases stalled with
    | submits _ _ _ _ waits unfinished =>
      cases futures with
      | nil => simp at waits
      | cons future rest => exact .waits future rest next (unfinished future rfl)
  | pass future rest next ready =>
    cases stalled with
    | waits _ _ _ unfinished => exact absurd ready unfinished
  | leave next => cases stalled

/-- Who is stalled stays so while all others are. -/
theorem doomed_moves (inv : Inv s) (doomed : Doomed w maxThreads s) (moves : Moves w maxThreads s t) :
    Doomed w maxThreads t := by
  cases moves with
  | submit i body found => exact doomed
  | take k task rest idle front =>
    obtain ⟨id,point,busy,_⟩ := doomed none (List.mem_of_getElem? idle)
    contradiction
  | work k id point t found works =>
    obtain ⟨thread,before,same,stalled⟩ := doomed _ (List.mem_of_getElem? found)
    cases same
    have set (after : Point) (kept : Stalled w maxThreads s.finished after) :
        ∀ worker ∈ s.workers.set k (some (id,after)),
          ∃ id point, worker = some (id,point) ∧ Stalled w maxThreads s.finished point := by
      intro worker member
      rcases List.mem_or_eq_of_mem_set member with old | rfl
      · exact doomed worker old
      · exact ⟨id,after,rfl,kept⟩
    cases works with
    | finish => cases stalled
    | push chunk left func futures next =>
      refine set _ (.submits left func _ next (Or.inr (by simp)) fun future first => ?_)
      cases stalled with
      | submits _ _ _ _ _ unfinished =>
        cases futures with
        | nil =>
          cases first
          exact fun done => Nat.lt_irrefl _ (inv.finished _ done)
        | cons own rest => exact unfinished future first
    | go point after goes => exact set after (goes.stalled stalled)

theorem doomed_stuck (inv : Inv s) (doomed : Doomed w maxThreads s) (positive : 0 < s.workers.length) :
    ¬ Completes w maxThreads s := by
  intro given
  obtain ⟨labels,last,reached,done⟩ := given
  obtain ⟨_,kept,occupied⟩ := run_invariant (fun state => Inv state ∧ Doomed w maxThreads state ∧ 0 < state.workers.length)
    (fun state label next ⟨inv,doomed,positive⟩ taken =>
      have moves := step_moves taken
      ⟨inv_moves inv moves,doomed_moves inv doomed moves,moves.workers_length ▸ positive⟩) ⟨inv,doomed,positive⟩ reached
  obtain ⟨worker,member⟩ := List.exists_mem_of_length_pos occupied
  obtain ⟨id,point,busy,_⟩ := kept worker member
  rw [done.2.2 worker member] at busy
  contradiction

theorem threatens_run {finished : List Nat} {budget : Nat} {body : Body} (enough : budget ≤ body.demand w maxThreads) :
    Threatens w maxThreads share finished budget (.run body) :=
  .later enough (by simp [Point.futures])

theorem Threatens.run {finished : List Nat} {budget : Nat} {body : Body}
    (threatens : Threatens w maxThreads share finished budget (.run body)) : budget ≤ body.demand w maxThreads := by
  cases threatens with
  | later enough _ => exact enough
  | now several enough =>
    simp only [Point.pending,Point.futures,due,List.map_nil,List.sum_nil] at enough
    omega

theorem threatens_parallelFor {finished : List Nat} {budget start stop : Nat} {func : Nat → Body} {next : Body}
    (enough : budget ≤ (Body.parallelFor start stop func next).demand w maxThreads)
    (free : ¬ (Point.run (.parallelFor start stop func next)).withheld w maxThreads budget) :
    Threatens w maxThreads share finished budget (parallelFor w maxThreads start stop func next) := by
  rw [demand_parallelFor] at enough
  rcases parallelFor_cases w maxThreads start stop func next with ⟨unforked,own⟩ | ⟨unlooped,forks⟩
  · rw [own]
    refine threatens_run ?_
    rw [demand_seq]
    simp only [unforked,List.map_nil,together] at enough
    omega
  · rw [forks]
    by_cases rest : budget ≤ next.demand w maxThreads
    · exact .later rest (by simp [Point.futures])
    · have idle : (loop func (looped maxThreads start stop)).demand w maxThreads = 0 := by
        rw [unlooped]
        rfl
      have forking : forked w maxThreads start stop ≠ [] := by
        intro empty
        simp only [empty,List.map_nil,together] at enough
        omega
      have several : 2 ≤ budget := by
        by_contra single
        exact free ⟨by omega,by omega,forking⟩
      rw [together_pos (by simpa using forking)] at enough
      refine .now several ?_
      simp only [Point.pending,Point.futures,due,List.map_map,Function.comp_def,List.map_nil,List.sum_nil]
      omega

theorem Goes.threatens {finished : List Nat} {budget : Nat} {before after : Point}
    (goes : Goes w maxThreads finished before after) (free : ¬ before.withheld w maxThreads budget)
    (threatens : Threatens w maxThreads share finished budget before) :
    Threatens w maxThreads share finished budget after := by
  have same : due share finished after.futures = due share finished before.futures := goes.dues
  cases goes with
  | enter start stop func next => exact threatens_parallelFor threatens.run free
  | join func futures next =>
    cases threatens with
    | later enough unshared => exact .later enough unshared
    | now several enough => exact .now several enough
  | pass future rest next ready =>
    cases threatens with
    | later enough unshared => exact .later enough fun other member => unshared other (List.mem_cons_of_mem future member)
    | now several enough => exact .now several (same ▸ enough)
  | leave next =>
    cases threatens with
    | later enough unshared => exact threatens_run enough
    | now several enough =>
      simp only [Point.pending,Point.futures,due,List.map_nil,List.sum_nil] at enough
      omega

theorem Threatens.agree {finished : List Nat} {budget : Nat} {point : Point}
    (threatens : Threatens w maxThreads share finished budget point)
    (agree : ∀ future ∈ point.futures, other future = share future) : Threatens w maxThreads other finished budget point := by
  cases threatens with
  | later enough unshared => exact .later enough fun future member => (agree future member).trans (unshared future member)
  | now several enough => exact .now several (due_agree finished agree ▸ enough)

theorem Threatens.finish {finished : List Nat} {budget id : Nat} {point : Point} (unshared : share id = 0)
    (threatens : Threatens w maxThreads share finished budget point) :
    Threatens w maxThreads share (id :: finished) budget point := by
  have same := (due_finish share finished point.futures id).2
  rw [unshared,Nat.zero_mul] at same
  cases threatens with
  | later enough unshared => exact .later enough unshared
  | now several enough => exact .now several (enough.trans (Nat.add_le_add_left same _))

/-- What a task about to be submitted adds to the threat. -/
theorem Threatens.fork {finished : List Nat} {budget new : Nat} {chunk : Chunk} {left : List Chunk} {func : Nat → Body}
    {futures : List Nat} {next : Body} (unfinished : new ∉ finished)
    (threatens : Threatens w maxThreads share finished budget (.submit (chunk :: left) func futures next)) :
    ∃ amount ≤ (loop func (indices chunk)).demand w maxThreads, ∀ other : Nat → Nat, other new = amount →
      (∀ future ∈ futures, other future = share future) →
        Threatens w maxThreads other finished budget (.submit left func (futures ++ [new]) next) := by
  cases threatens with
  | later enough unshared =>
    refine ⟨0,Nat.zero_le _,fun other own agree => .later enough fun future member => ?_⟩
    rcases List.mem_append.mp member with old | last
    · exact (agree future old).trans (unshared future old)
    · rw [List.mem_singleton.mp last]
      exact own
  | now several enough =>
    refine ⟨_,Nat.le_refl _,fun other own agree => .now several ?_⟩
    have more := due_append other finished futures new unfinished
    have same := due_agree finished agree
    simp only [Point.pending,Point.futures,List.map_cons,List.sum_cons] at enough ⊢
    omega

theorem owed_finish_le {k id : Nat} (share : Nat → Nat) (found : s.workers[k]? = some (some (id,.run .ret))) :
    (({s with finished := id :: s.finished} : State).stand k none).owed share ≤ s.owed share := by
  have moved := sum_set (owes share (id :: s.finished)) none found
  simp only [owes,Point.futures,due,List.map_nil,List.sum_nil] at moved
  have each : (s.workers.map (owes share (id :: s.finished))).sum ≤ s.owed share := by
    refine List.sum_le_sum fun worker _ => ?_
    cases worker with
    | none => exact Nat.le_refl _
    | some thread => exact (due_finish share s.finished thread.2.futures id).1
  simp only [State.owed,State.stand] at each ⊢
  omega

theorem Threat.submit {i : Nat} {body : Body} (inv : Inv s) (threat : Threat w maxThreads share s)
    (agree : ∀ id < s.enqueued, other id = share id) (own : other s.enqueued = body.demand w maxThreads)
    (found : s.outside[i]? = some body) : Threat w maxThreads other ((s.push body).drop i) := by
  have pushed := threat.assigned.push inv agree (Nat.le_of_eq own) fun _ _ threatens => threatens.agree
  refine ⟨⟨pushed.queued,pushed.threads⟩,?_⟩
  have balance := threat.balance
  have fewer := @unsubmitted_submit w maxThreads _ _ _ found
  have workers : ((s.push body).drop i).workers.length = s.workers.length := rfl
  rw [held_drop inv agree,owed_drop inv agree]
  omega

theorem Threat.take {k : Nat} {task : Nat × Body} {rest : List (Nat × Body)} (threat : Threat w maxThreads share s)
    (idle : s.workers[k]? = some none) (front : s.taskQueue = task :: rest) :
    Threat w maxThreads share (({s with taskQueue := rest} : State).stand k (some (task.1,.run task.2))) := by
  refine ⟨threat.assigned.take front fun enough => threatens_run enough,?_⟩
  rw [held_take idle front,owed_take idle,State.stand,List.length_set]
  exact threat.balance

/-- What a thread does that is not withheld. -/
theorem Threat.work {k id : Nat} {point : Point} (inv : Inv s) (threat : Threat w maxThreads share s)
    (found : s.workers[k]? = some (some (id,point))) (free : ¬ point.withheld w maxThreads (share id))
    (works : Works w maxThreads s k id point t) : ∃ other, Threat w maxThreads other t := by
  have balance := threat.balance
  have own := threat.assigned.threads k id point found
  cases works with
  | finish =>
    have unshared : share id = 0 := Nat.le_zero.mp own.run
    refine ⟨share,threat.assigned.finish fun _ _ threatens => threatens.finish unshared,?_⟩
    have held := held_finish share found
    have owed := owed_finish_le share found
    simp only [State.unsubmitted,State.stand,List.length_set] at held owed balance ⊢
    omega
  | push chunk left func futures next =>
    have fresh : s.enqueued ∉ s.finished := fun done => Nat.lt_irrefl _ (inv.finished _ done)
    obtain ⟨amount,enough,kept⟩ := own.fork fresh
    have agree := update_agree s share amount
    have new : Function.update share s.enqueued amount s.enqueued = amount := Function.update_self _ _ _
    obtain ⟨inside,futures⟩ := inv.running k id _ found
    have threatens := kept _ new fun future member => agree future (futures future member).2
    have pushed := threat.assigned.push inv agree (new.trans_le enough) fun _ _ threatens => threatens.agree
    refine ⟨_,pushed.go (by rw [agree id inside]; exact threatens),?_⟩
    rw [held_stand (s := s.push (loop func (indices chunk))) found,held_submit inv agree,owed_fork inv agree found]
    simp only [State.unsubmitted,State.stand,State.push,List.length_set] at balance ⊢
    omega
  | go point after goes =>
    refine ⟨share,threat.assigned.go (goes.threatens free own),?_⟩
    rw [held_stand found after,owed_go found goes,State.stand,List.length_set]
    exact balance

/-- A thread that can do nothing without breaking the threat. -/
def Point.stays (w maxThreads : Nat) (share : Nat → Nat) (finished : List Nat) (id : Nat) (point : Point) : Prop :=
  point.waits finished ∨ point.withheld w maxThreads (share id)

theorem stays_stalled {finished : List Nat} {id : Nat} {point : Point} (stays : point.stays w maxThreads share finished id) :
    Stalled w maxThreads finished point := by
  rcases stays with waits | withheld
  · cases point with
    | run | submit => contradiction
    | wait futures next =>
      cases futures with
      | nil => contradiction
      | cons future rest => exact .waits future rest next waits
  · cases point with
    | submit | wait => contradiction
    | run body =>
      cases body with
      | ret => contradiction
      | parallelFor start stop func next => exact .enters start stop func next withheld.2.2

theorem withheld_share {budget : Nat} {point : Point} (withheld : point.withheld w maxThreads budget) : budget = 1 := by
  cases point with
  | submit | wait => contradiction
  | run body =>
    cases body with
    | ret => contradiction
    | parallelFor start stop func next =>
      obtain ⟨more,fewer,_⟩ := withheld
      omega

/-- With an empty queue a thread that stays has one share at most beside what it owes. -/
theorem Threat.share_le {k id : Nat} {point : Point} (inv : Inv s) (threat : Threat w maxThreads share s)
    (empty : s.taskQueue = [])
    (all : ∀ (k id : Nat) (point : Point), s.workers[k]? = some (some (id,point)) →
      point.stays w maxThreads share s.finished id)
    (found : s.workers[k]? = some (some (id,point))) : share id ≤ due share s.finished point.futures + 1 := by
  rcases all k id point found with waits | withheld
  · cases threat.assigned.threads k id point found with
    | now several enough =>
      cases point with
      | run | submit => contradiction
      | wait futures next =>
        simp only [Point.pending,List.map_nil,List.sum_nil] at enough
        omega
    | later enough unshared =>
      -- the task it waits for waits for a later one, and so on
      refine absurd ⟨waits,unshared⟩ (inv.unblocked
        (fun _ point => point.waits s.finished ∧ ∀ future ∈ point.futures, share future = 0) empty ?_ found)
      intro j thread before stands given
      obtain ⟨waiting,none⟩ := given
      obtain ⟨future,waited,unfinished⟩ := waits_future waiting
      refine ⟨future,waited,unfinished,fun i after runs => ?_⟩
      have zero := none future waited
      rcases all i future after runs with blocked | withheld
      · cases threat.assigned.threads i future after runs with
        | later _ rest => exact ⟨blocked,rest⟩
        | now several _ => omega
      · have one := withheld_share withheld
        omega
  · have one := withheld_share withheld
    omega

/-- The threat can be carried on until it has come true. -/
theorem Threat.progress (inv : Inv s) (threat : Threat w maxThreads share s) (safe : ¬ Doomed w maxThreads s) :
    ∃ t, Moves w maxThreads s t ∧ ∃ other, Threat w maxThreads other t := by
  by_contra stuck
  have all (k id : Nat) (point : Point) (found : s.workers[k]? = some (some (id,point))) :
      point.stays w maxThreads share s.finished id := by
    by_contra moves
    obtain ⟨awake,free⟩ := not_or.mp moves
    obtain ⟨t,works⟩ := (works_or_waits k id point).resolve_left awake
    exact stuck ⟨t,.work k id point t found works,threat.work inv found free works⟩
  have outside : s.outside = [] := by
    cases tasks : s.outside with
    | nil => rfl
    | cons body rest =>
      have found : s.outside[0]? = some body := by simp [tasks]
      exact absurd ⟨_,.submit 0 body found,_,threat.submit inv (update_agree s share _) (Function.update_self _ _ _) found⟩ stuck
  obtain ⟨k,idle⟩ : ∃ k, s.workers[k]? = some none := by
    by_contra busy
    refine safe fun worker member => ?_
    obtain ⟨k,found⟩ := List.mem_iff_getElem?.mp member
    cases worker with
    | none => exact absurd ⟨k,found⟩ busy
    | some thread => exact ⟨thread.1,thread.2,rfl,stays_stalled (all k _ _ found)⟩
  have empty : s.taskQueue = [] := by
    cases front : s.taskQueue with
    | nil => rfl
    | cons task rest => exact absurd ⟨_,.take k task rest idle front,share,threat.take idle front⟩ stuck
  -- the idle worker is missing from what all hold
  have each : (s.workers.map (holds share)).sum < (s.workers.map fun worker => owes share s.finished worker + 1).sum := by
    refine List.sum_lt_sum _ _ (fun worker member => ?_) ⟨none,List.mem_of_getElem? idle,Nat.lt_succ_self _⟩
    obtain ⟨j,found⟩ := List.mem_iff_getElem?.mp member
    cases worker with
    | none => exact Nat.zero_le _
    | some thread => exact threat.share_le inv empty all found
  have balance := threat.balance
  rw [List.sum_map_add] at each
  simp only [List.map_const',List.sum_replicate_nat,Nat.mul_one] at each
  simp only [State.held,State.owed,State.unsubmitted,empty,outside,List.map_nil,List.sum_nil] at balance
  omega

theorem threat_init {workers : Nat} {tasks : List Body} (many : workers ≤ (tasks.map (Body.demand w maxThreads)).sum) :
    Threat w maxThreads (fun _ => 0) (init workers tasks) where
  assigned := ⟨by simp [init],fun k id point found => by simp [init,List.getElem?_replicate] at found⟩
  balance := by simpa [init,State.held,State.owed,State.unsubmitted,holds,owes] using many

theorem doomed_run {workers : Nat} {tasks : List Body} (many : workers ≤ (tasks.map (Body.demand w maxThreads)).sum) :
    ∃ labels s, run (step w maxThreads) (init workers tasks) labels = some s ∧ Inv s ∧ s.workers.length = workers ∧
      Doomed w maxThreads s := by
  obtain ⟨labels,s,_,reached,⟨inv,_,length⟩,doomed⟩ := run_to_goal_obeying
    (fun state => Inv state ∧ (∃ share, Threat w maxThreads share state) ∧ state.workers.length = workers) (fun _ _ => True)
    (State.rank w maxThreads) (fun state known (safe : ¬ Doomed w maxThreads state) => by
      obtain ⟨inv,⟨share,threat⟩,length⟩ := known
      obtain ⟨t,moves,further⟩ := threat.progress inv safe
      obtain ⟨label,taken⟩ := moves.step
      exact ⟨label,t,trivial,taken,⟨inv_moves inv moves,further,moves.workers_length.trans length⟩,moves.smaller⟩)
    (init workers tasks) ⟨inv_init workers tasks,⟨_,threat_init many⟩,by simp [init]⟩
  exact ⟨labels,s,reached,inv,length,doomed⟩

/-- No state that a pool can reach is stuck if and only if the demands of the tasks
are fewer than the workers. -/
theorem completes_iff {workers : Nat} (tasks : List Body) (positive : 0 < workers) :
    (∀ labels s, run (step w maxThreads) (init workers tasks) labels = some s → Completes w maxThreads s) ↔
      (tasks.map (Body.demand w maxThreads)).sum < workers := by
  constructor
  · intro all
    by_contra many
    obtain ⟨labels,s,reached,inv,length,doomed⟩ := doomed_run (Nat.le_of_not_lt many)
    exact doomed_stuck inv doomed (length ▸ positive) (all labels s reached)
  · intro few labels s reached
    exact completes_run few reached

def twoChunks : Body := .parallelFor 0 2 (fun _ => .ret) .ret

/-- One worker waits for the chunks and the other runs them. -/
theorem completes_iff_two_workers :
    twoChunks.demand 64 2 = 1 ∧
      ∀ labels s, run (step 64 2) (init 2 [twoChunks]) labels = some s → Completes 64 2 s :=
  ⟨by decide,(completes_iff [twoChunks] (by decide)).mpr (by decide)⟩

/-- The only worker waits for its own chunks. -/
theorem single_worker_stuck :
    ¬ ∀ labels s, run (step 64 2) (init 1 [twoChunks]) labels = some s → Completes 64 2 s := by
  intro all
  obtain ⟨s,reached,workers,finished⟩ : ∃ s, run (step 64 2) (init 1 [twoChunks])
      [.submit 0,.take 0,.work 0,.work 0,.work 0,.work 0] = some s ∧
      s.workers = [some (0,.wait [1,2] .ret)] ∧ s.finished = [] := ⟨_,rfl,rfl,rfl⟩
  refine doomed_stuck (inv_run reached) (fun worker member => ?_) (by simp [workers]) (all _ s reached)
  rw [workers] at member
  exact ⟨0,_,List.mem_singleton.mp member,.waits 1 [2] .ret (by simp [finished])⟩

end Ezthread.NestedLoops
