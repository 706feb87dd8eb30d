import Ezthread.ThreadPool

/-! The constructor of `ThreadPool` and the unwinding when a worker cannot be created:
the destructor does not run, the members are destroyed in reverse order, and each
`Thread` in `m_workers` joins its worker. -/
namespace Ezthread.ThreadPool
open Transition Activation

variable {α ε : Type*}

/-- While it unwinds, the place in `m_workers` of the `Thread` to be destroyed next. -/
inductive Phase
  | creating
  | unwinding (next : Nat)
  | thrown
  | constructed
  deriving DecidableEq

structure Construction (α ε : Type*) where
  pool : State α ε
  phase : Phase

def beginning : Construction α ε := ⟨empty,.creating⟩

/-- `create` tells whether `CreateThread` succeeds. -/
inductive Building
  | create (created : Bool)
  | constructed
  | worker (k : Nat)
  | join

/-- `m_workerActive` is destroyed before `m_workers`, and the atomics have no destructor. -/
def build (platform : Platform ε) (config : Config) (s : Construction α ε) : Building → Option (Construction α ε)
  | .create created =>
      if s.phase = .creating ∧ s.pool.threads.length < (config.adjust platform).minThreads then
        if created then some {s with pool := createWorker s.pool}
        else some ⟨{s.pool with workerActive := []},.unwinding 0⟩
      else none
  | .constructed =>
      if s.phase = .creating ∧ s.pool.threads.length = (config.adjust platform).minThreads then
        some {s with phase := .constructed}
      else none
  | .worker k =>
      match s.pool.workers[k]? with
      | some worker => (stepWorker platform s.pool k worker).map fun pool => {s with pool := pool}
      | none => none
  | .join =>
      match s.phase with
      | .unwinding next =>
          match s.pool.threads[next]? with
          | some k =>
              match s.pool.workers[k]? with
              | some .exited => some {s with phase := .unwinding (next + 1)}
              | _ => none
          | none => some ⟨{s.pool with threads := []},.thrown⟩
      | _ => none

/-- The program points of a worker that has never found a task or the pool stopping. -/
def Worker.idles : Worker α ε → Bool
  | .test | .testPaused | .sleeping | .lockQueue | .waitStopping | .asleep => true
  | _ => false

structure Built (s : Construction α ε) : Prop where
  running : s.pool.stopping = false
  empty : s.pool.taskQueue = []
  waits : Every (fun _ worker => worker.idles = true) s.pool.workers
  threads : s.phase ≠ .thrown → s.pool.threads = List.range s.pool.workers.length
  first : ∀ next, s.phase = .unwinding next → next = 0

section Build
variable {platform : Platform ε} {config : Config} {s t : Construction α ε} {pool after : State α ε} {k : Nat}
  {worker : Worker α ε}

theorem idles_step (running : pool.stopping = false) (empty : pool.taskQueue = []) (waits : worker.idles = true)
    (taken : stepWorker platform pool k worker = some after) : after.stopping = false ∧ after.taskQueue = [] ∧
      after.threads = pool.threads ∧ ∃ next, next.idles = true ∧ after.workers = pool.workers.set k next := by
  cases worker with
  | test =>
    cases taken
    exact ⟨running,empty,rfl,_,by simp [running,Worker.idles],rfl⟩
  | testPaused =>
    cases taken
    refine ⟨running,empty,rfl,_,?_,rfl⟩
    split <;> rfl
  | sleeping =>
    cases taken
    exact ⟨running,empty,rfl,_,rfl,rfl⟩
  | lockQueue | asleep =>
    simp only [stepWorker] at taken
    rw [if_pos empty] at taken
    split at taken <;> cases taken
    exact ⟨running,empty,rfl,_,rfl,rfl⟩
  | waitStopping =>
    simp only [stepWorker] at taken
    rw [if_neg (by simp [running])] at taken
    cases taken
    exact ⟨running,empty,rfl,_,rfl,rfl⟩
  | takeStopping | take | fetchSub | unlock | markActive | execute | running | settle | markIdle | exited => contradiction

theorem built_beginning : Built (beginning : Construction α ε) :=
  ⟨rfl,rfl,Every.nil _,fun _ => rfl,nofun⟩

theorem built_step (s : Construction α ε) (label : Building) (t : Construction α ε) (built : Built s)
    (taken : build platform config s label = some t) : Built t := by
  cases label with
  | create created =>
    simp only [build] at taken
    split at taken
    next creating =>
      have order := built.threads (by rw [creating.1]; exact nofun)
      split at taken <;> cases taken
      · refine ⟨built.running,built.empty,built.waits.append rfl,fun _ => ?_,fun next same => ?_⟩
        · simp [createWorker,order,List.range_succ]
        · rw [creating.1] at same
          contradiction
      · refine ⟨built.running,built.empty,built.waits,fun _ => order,fun next same => ?_⟩
        cases same
        rfl
    next => contradiction
  | constructed =>
    simp only [build] at taken
    split at taken <;> cases taken
    next creating =>
      exact ⟨built.running,built.empty,built.waits,fun _ => built.threads (by rw [creating.1]; exact nofun),nofun⟩
  | worker k =>
    simp only [build] at taken
    split at taken
    next worker found =>
      obtain ⟨pool,stepped,rfl⟩ := Option.map_eq_some_iff.mp taken
      obtain ⟨running,empty,threads,next,waits,workers⟩ :=
        idles_step built.running built.empty (built.waits k worker found) stepped
      refine ⟨running,empty,?_,fun phase => ?_,built.first⟩
      · rw [workers]
        exact built.waits.set waits
      · rw [workers,List.length_set,threads]
        exact built.threads phase
    next => contradiction
  | join =>
    simp only [build] at taken
    split at taken
    next next phase =>
      split at taken
      next k place =>
        split at taken
        next exited =>
          have waits := built.waits k _ exited
          contradiction
        next => contradiction
      next =>
        cases taken
        exact ⟨built.running,built.empty,built.waits,fun wrong => absurd rfl wrong,nofun⟩
    next => contradiction

/-- The unwinding waits for a worker that will never end. -/
def Waiting (s : Construction α ε) : Prop := s.phase = .unwinding 0 ∧ s.pool.threads ≠ []

theorem waiting_step (s : Construction α ε) (label : Building) (t : Construction α ε) (known : Built s ∧ Waiting s)
    (taken : build platform config s label = some t) : Built t ∧ Waiting t := by
  obtain ⟨built,phase,threads⟩ := known
  refine ⟨built_step s label t built taken,?_⟩
  cases label with
  | create created => simp [build,phase] at taken
  | constructed => simp [build,phase] at taken
  | worker k =>
    simp only [build] at taken
    split at taken
    next worker found =>
      obtain ⟨pool,stepped,rfl⟩ := Option.map_eq_some_iff.mp taken
      have same := (idles_step built.running built.empty (built.waits k worker found) stepped).2.2.1
      exact ⟨phase,same ▸ threads⟩
    next => contradiction
  | join =>
    obtain ⟨k,rest,shape⟩ := List.exists_cons_of_ne_nil threads
    simp only [build,phase,shape,List.getElem?_cons_zero] at taken
    split at taken
    next exited =>
      have waits := built.waits k _ exited
      contradiction
    next => contradiction

theorem waiting_forever {labels : List Building} (built : Built s) (waiting : Waiting s)
    (reached : run (build platform config) s labels = some t) : t.phase ≠ .thrown := by
  have kept := run_invariant (fun s => Built s ∧ Waiting s) waiting_step ⟨built,waiting⟩ reached
  rw [kept.2.1]
  exact nofun

/-- From a state of the unwinding after `k` workers have been created, at whatever
points of their loops they are, the exception gets out of the constructor with all of
them ended if and only if there are none. -/
theorem unwinding_completes_iff {labels : List Building} {next : Nat}
    (reached : run (build platform config) beginning labels = some s) (unwinding : s.phase = .unwinding next)
    (created : s.pool.workers.length = k) :
    (∃ more t, run (build platform config) s more = some t ∧ t.phase = .thrown ∧ ∀ worker ∈ t.pool.workers, worker = .exited) ↔
      k = 0 := by
  have built := run_invariant Built built_step built_beginning reached
  obtain rfl := built.first next unwinding
  have threads := built.threads (by rw [unwinding]; exact nofun)
  rw [created] at threads
  constructor
  · intro given
    obtain ⟨more,t,continued,thrown,_⟩ := given
    by_contra some
    refine waiting_forever built ⟨unwinding,?_⟩ continued thrown
    rw [threads]
    exact fun empty => some (List.range_eq_nil.mp empty)
  · intro none
    subst none
    refine ⟨[.join],⟨{s.pool with threads := []},.thrown⟩,?_,rfl,?_⟩
    · simp [run,build,unwinding,threads]
    · rw [show s.pool.workers = [] from List.length_eq_zero_iff.mp created]
      exact nofun

end Build

/-- Creating the first of two workers fails. -/
theorem unwinding_completes_iff_first : ∃ s : Construction Unit Unit,
    run (build ⟨64,2,fun _ => ()⟩ ⟨2,2⟩) beginning [.create false] = some s ∧
    ∃ more t, run (build ⟨64,2,fun _ => ()⟩ ⟨2,2⟩) s more = some t ∧ t.phase = .thrown ∧
      ∀ worker ∈ t.pool.workers, worker = .exited := by
  obtain ⟨s,reached,unwinding,created⟩ : ∃ s : Construction Unit Unit,
      run (build ⟨64,2,fun _ => ()⟩ ⟨2,2⟩) beginning [.create false] = some s ∧ s.phase = .unwinding 0 ∧
      s.pool.workers.length = 0 := ⟨_,rfl,rfl,rfl⟩
  exact ⟨s,reached,(unwinding_completes_iff reached unwinding created).mpr rfl⟩

/-- Creating the second fails: the first worker is joined, and goes on waiting for tasks. -/
theorem unwinding_hangs : ∃ s : Construction Unit Unit,
    run (build ⟨64,2,fun _ => ()⟩ ⟨2,2⟩) beginning [.create true,.worker 0,.create false] = some s ∧
    s.phase = .unwinding 0 ∧
    ¬ ∃ more t, run (build ⟨64,2,fun _ => ()⟩ ⟨2,2⟩) s more = some t ∧ t.phase = .thrown ∧
      ∀ worker ∈ t.pool.workers, worker = .exited := by
  obtain ⟨s,reached,unwinding,threads⟩ : ∃ s : Construction Unit Unit,
      run (build ⟨64,2,fun _ => ()⟩ ⟨2,2⟩) beginning [.create true,.worker 0,.create false] = some s ∧
      s.phase = .unwinding 0 ∧ s.pool.threads = [0] := ⟨_,rfl,rfl,rfl⟩
  refine ⟨s,reached,unwinding,fun given => ?_⟩
  obtain ⟨more,t,continued,thrown,_⟩ := given
  have built := run_invariant Built built_step built_beginning reached
  exact waiting_forever built ⟨unwinding,by simp [threads]⟩ continued thrown

end Ezthread.ThreadPool
