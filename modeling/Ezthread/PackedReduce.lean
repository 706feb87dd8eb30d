import Ezthread.Algorithms

/-! `parallel::Reduce` where `T` is `bool`: `std::vector<bool>` packs the partial
results into words, and a task that writes its result loads a word and stores it. -/
namespace Ezthread.PackedReduce
open Transition Chunks ForkJoin ThreadPool

variable {β ε : Type*}

/-- `size_t` has `width` bits, a word of the vector `wordBits`. -/
structure Reduction (β ε : Type*) where
  width : Nat
  wordBits : Nat
  hardware : Nat
  initial : Bool
  range : List β
  func : Bool → β → Except ε Bool
  positive : 0 < wordBits

/-- What a task does with its result: nothing yet, or it has loaded the word. -/
inductive Phase
  | computing
  | loaded (word : List Bool)
  | stored
  deriving DecidableEq

/-- `phases` holds a phase for each index of `partialResults`. -/
structure State (ε : Type*) where
  call : ForkJoin.State Chunk Unit ε
  words : List (List Bool)
  phases : List Phase

inductive Label (ε : Type*)
  | call (label : ForkJoin.Label ε)
  | load (k : Nat)
  | store (k : Nat)

namespace Reduction

def numThreads (r : Reduction β ε) : Nat := Reduce.numThreads (some r.hardware) r.range.length

def localResult (r : Reduction β ε) (chunk : Chunk) : Work β Bool ε := fold r.func r.initial (slice r.range chunk)

/-- None if the function throws. -/
def result (r : Reduction β ε) (chunk : Chunk) : Option Bool := (r.localResult chunk).outcome.toOption

/-- The call as far as the waits. -/
def fork (r : Reduction β ε) : Fork Chunk β Unit ε where
  tasks := if r.numThreads ≤ 1 then [] else Reduce.submitted r.width r.range.length r.numThreads
  work := fun chunk => ⟨(r.localResult chunk).calls,(r.localResult chunk).outcome.map fun _ => ()⟩
  rest := fun _ => ⟨[],.ok ()⟩

/-- `partialResults[i]` -/
def element (r : Reduction β ε) (s : State ε) (i : Nat) : Option Bool :=
  s.words[i / r.wordBits]?.bind fun word => word[i % r.wordBits]?

def write (r : Reduction β ε) (word : List Bool) (i : Nat) (value : Bool) : List Bool := word.set (i % r.wordBits) value

end Reduction

/-- The chunk task that worker `k` executes. -/
def State.running (s : State ε) (k : Nat) : Option Chunk :=
  match s.call.pool.workers[k]? with
  | some (.running id) => s.call.owned.lookup id
  | _ => none

/-- A chunk task with a result does not end before it has stored it. -/
def Reduction.blocked (r : Reduction β ε) (s : State ε) : ForkJoin.Label ε → Bool
  | .pool (.finish k _) =>
      (s.running k).any fun chunk => (r.result chunk).isSome && decide (s.phases[chunk.index]? ≠ some .stored)
  | _ => false

def State.loaded (s : State ε) (i : Nat) : Option (List Bool) :=
  match s.phases[i]? with
  | some (.loaded word) => some word
  | _ => none

def load (r : Reduction β ε) (s : State ε) (chunk : Chunk) : Option (State ε) :=
  match r.result chunk,s.phases[chunk.index]?,s.words[chunk.index / r.wordBits]? with
  | some _,some .computing,some word => some {s with phases := s.phases.set chunk.index (.loaded word)}
  | _,_,_ => none

/-- The word goes back with one bit changed. -/
def Reduction.stores (r : Reduction β ε) (s : State ε) (i : Nat) (word : List Bool) (value : Bool) : State ε :=
  {s with words := s.words.set (i / r.wordBits) (r.write word i value), phases := s.phases.set i .stored}

def store (r : Reduction β ε) (s : State ε) (chunk : Chunk) : Option (State ε) :=
  match r.result chunk,s.loaded chunk.index with
  | some value,some word => some (r.stores s chunk.index word value)
  | _,_ => none

def init (r : Reduction β ε) (pool : ThreadPool.State Unit ε) : State ε where
  call := ForkJoin.init r.fork pool
  words := List.replicate (r.numThreads / r.wordBits + 1) (List.replicate r.wordBits r.initial)
  phases := List.replicate r.numThreads .computing

variable [Inhabited ε]

def step (platform : Platform ε) (r : Reduction β ε) (s : State ε) : Label ε → Option (State ε)
  | .call label =>
      if r.blocked s label then none
      else (ForkJoin.step platform r.fork s.call label).map fun call => {s with call := call}
  | .load k => (s.running k).bind (load r s)
  | .store k => (s.running k).bind (store r s)

variable {platform : Platform ε} {r : Reduction β ε} {s t : State ε}

inductive Moves (platform : Platform ε) (r : Reduction β ε) (s : State ε) : State ε → Prop
  | call (label next) (free : r.blocked s label = false)
      (stepped : ForkJoin.step platform r.fork s.call label = some next) : Moves platform r s {s with call := next}
  | load (k chunk value word) (running : s.running k = some chunk) (gives : r.result chunk = some value)
      (computing : s.phases[chunk.index]? = some .computing)
      (found : s.words[chunk.index / r.wordBits]? = some word) :
      Moves platform r s {s with phases := s.phases.set chunk.index (.loaded word)}
  | store (k chunk value word) (running : s.running k = some chunk) (gives : r.result chunk = some value)
      (loaded : s.phases[chunk.index]? = some (.loaded word)) :
      Moves platform r s (r.stores s chunk.index word value)

omit [Inhabited ε] in
theorem loaded_iff {i : Nat} {word : List Bool} : s.loaded i = some word ↔ s.phases[i]? = some (.loaded word) := by
  unfold State.loaded
  split
  next other found => simp [found]
  next none =>
    refine iff_of_false nofun fun found => ?_
    exact none word found

theorem step_moves {label : Label ε} (taken : step platform r s label = some t) : Moves platform r s t := by
  cases label with
  | call label =>
    simp only [step] at taken
    split at taken
    next => contradiction
    next free =>
      obtain ⟨next,stepped,rfl⟩ := Option.map_eq_some_iff.mp taken
      exact .call label next (by simpa using free) stepped
  | load k =>
    obtain ⟨chunk,running,loads⟩ := Option.bind_eq_some_iff.mp taken
    unfold load at loads
    split at loads
    next value word gives computing found =>
      cases loads
      exact .load k chunk value word running gives computing found
    next => contradiction
  | store k =>
    obtain ⟨chunk,running,stores⟩ := Option.bind_eq_some_iff.mp taken
    unfold store at stores
    split at stores
    next value word gives loaded =>
      cases stores
      exact .store k chunk value word running gives (loaded_iff.mp loaded)
    next => contradiction

structure Packed (platform : Platform ε) (r : Reduction β ε) (s : State ε) : Prop where
  call : ForkJoin.Inv platform r.fork s.call
  belongs : Belongs r.fork s.call
  phases : s.phases.length = r.numThreads
  enough : s.words.length = r.numThreads / r.wordBits + 1
  words : ∀ word ∈ s.words, word.length = r.wordBits
  loaded : ∀ (i : Nat) (word : List Bool), s.phases[i]? = some (.loaded word) → word.length = r.wordBits
  ends : ∀ entry ∈ s.call.owned, ∀ outcome, Ended s.call.pool entry.1 outcome → (r.result entry.2).isSome = true →
    s.phases[entry.2.index]? = some .stored

theorem packed_call {label : ForkJoin.Label ε} {next : ForkJoin.State Chunk Unit ε} (packed : Packed platform r s)
    (free : r.blocked s label = false) (stepped : ForkJoin.step platform r.fork s.call label = some next) :
    Packed platform r {s with call := next} := by
  refine ⟨inv_step s.call label next packed.call stepped,belongs_step packed.belongs stepped,packed.phases,packed.enough,
    packed.words,packed.loaded,?_⟩
  cases label with
  | caller =>
    have moves := stepCaller_moves stepped
    obtain ⟨_,_,workers,finished⟩ := moves.pool packed.call.kept
    simp only [Ended,moves.owned,workers,finished]
    exact packed.ends
  | pool label =>
    obtain ⟨pool,taken,rfl⟩ := Option.map_eq_some_iff.mp stepped
    intro entry member outcome ended gives
    obtain ⟨own,before | ⟨k,same,running⟩⟩ := packed.call.ended_pool taken member ended
    · exact packed.ends entry own outcome before gives
    · -- the worker may end the task only when its result is stored
      cases label with
      | finish j other =>
        obtain ⟨rfl,_⟩ := ThreadPool.Label.finish.inj same
        simp only [Reduction.blocked,State.running,running,lookup_of_mem packed.call.distinct own,Option.any_some,gives,
          Bool.true_and,decide_eq_false_iff_not,not_not] at free
        exact free
      | _ => contradiction

theorem packed_phase {i : Nat} {before after : Phase} {words : List (List Bool)} (packed : Packed platform r s)
    (found : s.phases[i]? = some before) (unstored : before ≠ .stored)
    (loaded : ∀ word, after = .loaded word → word.length = r.wordBits) (enough : words.length = s.words.length)
    (lengths : ∀ word ∈ words, word.length = r.wordBits) :
    Packed platform r {s with words := words, phases := s.phases.set i after} where
  call := packed.call
  belongs := packed.belongs
  phases := (List.length_set ..).trans packed.phases
  enough := enough.trans packed.enough
  words := lengths
  loaded := by
    intro j word present
    rcases Activation.get_set present with ⟨_,same⟩ | ⟨_,kept⟩
    · exact loaded word same.symm
    · exact packed.loaded j word kept
  ends := by
    intro entry member outcome ended gives
    have stored := packed.ends entry member outcome ended gives
    have other : entry.2.index ≠ i := by
      rintro rfl
      exact unstored (Option.some.inj (found.symm.trans stored))
    exact (List.getElem?_set_ne (Ne.symm other)).trans stored

theorem packed_step (s : State ε) (label : Label ε) (t : State ε) (packed : Packed platform r s)
    (taken : step platform r s label = some t) : Packed platform r t := by
  cases step_moves taken with
  | call label next free stepped => exact packed_call packed free stepped
  | load k chunk value word running gives computing found =>
    refine packed_phase packed computing (by simp) (fun other same => ?_) rfl packed.words
    obtain rfl := Phase.loaded.inj same
    exact packed.words word (List.mem_of_getElem? found)
  | store k chunk value word running gives loaded =>
    refine packed_phase packed loaded (by simp) (by simp) List.length_set fun other member => ?_
    rcases List.mem_or_eq_of_mem_set member with old | rfl
    · exact packed.words other old
    · exact List.length_set.trans (packed.loaded chunk.index word loaded)

/-- The chunks whose results go into word `q`. -/
def Reduction.writers (r : Reduction β ε) (q : Nat) : List Chunk :=
  r.fork.tasks.filter fun chunk => (r.result chunk).isSome && decide (chunk.index / r.wordBits = q)

/-- All results of the word have been stored. -/
def Complete (r : Reduction β ε) (s : State ε) (q : Nat) : Prop :=
  ∀ chunk ∈ r.writers q, s.phases[chunk.index]? = some .stored

def Holds (r : Reduction β ε) (s : State ε) (q : Nat) : Prop := ∀ chunk ∈ r.writers q, r.element s chunk.index = r.result chunk

def Kept (r : Reduction β ε) (s : State ε) : Prop := ∀ q, Complete r s q → Holds r s q

/-- The last task to store a word has loaded it with the results of all the others. -/
def Fresh (r : Reduction β ε) (s : State ε) : Label ε → Prop
  | .store k => ∀ chunk ∈ s.running k, ∀ word ∈ s.loaded chunk.index,
      (∀ other ∈ r.writers (chunk.index / r.wordBits), other ≠ chunk → s.phases[other.index]? = some .stored) →
        ∀ other ∈ r.writers (chunk.index / r.wordBits), other ≠ chunk → word[other.index % r.wordBits]? = r.result other
  | _ => True

instance (r : Reduction β ε) (s : State ε) : (label : Label ε) → Decidable (Fresh r s label)
  | .store k => inferInstanceAs (Decidable (∀ chunk ∈ s.running k, _))
  | .call _ | .load _ => inferInstanceAs (Decidable True)

omit [Inhabited ε] in
theorem writers_iff {q : Nat} {chunk : Chunk} :
    chunk ∈ r.writers q ↔ chunk ∈ r.fork.tasks ∧ (r.result chunk).isSome = true ∧ chunk.index / r.wordBits = q := by
  simp [Reduction.writers]

omit [Inhabited ε] in
theorem tasks_apart : ∀ a ∈ r.fork.tasks, ∀ b ∈ r.fork.tasks, a.index = b.index → a = b := by
  have numbered : (r.fork.tasks.map Chunk.index).Nodup := by
    unfold Reduction.fork
    split
    next => exact List.nodup_nil
    next =>
      rw [Reduce.submitted,Reduce.submitFrom_index]
      exact List.nodup_range'
  intro a first b second same
  exact List.inj_on_of_nodup_map numbered first second same

omit [Inhabited ε] in
theorem running_task {k : Nat} {chunk : Chunk} (belongs : Belongs r.fork s.call) (running : s.running k = some chunk) :
    chunk ∈ r.fork.tasks := by
  unfold State.running at running
  split at running
  next id _ => exact belongs.owned (id,chunk) (mem_of_lookup running)
  next => contradiction

section Store
variable {chunk : Chunk} {value : Bool} {word : List Bool}

omit [Inhabited ε] in
theorem element_far {i j : Nat} (far : j / r.wordBits ≠ i / r.wordBits) :
    r.element (r.stores s i word value) j = r.element s j := by
  simp only [Reduction.element,Reduction.stores]
  rw [List.getElem?_set_ne (Ne.symm far)]

omit [Inhabited ε] in
theorem element_near {i j : Nat} (inside : i / r.wordBits < s.words.length) (near : j / r.wordBits = i / r.wordBits) :
    r.element (r.stores s i word value) j = (r.write word i value)[j % r.wordBits]? := by
  simp only [Reduction.element,Reduction.stores,near]
  rw [List.getElem?_set_self inside]
  rfl

omit [Inhabited ε] in
theorem write_own (r : Reduction β ε) {i : Nat} (length : word.length = r.wordBits) :
    (r.write word i value)[i % r.wordBits]? = some value :=
  List.getElem?_set_self (by rw [length]; exact Nat.mod_lt i r.positive)

omit [Inhabited ε] in
theorem write_other (r : Reduction β ε) {i j : Nat} (same : i / r.wordBits = j / r.wordBits) (different : j ≠ i) :
    (r.write word i value)[j % r.wordBits]? = word[j % r.wordBits]? := by
  refine List.getElem?_set_ne fun equal => different ?_
  rw [← Nat.div_add_mod i r.wordBits,← Nat.div_add_mod j r.wordBits,same,equal]

variable (packed : Packed platform r s) (task : chunk ∈ r.fork.tasks) (gives : r.result chunk = some value)
  (loaded : s.phases[chunk.index]? = some (.loaded word))

omit [Inhabited ε] in
theorem far_store {q : Nat} (far : q ≠ chunk.index / r.wordBits) :
    (Complete r (r.stores s chunk.index word value) q ↔ Complete r s q) ∧
      (Holds r (r.stores s chunk.index word value) q ↔ Holds r s q) := by
  constructor
  · refine forall₂_congr fun other member => ?_
    have apart : chunk.index ≠ other.index := fun same => far (same ▸ (writers_iff.mp member).2.2.symm)
    simp only [Reduction.stores,List.getElem?_set_ne apart]
  · refine forall₂_congr fun other member => ?_
    rw [element_far ((writers_iff.mp member).2.2 ▸ far)]

omit [Inhabited ε] in
include task loaded in
theorem complete_store :
    Complete r (r.stores s chunk.index word value) (chunk.index / r.wordBits) ↔
      ∀ other ∈ r.writers (chunk.index / r.wordBits), other ≠ chunk → s.phases[other.index]? = some .stored := by
  have inside : chunk.index < s.phases.length := (List.getElem?_eq_some_iff.mp loaded).1
  refine forall₂_congr fun other member => ?_
  by_cases own : other = chunk
  · subst own
    exact iff_of_true (List.getElem?_set_self inside) fun different => absurd rfl different
  · have apart : chunk.index ≠ other.index := fun same => own (tasks_apart other (writers_iff.mp member).1 chunk task same.symm)
    simp only [Reduction.stores,List.getElem?_set_ne apart,ne_eq,own,not_false_eq_true,true_imp_iff]

include packed task gives loaded

theorem holds_store :
    Holds r (r.stores s chunk.index word value) (chunk.index / r.wordBits) ↔
      ∀ other ∈ r.writers (chunk.index / r.wordBits), other ≠ chunk → word[other.index % r.wordBits]? = r.result other := by
  refine forall₂_congr fun other member => ?_
  obtain ⟨submitted,_,near⟩ := writers_iff.mp member
  have inside : chunk.index / r.wordBits < s.words.length := by
    have index : chunk.index < s.phases.length := (List.getElem?_eq_some_iff.mp loaded).1
    rw [packed.phases] at index
    rw [packed.enough]
    exact Nat.lt_succ_of_le (Nat.div_le_div_right (Nat.le_of_lt index))
  rw [element_near inside near]
  by_cases own : other = chunk
  · subst own
    exact iff_of_true ((write_own r (packed.loaded _ word loaded)).trans gives.symm) fun different => absurd rfl different
  · have apart : other.index ≠ chunk.index := fun same => own (tasks_apart other submitted chunk task same)
    rw [write_other r near.symm apart]
    simp only [ne_eq,own,not_false_eq_true,true_imp_iff]

/-- The store decides about its own word if it is the last to it, and about no other. -/
theorem kept_store :
    Kept r (r.stores s chunk.index word value) ↔
      Kept r s ∧ ((∀ other ∈ r.writers (chunk.index / r.wordBits), other ≠ chunk → s.phases[other.index]? = some .stored) →
        ∀ other ∈ r.writers (chunk.index / r.wordBits), other ≠ chunk → word[other.index % r.wordBits]? = r.result other) := by
  have incomplete : ¬ Complete r s (chunk.index / r.wordBits) := by
    intro complete
    have stored := complete chunk (writers_iff.mpr ⟨task,by rw [gives]; rfl,rfl⟩)
    simp [loaded] at stored
  have own : Complete r (r.stores s chunk.index word value) _ ↔ _ := complete_store task loaded
  have bits := holds_store packed task gives loaded
  constructor
  · intro kept
    refine ⟨fun q complete => ?_,fun others => bits.mp (kept _ (own.mpr others))⟩
    have far : q ≠ chunk.index / r.wordBits := fun same => incomplete (same ▸ complete)
    exact (far_store far).2.mp (kept q ((far_store far).1.mpr complete))
  · intro given
    obtain ⟨kept,fresh⟩ := given
    intro q complete
    by_cases near : q = chunk.index / r.wordBits
    · subst near
      exact bits.mpr (fresh (own.mp complete))
    · exact (far_store near).2.mpr (kept q ((far_store near).1.mp complete))

end Store

omit [Inhabited ε] in
theorem kept_load {i : Nat} {word : List Bool} (computing : s.phases[i]? = some .computing) :
    Kept r {s with phases := s.phases.set i (.loaded word)} ↔ Kept r s := by
  refine forall_congr' fun q => imp_congr (forall₂_congr fun chunk _ => ?_) Iff.rfl
  by_cases own : i = chunk.index
  · subst own
    rw [List.getElem?_set_self (List.getElem?_eq_some_iff.mp computing).1,computing]
    simp
  · rw [List.getElem?_set_ne own]

theorem kept_step {label : Label ε} (packed : Packed platform r s) (taken : step platform r s label = some t) :
    Kept r t ↔ Kept r s ∧ Fresh r s label := by
  cases label with
  | call label =>
    simp only [step] at taken
    split at taken
    next => contradiction
    next =>
      obtain ⟨next,_,rfl⟩ := Option.map_eq_some_iff.mp taken
      exact (and_iff_left trivial).symm
  | load k =>
    obtain ⟨chunk,_,loads⟩ := Option.bind_eq_some_iff.mp taken
    unfold load at loads
    split at loads
    next value word gives computing found =>
      cases loads
      exact (kept_load computing).trans (and_iff_left trivial).symm
    next => contradiction
  | store k =>
    obtain ⟨chunk,running,stores⟩ := Option.bind_eq_some_iff.mp taken
    unfold store at stores
    split at stores
    next value word gives loaded =>
      cases stores
      rw [kept_store packed (running_task packed.belongs running) gives (loaded_iff.mp loaded)]
      simp only [Fresh,running,loaded,Option.mem_def,Option.some.injEq,forall_eq']
    next => contradiction

theorem packed_init {pool : ThreadPool.State Unit ε} (kept : ThreadPool.Kept platform pool) :
    Packed platform r (init r pool) where
  call := inv_init kept
  belongs := ⟨by simp [init,ForkJoin.init],fun task member => member⟩
  phases := List.length_replicate
  enough := List.length_replicate
  words := by
    intro word member
    rw [List.eq_of_mem_replicate member,List.length_replicate]
  loaded := by
    intro i word found
    have computing := List.eq_of_mem_replicate (List.mem_of_getElem? found)
    contradiction
  ends := by simp [init,ForkJoin.init,State.owned,State.pushed]

theorem Packed.complete {outcome : Except ε Unit} (packed : Packed platform r s) (left : s.call.point = .left outcome)
    (q : Nat) : Complete r s q := by
  intro chunk member
  obtain ⟨task,gives,_⟩ := writers_iff.mp member
  have planned := packed.call.planned
  unfold Planned at planned
  rw [left] at planned
  obtain ⟨plan,done,_⟩ := planned
  rw [← plan] at task
  obtain ⟨entry,own,rfl⟩ := List.mem_map.mp task
  have finished := List.count_pos_iff.mp (Nat.lt_of_lt_of_eq Nat.zero_lt_one (done entry.1 (List.mem_map_of_mem own)).symm)
  obtain ⟨⟨id,ends⟩,present,rfl⟩ := List.mem_map.mp finished
  exact packed.ends entry (State.owned_left left ▸ own) ends (Or.inl present) gives

/-- When all futures have been waited for, `partialResults` holds what the chunks
computed if and only if each word was stored last by a task that had loaded it with
the results of the others. -/
theorem results_iff {config : Config} {pool : ThreadPool.State Unit ε} {before : List (ThreadPool.Label Unit ε)}
    {labels : List (Label ε)} {outcome : Except ε Unit}
    (built : run (ThreadPool.step platform) (construct platform config) before = some pool)
    (reached : run (step platform r) (init r pool) labels = some s) (left : s.call.point = .left outcome) :
    (∀ chunk ∈ r.fork.tasks, ∀ value, r.result chunk = some value → r.element s chunk.index = some value) ↔
      Obeys (step platform r) (Fresh r) (init r pool) labels := by
  have first : Packed platform r (init r pool) := packed_init (kept_run built)
  have packed := run_invariant (Packed platform r) packed_step first reached
  have empty : Kept r (init r pool) := by
    intro q complete chunk member
    have stored := List.eq_of_mem_replicate (List.mem_of_getElem? (complete chunk member))
    contradiction
  have kept := last_iff_obeys (Packed platform r) packed_step
    (fun state label next known good cond taken => (kept_step known taken).mpr ⟨good,cond⟩)
    (fun state label next known breach taken good => breach ((kept_step known taken).mp good).2)
    (fun state label next known broken taken good => broken ((kept_step known taken).mp good).1) first empty reached
  rw [← kept]
  constructor
  · intro results q _ chunk member
    obtain ⟨task,gives,_⟩ := writers_iff.mp member
    obtain ⟨value,same⟩ := Option.isSome_iff_exists.mp gives
    rw [results chunk task value same,same]
  · intro holds chunk task value gives
    have member := writers_iff.mpr ⟨task,by rw [gives]; rfl,rfl⟩
    exact (holds _ (packed.complete left _) chunk member).trans gives

/-- Whether any of two elements is set, with a chunk for each. -/
def anySet : Reduction Bool Nat where
  width := 64
  wordBits := 64
  hardware := 2
  initial := false
  range := [true,true]
  func := fun a b => .ok (a || b)
  positive := by decide

def written : ForkJoin.Label Nat → List (Label Nat)
  | .pool (.finish k outcome) => [.load k,.store k,.call (.pool (.finish k outcome))]
  | label => [.call label]

/-- One worker executes both tasks. -/
theorem results_iff_one_worker :
    ∃ s : State Nat, run (step ⟨64,4,fun _ => 0⟩ anySet) (init anySet (construct ⟨64,4,fun _ => 0⟩ ⟨1,2⟩))
        (Algorithms.twoTasks.flatMap written) = some s ∧
      ∀ chunk ∈ anySet.fork.tasks, ∀ value, anySet.result chunk = some value →
        anySet.element s chunk.index = some value := by
  obtain ⟨s,reached,ended⟩ := (Option.any_eq_true _ _).mp (show (run (step ⟨64,4,fun _ => 0⟩ anySet)
    (init anySet (construct ⟨64,4,fun _ => 0⟩ ⟨1,2⟩)) (Algorithms.twoTasks.flatMap written)).any
    (fun s => s.call.ended) = true by decide +kernel)
  obtain ⟨outcome,left⟩ := ended_iff.mp ended
  have built : run (ThreadPool.step ⟨64,4,fun _ => 0⟩) (construct ⟨64,4,fun _ => 0⟩ ⟨1,2⟩) [] =
      some (construct ⟨64,4,fun _ => 0⟩ ⟨1,2⟩ : ThreadPool.State Unit Nat) := rfl
  exact ⟨s,reached,(results_iff built reached left).mpr (by decide +kernel)⟩

/-- Two workers load the word before either stores it: the second store wipes out the
result of the first chunk. -/
theorem store_wipes_out :
    ∃ s : State Nat, run (step ⟨64,4,fun _ => 0⟩ anySet) (init anySet (construct ⟨64,4,fun _ => 0⟩ ⟨2,2⟩))
        ((Algorithms.twoTasks.take 13).map .call ++ List.replicate 9 (.call (.pool (.worker 0))) ++
          List.replicate 9 (.call (.pool (.worker 1))) ++ [.load 0,.load 1,.store 0,.store 1] ++
          [.call (.pool (.finish 0 (.ok ()))),.call (.pool (.finish 1 (.ok ()))),.call (.pool (.worker 0)),
            .call (.pool (.worker 1)),.call .caller,.call .caller,.call .caller]) = some s ∧
      (∃ outcome, s.call.point = .left outcome) ∧ ⟨0,0,1⟩ ∈ anySet.fork.tasks ∧ anySet.result ⟨0,0,1⟩ = some true ∧
      anySet.element s 0 = some false := by
  obtain ⟨s,reached,ends⟩ := (Option.any_eq_true _ _).mp (show (run (step ⟨64,4,fun _ => 0⟩ anySet)
    (init anySet (construct ⟨64,4,fun _ => 0⟩ ⟨2,2⟩))
    ((Algorithms.twoTasks.take 13).map .call ++ List.replicate 9 (.call (.pool (.worker 0))) ++
      List.replicate 9 (.call (.pool (.worker 1))) ++ [.load 0,.load 1,.store 0,.store 1] ++
      [.call (.pool (.finish 0 (.ok ()))),.call (.pool (.finish 1 (.ok ()))),.call (.pool (.worker 0)),
        .call (.pool (.worker 1)),.call .caller,.call .caller,.call .caller])).any
    (fun s => s.call.ended && decide (anySet.element s 0 = some false)) = true by decide +kernel)
  rw [Bool.and_eq_true,decide_eq_true_eq] at ends
  exact ⟨s,reached,ended_iff.mp ends.1,by decide,by decide,ends.2⟩

end Ezthread.PackedReduce
