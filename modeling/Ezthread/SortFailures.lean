import Ezthread.AlgorithmExits

/-! What `parallel::Sort` leaves in the container when chunk tasks fail. -/
namespace Ezthread.ParallelSort
open Transition Chunks Reduce Merging ForkJoin

variable {α ε : Type*}

/-- A chunk task completes, or its copying or sorting throws and leaves `left` in
its chunk. -/
inductive Ending (α ε : Type*)
  | completes
  | throws (ex : ε) (left : List α)

def Ending.outcome : Ending α ε → Except ε Unit
  | .completes => .ok ()
  | .throws ex _ => .error ex

def Ending.failed : Ending α ε → Bool
  | .completes => false
  | .throws _ _ => true

def Ending.left : Ending α ε → List α
  | .completes => []
  | .throws _ left => left

def Ending.chunk (stdSort : List α → List α) (part : List α) : Ending α ε → List α
  | .completes => stdSort part
  | .throws _ left => left

/-- A call of `Sort` on the path of chunks and merge. `merges` tells whether the merge
throws, given the order in which the tasks have finished. -/
structure Sorting (α ε : Type*) where
  stdSort : List α → List α
  comp : α → α → Bool
  moved : α → α
  container : List α
  numThreads : Nat
  ending : Chunk → Ending α ε
  merges : List Chunk → Except ε Unit
  copies : ∀ chunk, (ending chunk).left.length ≤ (slice container chunk).length

namespace Sorting

def chunks (sorting : Sorting α ε) (order : List Chunk) : List (List α) :=
  order.foldl (write fun chunk => (sorting.ending chunk).chunk sorting.stdSort (slice sorting.container chunk))
    (List.replicate sorting.numThreads [])

def fork (sorting : Sorting α ε) (w hardware : Nat) : Fork Chunk Empty Unit ε :=
  Algorithms.sort w (some hardware) sorting.container.length (.ok ()) (fun chunk => (sorting.ending chunk).outcome)
    sorting.merges

/-- The container, which is written when the merge is done. -/
def holds (sorting : Sorting α ε) (s : State Chunk Unit ε) : List α :=
  match s.point with
  | .left (.ok _) =>
      (mergeLoop sorting.comp sorting.moved sorting.container.length (.start (sorting.chunks s.finished))).result
  | _ => sorting.container

/-- The container holds what it did, sorted if `Sort` has returned. -/
structure Safe (sorting : Sorting α ε) (s : State Chunk Unit ε) : Prop where
  kept : (sorting.holds s).Perm sorting.container
  sorted : s.point = .left (.ok ()) → Sorted (Before sorting.comp) (sorting.holds s)

def failing (sorting : Sorting α ε) (tasks : List Chunk) : List Chunk :=
  tasks.filter fun chunk => (sorting.ending chunk).failed

/-- The tasks that fail leave the elements of their chunks, and each its own in
order. -/
structure Harmless (sorting : Sorting α ε) (tasks : List Chunk) : Prop where
  kept : ((sorting.failing tasks).flatMap fun chunk => (sorting.ending chunk).left).Perm
    ((sorting.failing tasks).flatMap (slice sorting.container))
  sorted : ∀ chunk ∈ sorting.failing tasks, Sorted (Before sorting.comp) (sorting.ending chunk).left

end Sorting

theorem flatMap_perm_iff {β γ : Type*} {first second : β → List γ} (differs : β → Bool) {list : List β}
    (same : ∀ x ∈ list, differs x = false → (first x).Perm (second x)) :
    (list.flatMap first).Perm (list.flatMap second) ↔
      ((list.filter differs).flatMap first).Perm ((list.filter differs).flatMap second) := by
  have split (f : β → List γ) : (list.flatMap f).Perm
      ((list.filter differs).flatMap f ++ (list.filter fun x => !differs x).flatMap f) := by
    rw [← List.flatMap_append]
    exact ((List.filter_append_perm differs list).flatMap_right f).symm
  have rest : ((list.filter fun x => !differs x).flatMap first).Perm ((list.filter fun x => !differs x).flatMap second) := by
    refine List.Perm.flatMap_left _ fun x member => ?_
    obtain ⟨inside,alike⟩ := List.mem_filter.mp member
    exact same x inside (by simpa using alike)
  calc (list.flatMap first).Perm (list.flatMap second)
      ↔ ((list.filter differs).flatMap first ++ (list.filter fun x => !differs x).flatMap first).Perm
          ((list.filter differs).flatMap second ++ (list.filter fun x => !differs x).flatMap first) := by
        rw [(split first).congr_left,(split second).congr_right,(rest.append_left _).congr_right]
    _ ↔ _ := List.perm_append_right_iff _

section Exits
variable {sorting : Sorting α ε} {w : Nat}

/-- The tasks of `Sort` on the path of chunks and merge. -/
theorem fork_tasks {hardware : Nat} (chunked : Chunked (some hardware) sorting.container.length sorting.numThreads) :
    (sorting.fork w hardware).tasks = submitted w sorting.container.length sorting.numThreads := by
  obtain ⟨_,same,large,threads,several⟩ := chunked
  cases same
  rw [threads] at several
  have many : ¬ sorting.container.length ≤ 1 := by omega
  have cut : ¬ (sorting.container.length < 10000 ∨ min hardware (sorting.container.length / 1000) ≤ 1) := by omega
  rw [threads]
  simp only [Sorting.fork,Algorithms.sort,if_neg many,if_neg cut]

theorem Ending.chunk_perm {stdSort : List α → List α} (sorts : ∀ list, (stdSort list).Perm list) (part : List α)
    {ending : Ending α ε} (completes : ending.failed = false) : (ending.chunk stdSort part).Perm part := by
  cases ending with
  | completes => exact sorts part
  | throws ex left => contradiction

theorem Ending.chunk_failed {stdSort : List α → List α} (part : List α) {ending : Ending α ε}
    (failed : ending.failed = true) : ending.chunk stdSort part = ending.left := by
  cases ending with
  | completes => contradiction
  | throws ex left => rfl

def Sorting.leaves (sorting : Sorting α ε) (chunk : Chunk) : List α :=
  (sorting.ending chunk).chunk sorting.stdSort (slice sorting.container chunk)

theorem leaves_length (sorts : ∀ list, (sorting.stdSort list).Perm list) (chunk : Chunk) :
    (sorting.leaves chunk).length ≤ (slice sorting.container chunk).length := by
  cases shape : (sorting.ending chunk).failed with
  | false => exact Nat.le_of_eq (Ending.chunk_perm sorts _ shape).length_eq
  | true =>
    rw [Sorting.leaves,Ending.chunk_failed _ shape]
    exact sorting.copies chunk

variable {tasks order : List Chunk} (span : Span 0 0 tasks sorting.container.length) (executes : order.Perm tasks)
  (room : tasks.length ≤ sorting.numThreads)

include span in
theorem slices_whole : tasks.flatMap (slice sorting.container) = sorting.container := by
  have whole := span.slices sorting.container
  rwa [Nat.sub_zero,List.drop_zero,List.take_length,← List.flatMap_def] at whole

include span executes room

theorem chunks_eq :
    sorting.chunks order = tasks.map sorting.leaves ++ List.replicate (sorting.numThreads - tasks.length) [] := by
  rw [Sorting.chunks,write_any_order span executes]
  exact span.writes sorting.leaves [] [] sorting.numThreads rfl room

theorem chunks_flatten : (sorting.chunks order).flatten = tasks.flatMap sorting.leaves := by
  rw [chunks_eq span executes room,List.flatten_append,List.flatMap_def]
  simp

theorem chunks_few (sorts : ∀ list, (sorting.stdSort list).Perm list) :
    (sorting.chunks order).flatten.length ≤ sorting.container.length := by
  have bound (tasks : List Chunk) :
      (tasks.flatMap sorting.leaves).length ≤ (tasks.flatMap (slice sorting.container)).length := by
    induction tasks with
    | nil => exact Nat.le_refl 0
    | cons chunk rest ih =>
      have own := leaves_length sorts chunk
      rw [List.flatMap_cons,List.flatMap_cons,List.length_append,List.length_append]
      omega
  have few := bound tasks
  rwa [slices_whole span,← chunks_flatten span executes room] at few

theorem kept_iff (sorts : ∀ list, (sorting.stdSort list).Perm list) :
    (sorting.chunks order).flatten.Perm sorting.container ↔
      ((sorting.failing tasks).flatMap fun chunk => (sorting.ending chunk).left).Perm
        ((sorting.failing tasks).flatMap (slice sorting.container)) := by
  have left : (sorting.failing tasks).flatMap (fun chunk => (sorting.ending chunk).left) =
      (sorting.failing tasks).flatMap sorting.leaves :=
    List.flatMap_congr fun chunk member => (Ending.chunk_failed _ (List.mem_filter.mp member).2).symm
  have completes (chunk : Chunk) (_ : chunk ∈ tasks) (completes : (sorting.ending chunk).failed = false) :
      (sorting.leaves chunk).Perm (slice sorting.container chunk) := Ending.chunk_perm sorts _ completes
  have cut := flatMap_perm_iff (fun chunk => (sorting.ending chunk).failed) completes
  rw [slices_whole span] at cut
  rw [chunks_flatten span executes room,left]
  exact cut

theorem sorted_iff (sorts : ∀ list, Sorted (Before sorting.comp) (sorting.stdSort list)) :
    (∀ list ∈ sorting.chunks order, Sorted (Before sorting.comp) list) ↔
      ∀ chunk ∈ sorting.failing tasks, Sorted (Before sorting.comp) (sorting.ending chunk).left := by
  rw [chunks_eq span executes room]
  constructor
  · intro sorted chunk member
    obtain ⟨inside,failed⟩ := List.mem_filter.mp member
    have own : sorting.leaves chunk = (sorting.ending chunk).left := Ending.chunk_failed _ failed
    rw [← own]
    exact sorted _ (List.mem_append_left _ (List.mem_map_of_mem inside))
  · intro sorted list member
    rcases List.mem_append.mp member with task | unused
    · obtain ⟨chunk,inside,rfl⟩ := List.mem_map.mp task
      unfold Sorting.leaves
      cases shape : sorting.ending chunk with
      | completes => exact sorts _
      | throws ex left =>
        have failed : (sorting.ending chunk).failed = true := by rw [shape]; rfl
        have own := sorted chunk (List.mem_filter.mpr ⟨inside,failed⟩)
        rwa [shape] at own
    · rw [List.eq_of_mem_replicate unused]
      exact List.Pairwise.nil

/-- The merge makes of the chunks the container sorted if and only if the tasks that
failed have done no harm. -/
theorem merged_iff [IsStrictWeakOrder α (Before sorting.comp)]
    (sorts : ∀ list, (sorting.stdSort list).Perm list ∧ Sorted (Before sorting.comp) (sorting.stdSort list))
    {result : List α} (merges : Merges (Before sorting.comp) (sorting.chunks order) result) :
    result.Perm sorting.container ∧ Sorted (Before sorting.comp) result ↔ sorting.Harmless tasks := by
  have kept := kept_iff span executes room fun list => (sorts list).1
  have sorted := sorted_iff span executes room fun list => (sorts list).2
  constructor
  · intro given
    obtain ⟨whole,ordered⟩ := given
    exact ⟨kept.mp (merges.perm.symm.trans whole),sorted.mp (merges.sorted_lists ordered)⟩
  · intro harmless
    exact ⟨merges.perm.trans (kept.mpr harmless.kept),merges.sorted (sorted.mpr harmless.sorted)⟩

end Exits

theorem holds_left {sorting : Sorting α ε} {s : State Chunk Unit ε} (left : s.point = .left (.ok ())) :
    sorting.holds s =
      (mergeLoop sorting.comp sorting.moved sorting.container.length (.start (sorting.chunks s.finished))).result := by
  unfold Sorting.holds
  rw [left]

theorem holds_other (sorting : Sorting α ε) {s : State Chunk Unit ε} (other : s.point ≠ .left (.ok ())) :
    sorting.holds s = sorting.container := by
  unfold Sorting.holds
  split
  next result left => exact absurd left other
  next => rfl

section Run
variable [Inhabited ε] {platform : ThreadPool.Platform ε} {config : ThreadPool.Config} {pool : ThreadPool.State Unit ε}
  {before : List (ThreadPool.Label Unit ε)} {labels : List (Label ε)} {sorting : Sorting α ε}
  [IsStrictWeakOrder α (Before sorting.comp)] {hardware : Nat} {s : State Chunk Unit ε}
  (sorts : ∀ list, (sorting.stdSort list).Perm list ∧ Sorted (Before sorting.comp) (sorting.stdSort list))
  (chunked : Chunked (some hardware) sorting.container.length sorting.numThreads)
  (fits : sorting.container.length < 2 ^ (platform.width - 1))
  (built : run (ThreadPool.step platform) (ThreadPool.construct platform config) before = some pool)
  (reached : run (step platform (sorting.fork platform.width hardware))
    (init (sorting.fork platform.width hardware) pool) labels = some s)

include sorts chunked fits built reached

theorem returned_iff (left : s.point = .left (.ok ())) :
    (sorting.holds s).Perm sorting.container ∧ Sorted (Before sorting.comp) (sorting.holds s) ↔
      sorting.Harmless (submitted platform.width sorting.container.length sorting.numThreads) := by
  have executes := fork_tasks chunked ▸ ((inv_run built reached).left left).1
  have span := chunked.span fits
  have room := submitted_length platform.width sorting.container.length sorting.numThreads
  have merges := mergeLoop_start sorting.comp sorting.moved (chunks_few span executes room fun list => (sorts list).1)
  rw [← holds_left left] at merges
  exact merged_iff span executes room sorts merges

/-- However the pool schedules the tasks and whatever fails in them, `Sort` is left
with an exception and the container as it was; or it returns, and then the container
is sorted and complete if and only if the failing tasks have left their elements,
and each its own in order. -/
theorem safe_iff :
    sorting.Safe s ↔ (s.point = .left (.ok ()) →
      sorting.Harmless (submitted platform.width sorting.container.length sorting.numThreads)) := by
  by_cases left : s.point = .left (.ok ())
  · have harmless := returned_iff sorts chunked fits built reached left
    exact ⟨fun safe _ => harmless.mp ⟨safe.kept,safe.sorted left⟩,
      fun given => ⟨(harmless.mpr (given left)).1,fun _ => (harmless.mpr (given left)).2⟩⟩
  · have whole := holds_other sorting left
    refine iff_of_true ⟨?_,fun returned => absurd returned left⟩ fun returned => absurd returned left
    rw [whole]

end Run

/-- Two threads sort a half each, and the task of the second half throws and leaves
what is given. -/
def secondThrows (container : List Nat) (left : Chunk → List Nat)
    (copies : ∀ chunk, (left chunk).length ≤ (slice container chunk).length) : Sorting Nat Nat where
  stdSort := fun list => list.mergeSort
  comp := fun a b => decide (a < b)
  moved := fun _ => 0
  container := container
  numThreads := 2
  ending := fun chunk => if chunk.index = 1 then .throws 7 (left chunk) else .completes
  merges := fun _ => .ok ()
  copies := by
    intro chunk
    split
    · exact copies chunk
    · exact Nat.zero_le _

section SecondThrows
variable {container : List Nat} {left : Chunk → List Nat}
  (copies : ∀ chunk, (left chunk).length ≤ (slice container chunk).length)

theorem secondThrows_left {tasks : List Chunk} :
    ∀ chunk ∈ (secondThrows container left copies).failing tasks,
      ((secondThrows container left copies).ending chunk).left = left chunk := by
  intro chunk member
  obtain ⟨_,failed⟩ := List.mem_filter.mp member
  by_cases second : chunk.index = 1
  · simp only [secondThrows,if_pos second,Ending.left]
  · simp [secondThrows,second,Ending.failed] at failed

instance : IsStrictWeakOrder Nat (Before (secondThrows container left copies).comp) :=
  inferInstanceAs (IsStrictWeakOrder Nat (Before fun a b => decide (a < b)))

variable (size : container.length = 10000)

include size

theorem secondThrows_fork :
    (secondThrows container left copies).fork 64 2 = Algorithms.sort 64 (some 2) 10000 (.ok ())
      (fun chunk => if chunk.index = 1 then .error 7 else .ok ()) fun _ => .ok () := by
  have outcome (chunk : Chunk) : ((secondThrows container left copies).ending chunk).outcome =
      if chunk.index = 1 then .error 7 else .ok () := by
    simp only [secondThrows]
    split <;> rfl
  simp only [Sorting.fork,outcome]
  rw [show (secondThrows container left copies).container.length = 10000 from size]
  rfl

/-- The only worker runs both tasks, and `Sort` returns. -/
theorem secondThrows_returns :
    ∃ s : State Chunk Unit Nat, run (step ⟨64,4,fun _ => 0⟩ ((secondThrows container left copies).fork 64 2))
        (init ((secondThrows container left copies).fork 64 2) (ThreadPool.construct ⟨64,4,fun _ => 0⟩ ⟨1,2⟩))
        Algorithms.twoTasks = some s ∧
      s.point = .left (.ok ()) := by
  rw [secondThrows_fork copies size]
  obtain ⟨s,reached,ended⟩ := (Option.any_eq_true _ _).mp (show (run
    (step ⟨64,4,fun _ => 0⟩ (Algorithms.sort 64 (some 2) 10000 (.ok ()) (fun chunk => if chunk.index = 1 then .error 7 else .ok ())
      fun _ => .ok ()))
    (init (Algorithms.sort 64 (some 2) 10000 (.ok ()) (fun chunk => if chunk.index = 1 then .error 7 else .ok ())
      fun _ => .ok ()) (ThreadPool.construct ⟨64,4,fun _ => 0⟩ ⟨1,2⟩)) Algorithms.twoTasks).any State.ended = true by
    decide +kernel)
  obtain ⟨outcome,left⟩ := ended_iff.mp ended
  have built : run (ThreadPool.step ⟨64,4,fun _ => 0⟩) (ThreadPool.construct ⟨64,4,fun _ => 0⟩ ⟨1,2⟩) [] =
      some (ThreadPool.construct ⟨64,4,fun _ => 0⟩ ⟨1,2⟩ : ThreadPool.State Unit Nat) := rfl
  obtain rfl := ((inv_run built reached).left left).2.2
  exact ⟨s,reached,left⟩

theorem secondThrows_chunked :
    Chunked (some 2) (secondThrows container left copies).container.length
      (secondThrows container left copies).numThreads := by
  rw [show (secondThrows container left copies).container.length = 10000 from size]
  exact ⟨2,rfl,by decide,rfl,Nat.one_lt_two⟩

theorem secondThrows_fits : (secondThrows container left copies).container.length < 2 ^ (64 - 1) := by
  rw [show (secondThrows container left copies).container.length = 10000 from size]
  decide

theorem secondThrows_harmless (harmless : (secondThrows container left copies).Harmless
      (submitted 64 (secondThrows container left copies).container.length (secondThrows container left copies).numThreads))
    (empty : ∀ chunk, left chunk = []) : False := by
  have kept := harmless.kept
  rw [List.flatMap_congr (secondThrows_left copies),List.flatMap_eq_nil_iff.mpr fun chunk _ => empty chunk,
    show (secondThrows container left copies).container.length = 10000 from size] at kept
  have second : (⟨1,5000,10000⟩ : Chunk) ∈ (secondThrows container left copies).failing (submitted 64 10000 2) :=
    List.mem_filter.mpr ⟨by decide +kernel,rfl⟩
  have lost := congrArg List.length (List.flatMap_eq_nil_iff.mp kept.symm.eq_nil ⟨1,5000,10000⟩ second)
  rw [slice,List.length_take,List.length_drop,show (secondThrows container left copies).container.length = 10000 from size]
    at lost
  contradiction

end SecondThrows

/-- The task throws when its half is sorted, and no harm is done. -/
theorem safe_iff_at_end :
    ∃ s : State Chunk Unit Nat, run
        (step ⟨64,4,fun _ => 0⟩ ((secondThrows (List.range 10000) (slice (List.range 10000)) fun _ => Nat.le_refl _).fork 64 2))
        (init ((secondThrows (List.range 10000) (slice (List.range 10000)) fun _ => Nat.le_refl _).fork 64 2)
          (ThreadPool.construct ⟨64,4,fun _ => 0⟩ ⟨1,2⟩)) Algorithms.twoTasks = some s ∧
      s.point = .left (.ok ()) ∧
      (secondThrows (List.range 10000) (slice (List.range 10000)) fun _ => Nat.le_refl _).Safe s := by
  have size : (List.range 10000).length = 10000 := List.length_range
  have sorted := List.pairwise_lt_range (n := 10000)
  generalize List.range 10000 = container at *
  obtain ⟨s,reached,left⟩ := secondThrows_returns (fun chunk => Nat.le_refl (slice container chunk).length) size
  have built : run (ThreadPool.step ⟨64,4,fun _ => 0⟩) (ThreadPool.construct ⟨64,4,fun _ => 0⟩ ⟨1,2⟩) [] =
      some (ThreadPool.construct ⟨64,4,fun _ => 0⟩ ⟨1,2⟩ : ThreadPool.State Unit Nat) := rfl
  refine ⟨s,reached,left,(safe_iff mergeSort_sorts (secondThrows_chunked _ size) (secondThrows_fits _ size) built
    reached).mpr fun _ => ⟨?_,?_⟩⟩
  · rw [List.flatMap_congr (secondThrows_left _)]
    exact List.Perm.refl _
  · intro chunk member
    rw [secondThrows_left _ chunk member]
    have inside : (slice container chunk).Sublist container := (List.take_sublist _ _).trans (List.drop_sublist _ _)
    exact (sorted.sublist inside).imp fun less => by simpa [Before,secondThrows] using Nat.le_of_lt less

/-- The task of the second half fails to copy it: `Sort` returns, and half of the
elements are gone. -/
theorem failed_copy_loses :
    ∃ s : State Chunk Unit Nat, run
        (step ⟨64,4,fun _ => 0⟩ ((secondThrows (List.range 10000) (fun _ => []) fun _ => Nat.zero_le _).fork 64 2))
        (init ((secondThrows (List.range 10000) (fun _ => []) fun _ => Nat.zero_le _).fork 64 2)
          (ThreadPool.construct ⟨64,4,fun _ => 0⟩ ⟨1,2⟩)) Algorithms.twoTasks = some s ∧
      s.point = .left (.ok ()) ∧ ¬ (secondThrows (List.range 10000) (fun _ => []) fun _ => Nat.zero_le _).Safe s := by
  have size : (List.range 10000).length = 10000 := List.length_range
  generalize List.range 10000 = container at *
  obtain ⟨s,reached,left⟩ := @secondThrows_returns container (fun _ => []) (fun _ => Nat.zero_le _) size
  have built : run (ThreadPool.step ⟨64,4,fun _ => 0⟩) (ThreadPool.construct ⟨64,4,fun _ => 0⟩ ⟨1,2⟩) [] =
      some (ThreadPool.construct ⟨64,4,fun _ => 0⟩ ⟨1,2⟩ : ThreadPool.State Unit Nat) := rfl
  refine ⟨s,reached,left,fun safe => ?_⟩
  have harmless := (returned_iff mergeSort_sorts (secondThrows_chunked _ size) (secondThrows_fits _ size) built reached
    left).mp ⟨safe.kept,safe.sorted left⟩
  exact secondThrows_harmless _ size harmless fun _ => rfl

end Ezthread.ParallelSort
