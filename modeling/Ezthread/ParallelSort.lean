import Ezthread.Reduce
import Ezthread.Merging

/-! `parallel::Sort` of sync.hpp: the tasks sort copies of the chunks, and a loop
merges them. The loop is the merge of `Merging` on what is left of each chunk. -/
namespace Ezthread.ParallelSort
open Chunks Reduce Merging

variable {α : Type*}

/-- `comp` as a relation. -/
def Before (comp : α → α → Bool) (a b : α) : Prop := comp a b = true

/-- The local variables of the merge loop. -/
structure Merge (α : Type*) where
  chunks : List (List α)
  indices : List Nat
  exhausted : List Bool
  result : List α

/-- `chunks[i][indices[i]]` where the loop over the chunks looks at it. -/
def Merge.front (m : Merge α) (i : Nat) : Option α :=
  match m.exhausted[i]?,m.indices[i]?,m.chunks[i]? with
  | some false,some index,some chunk => chunk[index]?
  | _,_,_ => none

/-- None before anything is found, else `bestChunk` and its element. -/
def Merge.scan (comp : α → α → Bool) (m : Merge α) (best : Option (Nat × α)) (i : Nat) : Option (Nat × α) :=
  match m.front i with
  | none => best
  | some x =>
      match best with
      | none => some (i,x)
      | some (_,y) => if comp x y then some (i,x) else best

def Merge.best (comp : α → α → Bool) (m : Merge α) : Option (Nat × α) :=
  (List.range m.chunks.length).foldl (m.scan comp) none

/-- `moved` is what moving from an element leaves of it. -/
def Merge.emit (moved : α → α) (m : Merge α) (bestChunk : Nat) (x : α) : Merge α :=
  let index := m.indices.getD bestChunk 0
  let chunk := m.chunks.getD bestChunk []
  {chunks := m.chunks.set bestChunk (chunk.set index (moved x))
   indices := m.indices.set bestChunk (index + 1)
   exhausted := if index + 1 ≥ chunk.length then m.exhausted.set bestChunk true else m.exhausted
   result := m.result ++ [x]}

def mergeLoop (comp : α → α → Bool) (moved : α → α) (size : Nat) (m : Merge α) : Merge α :=
  if m.result.length < size then
    match m.best comp with
    | none => m
    | some (bestChunk,x) => mergeLoop comp moved size (m.emit moved bestChunk x)
  else m
termination_by size - m.result.length
decreasing_by
  simp only [Merge.emit,List.length_append,List.length_singleton]
  omega

def Merge.start (chunks : List (List α)) : Merge α :=
  ⟨chunks,List.replicate chunks.length 0,List.replicate chunks.length false,[]⟩

/-- The tasks assign and sort their chunks in the order given. -/
def sortedChunks (stdSort : List α → List α) (container : List α) (numThreads : Nat) (order : List Chunk) :
    List (List α) :=
  order.foldl (write fun chunk => stdSort (slice container chunk)) (List.replicate numThreads [])

def merged (stdSort : List α → List α) (comp : α → α → Bool) (moved : α → α) (container : List α) (numThreads : Nat)
    (order : List Chunk) : List α :=
  (mergeLoop comp moved container.length (.start (sortedChunks stdSort container numThreads order))).result

/-- The pool is given by the number of hardware threads. -/
def sort (stdSort : List α → List α) (comp : α → α → Bool) (moved : α → α) (pool : Option Nat) (container : List α)
    (order : List Chunk) : List α :=
  if container.length ≤ 1 then container
  else
    match pool with
    | none => stdSort container
    | some hardware =>
        if container.length < 10000 then stdSort container
        else
          let numThreads := min hardware (container.length / 1000)
          if numThreads ≤ 1 then stdSort container else merged stdSort comp moved container numThreads order

/-- `Sort` takes the path of chunks and merge with that many threads. -/
def Chunked (pool : Option Nat) (size numThreads : Nat) : Prop :=
  ∃ hardware, pool = some hardware ∧ 10000 ≤ size ∧ numThreads = min hardware (size / 1000) ∧ 1 < numThreads

/-- What is left of each chunk. -/
def Merge.rests (m : Merge α) : List (List α) := List.zipWith List.drop m.indices m.chunks

structure Aligned (m : Merge α) : Prop where
  indices : m.indices.length = m.chunks.length
  exhausted : m.exhausted.length = m.chunks.length
  finished : ∀ i : Nat, m.exhausted[i]? = some true → m.rests[i]? = some []

theorem Aligned.front {m : Merge α} (aligned : Aligned m) (i : Nat) : m.front i = m.rests[i]?.bind List.head? := by
  by_cases inside : i < m.chunks.length
  · have counted : i < m.indices.length := by rw [aligned.indices]; exact inside
    have flagged : i < m.exhausted.length := by rw [aligned.exhausted]; exact inside
    have chunk := List.getElem?_eq_getElem inside
    have index := List.getElem?_eq_getElem counted
    have flag := List.getElem?_eq_getElem flagged
    cases shape : m.exhausted[i] with
    | true =>
      rw [shape] at flag
      rw [aligned.finished i flag,Merge.front,flag]
      rfl
    | false =>
      rw [shape] at flag
      have rest : m.rests[i]? = some (m.chunks[i].drop m.indices[i]) := by
        simp [Merge.rests,List.getElem?_zipWith,index,chunk]
      rw [rest,Merge.front,flag,index,chunk]
      simp
  · have outside : m.chunks[i]? = none := List.getElem?_eq_none (Nat.le_of_not_lt inside)
    have none : m.rests[i]? = none := by simp [Merge.rests,List.getElem?_zipWith,outside]
    rw [none,Merge.front,outside]
    split
    · contradiction
    · rfl

def Scanned (comp : α → α → Bool) (m : Merge α) (n : Nat) : Option (Nat × α) → Prop
  | none => ∀ i < n, m.front i = none
  | some (bestChunk,x) => m.front bestChunk = some x ∧ ∀ i < n, ∀ y, m.front i = some y → ¬ Before comp y x

theorem Scanned.scan {comp : α → α → Bool} [IsStrictWeakOrder α (Before comp)] {m : Merge α} {n : Nat}
    {best : Option (Nat × α)} (scanned : Scanned comp m n best) : Scanned comp m (n + 1) (m.scan comp best n) := by
  unfold Merge.scan
  cases found : m.front n with
  | none =>
    cases best with
    | none =>
      intro i below
      rcases Nat.lt_succ_iff_lt_or_eq.mp below with earlier | rfl
      · exact scanned i earlier
      · exact found
    | some pair =>
      refine ⟨scanned.1,fun i below y front => ?_⟩
      rcases Nat.lt_succ_iff_lt_or_eq.mp below with earlier | rfl
      · exact scanned.2 i earlier y front
      · simp [found] at front
  | some x =>
    cases best with
    | none =>
      refine ⟨found,fun i below y front => ?_⟩
      rcases Nat.lt_succ_iff_lt_or_eq.mp below with earlier | rfl
      · simp [scanned i earlier] at front
      · cases found.symm.trans front
        exact irrefl_of (Before comp) x
    | some pair =>
      obtain ⟨bestChunk,best⟩ := pair
      simp only
      split
      next better =>
        refine ⟨found,fun i below y front => ?_⟩
        rcases Nat.lt_succ_iff_lt_or_eq.mp below with earlier | rfl
        · exact fun less => scanned.2 i earlier y front (trans_of (Before comp) less better)
        · cases found.symm.trans front
          exact irrefl_of (Before comp) x
      next worse =>
        refine ⟨scanned.1,fun i below y front => ?_⟩
        rcases Nat.lt_succ_iff_lt_or_eq.mp below with earlier | rfl
        · exact scanned.2 i earlier y front
        · cases found.symm.trans front
          exact worse

theorem scanned_range {comp : α → α → Bool} [IsStrictWeakOrder α (Before comp)] (m : Merge α) (n : Nat) :
    Scanned comp m n ((List.range n).foldl (m.scan comp) none) := by
  induction n with
  | zero => simp [Scanned]
  | succ n ih =>
    rw [List.range_succ,List.foldl_append]
    exact ih.scan

theorem zipWith_set {β γ δ : Type*} (f : β → γ → δ) (firsts : List β) (seconds : List γ) (i : Nat) (a : β) (b : γ) :
    List.zipWith f (firsts.set i a) (seconds.set i b) = (List.zipWith f firsts seconds).set i (f a b) := by
  induction firsts generalizing seconds i with
  | nil => simp
  | cons first rest ih =>
    cases seconds with
    | nil => simp
    | cons second others =>
      cases i with
      | zero => rfl
      | succ i => exact congrArg _ (ih others i)

section Step
variable {comp : α → α → Bool} {m : Merge α} {bestChunk : Nat} {x : α} {rest : List α}

theorem rests_length (m : Merge α) : m.rests.length ≤ m.chunks.length := by
  rw [Merge.rests,List.length_zipWith]
  exact Nat.min_le_right _ _

variable [IsStrictWeakOrder α (Before comp)]

theorem Aligned.best_none (aligned : Aligned m) (none : m.best comp = none) : ∀ list ∈ m.rests, list = [] := by
  intro list member
  obtain ⟨i,found⟩ := List.mem_iff_getElem?.mp member
  have scanned : Scanned comp m m.chunks.length (m.best comp) := scanned_range m m.chunks.length
  rw [none] at scanned
  have front := aligned.front i
  rw [scanned i (Nat.lt_of_lt_of_le (List.getElem?_eq_some_iff.mp found).1 (rests_length m)),found] at front
  exact List.head?_eq_none_iff.mp front.symm

theorem Aligned.best_some (aligned : Aligned m) (best : m.best comp = some (bestChunk,x)) :
    (∃ rest, m.rests[bestChunk]? = some (x :: rest)) ∧ Least (Before comp) m.rests x := by
  have scanned : Scanned comp m m.chunks.length (m.best comp) := scanned_range m m.chunks.length
  rw [best] at scanned
  constructor
  · have front := scanned.1
    rw [aligned.front bestChunk] at front
    obtain ⟨list,found,head⟩ := Option.bind_eq_some_iff.mp front
    obtain ⟨rest,rfl⟩ := List.head?_eq_some_iff.mp head
    exact ⟨rest,found⟩
  · intro list member y head
    obtain ⟨i,found⟩ := List.mem_iff_getElem?.mp member
    apply scanned.2 i (Nat.lt_of_lt_of_le (List.getElem?_eq_some_iff.mp found).1 (rests_length m)) y
    rw [aligned.front i,found]
    exact head

end Step

theorem rest_found {m : Merge α} {bestChunk : Nat} {x : α} {rest : List α}
    (found : m.rests[bestChunk]? = some (x :: rest)) :
    ∃ index chunk, m.indices[bestChunk]? = some index ∧ m.chunks[bestChunk]? = some chunk ∧
      index < chunk.length ∧ chunk.drop (index + 1) = rest := by
  rw [Merge.rests,List.getElem?_zipWith] at found
  split at found
  next index chunk first second =>
    have left : chunk.drop index = x :: rest := Option.some.inj found
    have inside : index < chunk.length := by
      by_contra beyond
      rw [List.drop_eq_nil_of_le (Nat.le_of_not_lt beyond)] at left
      contradiction
    refine ⟨index,chunk,first,second,inside,?_⟩
    rw [List.drop_eq_getElem_cons inside] at left
    exact (List.cons.inj left).2
  next => contradiction

theorem Merge.emit_eq (moved : α → α) {m : Merge α} {bestChunk index : Nat} {chunk : List α} (x : α)
    (indexed : m.indices[bestChunk]? = some index) (present : m.chunks[bestChunk]? = some chunk) :
    m.emit moved bestChunk x =
      {chunks := m.chunks.set bestChunk (chunk.set index (moved x))
       indices := m.indices.set bestChunk (index + 1)
       exhausted := if index + 1 ≥ chunk.length then m.exhausted.set bestChunk true else m.exhausted
       result := m.result ++ [x]} := by
  simp [Merge.emit,List.getD_eq_getElem?_getD,indexed,present]

/-- What an emitted element leaves behind in its chunk is never looked at again. -/
theorem rests_emit (moved : α → α) {m : Merge α} {bestChunk : Nat} {x : α} {rest : List α}
    (found : m.rests[bestChunk]? = some (x :: rest)) :
    (m.emit moved bestChunk x).rests = m.rests.set bestChunk rest := by
  obtain ⟨index,chunk,indexed,present,_,left⟩ := rest_found found
  rw [m.emit_eq moved x indexed present,Merge.rests,zipWith_set,List.drop_set_of_lt (Nat.lt_succ_self index),left]
  rfl

theorem Aligned.emit (moved : α → α) {m : Merge α} {bestChunk : Nat} {x : α} {rest : List α} (aligned : Aligned m)
    (found : m.rests[bestChunk]? = some (x :: rest)) : Aligned (m.emit moved bestChunk x) := by
  have rests := rests_emit moved found
  obtain ⟨index,chunk,indexed,present,inside,left⟩ := rest_found found
  have own : bestChunk < m.rests.length := (List.getElem?_eq_some_iff.mp found).1
  rw [m.emit_eq moved x indexed present] at rests ⊢
  refine ⟨by simp [aligned.indices],?_,?_⟩
  · split <;> simp [aligned.exhausted]
  · intro i set
    rw [rests]
    by_cases same : bestChunk = i
    · subst same
      rw [List.getElem?_set_self own]
      split at set
      next last => rw [← left,List.drop_eq_nil_of_le last]
      next more => simp [aligned.finished bestChunk set] at found
    · rw [List.getElem?_set_ne same]
      split at set
      next last => exact aligned.finished i (by rwa [List.getElem?_set_ne same] at set)
      next more => exact aligned.finished i set

/-- The loop emits a merge of what is left of the chunks, and all of it if there is
room. -/
theorem mergeLoop_merges (comp : α → α → Bool) [IsStrictWeakOrder α (Before comp)] (moved : α → α) {size : Nat}
    {m : Merge α} (aligned : Aligned m) (enough : m.result.length + m.rests.flatten.length ≤ size) :
    ∃ emitted, (mergeLoop comp moved size m).result = m.result ++ emitted ∧
      Merges (Before comp) m.rests emitted := by
  induction left : m.rests.flatten.length generalizing m with
  | zero =>
    have empty := List.flatten_eq_nil_iff.mp (List.length_eq_zero_iff.mp left)
    have stops : mergeLoop comp moved size m = m := by
      rw [mergeLoop]
      split
      next =>
        split
        next => rfl
        next bestChunk x best =>
          obtain ⟨⟨rest,found⟩,_⟩ := aligned.best_some best
          have gone := empty _ (List.mem_of_getElem? found)
          contradiction
      next => rfl
    exact ⟨[],by rw [stops,List.append_nil],.done empty⟩
  | succ left ih =>
    rw [mergeLoop,if_pos (by omega)]
    split
    next none =>
      have empty := List.flatten_eq_nil_iff.mpr (aligned.best_none none)
      simp [empty] at left
    next bestChunk x best =>
      obtain ⟨⟨rest,found⟩,least⟩ := aligned.best_some best
      have rests := rests_emit moved found
      have shorter := (flatten_take found).length_eq
      rw [List.length_cons] at shorter
      have result : (m.emit moved bestChunk x).result = m.result ++ [x] := rfl
      obtain ⟨emitted,equal,merges⟩ := ih (aligned.emit moved found)
        (by rw [rests,result,List.length_append,List.length_singleton]; omega) (by rw [rests]; omega)
      rw [rests] at merges
      refine ⟨x :: emitted,?_,.take found least merges⟩
      rw [equal,result,List.append_assoc]
      rfl

theorem rests_start (chunks : List (List α)) : (Merge.start chunks).rests = chunks := by
  unfold Merge.rests Merge.start
  induction chunks with
  | nil => rfl
  | cons chunk rest ih =>
    rw [List.length_cons,List.replicate_succ,List.zipWith_cons_cons,ih]
    rfl

theorem aligned_start (chunks : List (List α)) : Aligned (Merge.start chunks) := by
  refine ⟨by simp [Merge.start],by simp [Merge.start],fun i set => ?_⟩
  have lowered := List.eq_of_mem_replicate (List.mem_of_getElem? set)
  contradiction

/-- The loop merges the chunks, whatever they hold, if there is room. -/
theorem mergeLoop_start (comp : α → α → Bool) [IsStrictWeakOrder α (Before comp)] (moved : α → α) {size : Nat}
    {chunks : List (List α)} (few : chunks.flatten.length ≤ size) :
    Merges (Before comp) chunks (mergeLoop comp moved size (.start chunks)).result := by
  have enough : (Merge.start chunks).result.length + (Merge.start chunks).rests.flatten.length ≤ size := by
    rw [rests_start]
    simpa [Merge.start] using few
  obtain ⟨emitted,equal,merges⟩ := mergeLoop_merges comp moved (aligned_start chunks) enough
  rw [rests_start] at merges
  have result : (mergeLoop comp moved size (.start chunks)).result = emitted := equal
  rwa [result]

theorem Chunked.span {w size numThreads : Nat} {pool : Option Nat} (chunked : Chunked pool size numThreads)
    (fits : size < 2 ^ (w - 1)) : Span 0 0 (submitted w size numThreads) size := by
  obtain ⟨hardware,_,large,threads,several⟩ := chunked
  have most : numThreads ≤ size := by
    rw [threads]
    exact Nat.le_trans (Nat.min_le_right _ _) (Nat.div_le_self _ _)
  exact submitted_span several most fits (wide_of_fits fits (by omega))

section Correct
variable {stdSort : List α → List α} {comp : α → α → Bool} {container : List α} {order : List Chunk}

theorem sortedChunks_perm {w numThreads : Nat} (sorts : ∀ list, (stdSort list).Perm list)
    (span : Span 0 0 (submitted w container.length numThreads) container.length)
    (executes : order.Perm (submitted w container.length numThreads)) :
    (sortedChunks stdSort container numThreads order).flatten.Perm container := by
  have whole := span.slices container
  rw [Nat.sub_zero,List.drop_zero,List.take_length] at whole
  have sorted := List.Perm.flatMap_left (submitted w container.length numThreads)
    fun chunk _ => sorts (slice container chunk)
  rw [List.flatMap_def,List.flatMap_def,whole] at sorted
  rw [sortedChunks,submitted_writes _ [] span executes]
  simpa using sorted

theorem sortedChunks_sorted {w numThreads : Nat} (sorts : ∀ list, Sorted (Before comp) (stdSort list))
    (span : Span 0 0 (submitted w container.length numThreads) container.length)
    (executes : order.Perm (submitted w container.length numThreads)) :
    ∀ chunk ∈ sortedChunks stdSort container numThreads order, Sorted (Before comp) chunk := by
  intro chunk member
  rw [sortedChunks,submitted_writes _ [] span executes] at member
  rcases List.mem_append.mp member with task | unused
  · obtain ⟨_,_,rfl⟩ := List.mem_map.mp task
    exact sorts _
  · rw [List.eq_of_mem_replicate unused]
    exact List.Pairwise.nil

theorem merged_correct [IsStrictWeakOrder α (Before comp)] (moved : α → α) {w numThreads : Nat}
    (sorts : ∀ list, (stdSort list).Perm list ∧ Sorted (Before comp) (stdSort list))
    (span : Span 0 0 (submitted w container.length numThreads) container.length)
    (executes : order.Perm (submitted w container.length numThreads)) :
    (merged stdSort comp moved container numThreads order).Perm container ∧
      Sorted (Before comp) (merged stdSort comp moved container numThreads order) := by
  have whole := sortedChunks_perm (fun list => (sorts list).1) span executes
  have merges : Merges (Before comp) (sortedChunks stdSort container numThreads order)
      (merged stdSort comp moved container numThreads order) :=
    mergeLoop_start comp moved (Nat.le_of_eq whole.length_eq)
  exact ⟨merges.perm.trans whole,merges.sorted (sortedChunks_sorted (fun list => (sorts list).2) span executes)⟩

end Correct

/-- Whatever the number of threads and the order in which the tasks are executed,
the container is sorted, and the merge loop emits as many elements as it has. -/
theorem sort_sorts {w : Nat} {stdSort : List α → List α} {comp : α → α → Bool} [IsStrictWeakOrder α (Before comp)]
    (moved : α → α) {pool : Option Nat} {container : List α} {order : List Chunk}
    (sorts : ∀ list, (stdSort list).Perm list ∧ Sorted (Before comp) (stdSort list))
    (fits : container.length < 2 ^ (w - 1))
    (executes : ∀ numThreads, Chunked pool container.length numThreads →
      order.Perm (submitted w container.length numThreads)) :
    (sort stdSort comp moved pool container order).Perm container ∧
      Sorted (Before comp) (sort stdSort comp moved pool container order) ∧
      ∀ numThreads, Chunked pool container.length numThreads →
        (merged stdSort comp moved container numThreads order).length = container.length := by
  rw [← and_assoc]
  refine ⟨?_,fun numThreads chunked =>
    (merged_correct moved sorts (chunked.span fits) (executes numThreads chunked)).1.length_eq⟩
  unfold sort
  split
  next few =>
    refine ⟨List.Perm.refl _,?_⟩
    match container,few with
    | [],_ => exact List.Pairwise.nil
    | [x],_ => exact List.pairwise_singleton _ x
  next =>
    split
    next => exact sorts container
    next hardware =>
      split
      next => exact sorts container
      next large =>
        simp only
        split
        next => exact sorts container
        next several =>
          have chunked : Chunked (some hardware) container.length (min hardware (container.length / 1000)) :=
            ⟨hardware,rfl,Nat.le_of_not_lt large,rfl,Nat.lt_of_not_le several⟩
          exact merged_correct moved sorts (chunked.span fits) (executes _ chunked)

instance : IsStrictWeakOrder Nat (Before fun a b => decide (a < b)) where
  irrefl a := by simp [Before]
  trans a b c first second := by simp only [Before,decide_eq_true_eq] at *; omega
  incomp_trans a b c first second := by simp only [Before,decide_eq_true_eq] at *; omega

theorem mergeSort_sorts (list : List Nat) :
    list.mergeSort.Perm list ∧ Sorted (Before fun a b => decide (a < b)) list.mergeSort := by
  have ascending : (list.mergeSort).Pairwise fun a b : Nat => decide (a ≤ b) = true :=
    List.pairwise_mergeSort (fun a b c first second => by simp at *; omega) (fun a b => by simp; omega) list
  exact ⟨List.mergeSort_perm list _,ascending.imp fun le => by simpa [Before] using le⟩

theorem sort_sorts_two_chunks :
    Sorted (Before fun a b => decide (a < b))
      (sort (fun list => list.mergeSort) (fun a b => decide (a < b)) (fun _ => 0) (some 2)
        (List.range 10000).reverse (submitted 64 10000 2).reverse) := by
  refine (sort_sorts (w := 64) (fun _ => 0) mergeSort_sorts (by simp) ?_).2.1
  intro numThreads chunked
  obtain ⟨hardware,pool,_,threads,_⟩ := chunked
  cases pool
  simp only [List.length_reverse,List.length_range] at threads ⊢
  rw [threads]
  exact List.reverse_perm _

end Ezthread.ParallelSort
