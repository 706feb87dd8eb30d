import Ezthread.ForkJoin
import Ezthread.Reduce

/-! What `ParallelFor`, `ForEach`, `Reduce` and `Sort` fork, and the calls that
`ForEach` makes. `size_t` has `w` bits, and `maxThreads` is that of `m_config`. -/
namespace Ezthread.Algorithms
open Transition Chunks ForkJoin

variable {α β γ ρ ε : Type*}

def sequential (work : Work β ρ ε) : Fork Chunk β ρ ε := ⟨[],fun _ => ⟨[],.ok ()⟩,fun _ => work⟩

def call (func : β → Except ε Unit) (x : β) : Work β Unit ε := ⟨[x],func x⟩

/-- `for (...) body(x);` up to the first exception. -/
def loop (body : β → Work γ Unit ε) (range : List β) : Work γ Unit ε := rounds (fun _ x => body x) () range

def indices (chunk : Chunk) : List Nat := List.range' chunk.chunkBegin (chunk.chunkEnd - chunk.chunkBegin)

/-- `for (size_t i=0; i<numThreads; ++i)` with `left` rounds to go. -/
def submitFrom (w start stop chunkSize : Nat) : Nat → Nat → List Chunk
  | 0,_ => []
  | left + 1,i =>
      let chunkBegin := (start + i * chunkSize) % 2 ^ w
      let chunkEnd := min stop ((chunkBegin + chunkSize) % 2 ^ w)
      if chunkBegin ≥ chunkEnd then [] else ⟨i,chunkBegin,chunkEnd⟩ :: submitFrom w start stop chunkSize left (i + 1)

/-- `ParallelFor` of a function that makes calls itself. -/
def parallelLoop (w maxThreads start stop : Nat) (func : Nat → Work γ Unit ε) : Fork Chunk γ Unit ε :=
  let count := stop - start
  let numThreads := min maxThreads count
  if start ≥ stop then sequential ⟨[],.ok ()⟩
  else if numThreads ≤ 1 then sequential (loop func (List.range' start count))
  else
    {tasks := submitFrom w start stop (Reduce.chunkSize w count numThreads) numThreads 0
     work := fun chunk => loop func (indices chunk)
     rest := fun _ => ⟨[],.ok ()⟩}

def parallelFor (w maxThreads start stop : Nat) (func : Nat → Except ε Unit) : Fork Chunk Nat Unit ε :=
  parallelLoop w maxThreads start stop (call func)

/-- `std::advance(it, index); func(*it);` -/
def advance (range : List α) (func : α → Except ε Unit) (index : Nat) : Work α Unit ε :=
  match range[index]? with
  | some x => call func x
  | none => ⟨[],.ok ()⟩

/-- No pool, or the pool's number of threads. -/
def forEach (w : Nat) (pool : Option Nat) (range : List α) (func : α → Except ε Unit) : Fork Chunk α Unit ε :=
  if range.length = 0 then sequential ⟨[],.ok ()⟩
  else
    match pool with
    | some maxThreads => parallelLoop w maxThreads 0 range.length (advance range func)
    | none => sequential (loop (call func) range)

/-- A task that throws leaves its slot as it is. -/
def partialResults (func : α → α → Except ε α) (initial : α) (range : List α) (numThreads : Nat) (order : List Chunk) :
    List α :=
  order.foldl (store fun chunk => (fold func initial (slice range chunk)).outcome.toOption) (List.replicate numThreads initial)

/-- No pool, or a pool and the number of hardware threads. -/
def reduce (w : Nat) (pool : Option Nat) (initial : α) (range : List α) (func : α → α → Except ε α) : Fork Chunk α α ε :=
  let numThreads := Reduce.numThreads pool range.length
  if range.length = 0 then sequential ⟨[],.ok initial⟩
  else if numThreads ≤ 1 then sequential (fold func initial range)
  else
    {tasks := Reduce.submitted w range.length numThreads
     work := fun chunk =>
       let localResult := fold func initial (slice range chunk)
       ⟨localResult.calls,localResult.outcome.map fun _ => ()⟩
     rest := fun order => fold func initial (partialResults func initial range numThreads order)}

/-- The comparator may throw anywhere: `whole` tells how `std::sort` of the container
ends, `sorts` that of each chunk's copy and `merges` the merge. -/
def sort (w : Nat) (pool : Option Nat) (size : Nat) (whole : Except ε Unit) (sorts : Chunk → Except ε Unit)
    (merges : List Chunk → Except ε Unit) : Fork Chunk Empty Unit ε :=
  if size ≤ 1 then sequential ⟨[],.ok ()⟩
  else
    match pool with
    | none => sequential ⟨[],whole⟩
    | some hardware =>
        let numThreads := min hardware (size / 1000)
        if size < 10000 ∨ numThreads ≤ 1 then sequential ⟨[],whole⟩
        else
          {tasks := Reduce.submitted w size numThreads
           work := fun chunk => ⟨[],sorts chunk⟩
           rest := fun order => ⟨[],merges order⟩}

theorem loop_quiet {body : β → Work γ Unit ε} {range : List β} (quiet : ∀ x ∈ range, (body x).outcome = .ok ()) :
    loop body range = ⟨range.flatMap fun x => (body x).calls,.ok ()⟩ := by
  unfold loop
  induction range with
  | nil => rfl
  | cons x rest ih =>
    obtain ⟨own,others⟩ := List.forall_mem_cons.mp quiet
    simp only [rounds,own,ih others,List.flatMap_cons]

theorem loop_call {func : β → Except ε Unit} {range : List β} (quiet : ∀ x ∈ range, func x = .ok ()) :
    loop (call func) range = ⟨range,.ok ()⟩ := by
  have walk : loop (call func) range = ⟨range.flatMap fun x => [x],.ok ()⟩ := loop_quiet quiet
  rw [walk,List.flatMap_singleton']

theorem elements_slice (range : List α) (start count : Nat) :
    (List.range' start count).filterMap (fun index => range[index]?) = (range.drop start).take count := by
  induction count generalizing start with
  | zero => simp
  | succ count ih =>
    rw [List.range'_succ,List.filterMap_cons,ih]
    by_cases inside : start < range.length
    · rw [List.getElem?_eq_getElem inside,List.drop_eq_getElem_cons inside,List.take_succ_cons]
    · rw [List.getElem?_eq_none (Nat.le_of_not_lt inside),List.drop_eq_nil_of_le (Nat.le_of_not_lt inside),
        List.drop_eq_nil_of_le (by omega)]
      simp

theorem submitFrom_zero (w stop chunkSize left i : Nat) :
    submitFrom w 0 stop chunkSize left i = Reduce.submitFrom w stop chunkSize left i := by
  induction left generalizing i with
  | zero => rfl
  | succ left ih => simp only [submitFrom,Reduce.submitFrom,Nat.zero_add,ih]

theorem submitFrom_length (w start stop chunkSize left i : Nat) :
    (submitFrom w start stop chunkSize left i).length ≤ left := by
  induction left generalizing i with
  | zero => exact Nat.le_refl 0
  | succ left ih =>
    simp only [submitFrom]
    split
    next => exact Nat.zero_le _
    next => exact Nat.succ_le_succ (ih (i + 1))

theorem advance_quiet {range : List α} {func : α → Except ε Unit} (quiet : ∀ x ∈ range, func x = .ok ()) (index : Nat) :
    (advance range func index).outcome = .ok () := by
  unfold advance
  split
  next x found => exact quiet x (List.mem_of_getElem? found)
  next => rfl

theorem advance_calls (range : List α) (func : α → Except ε Unit) (index : Nat) :
    (advance range func index).calls = range[index]?.toList := by
  unfold advance
  split
  next x found => rw [found]; rfl
  next missing => rw [missing]; rfl

theorem forEach_alone (w : Nat) (range : List α) (func : α → Except ε Unit) :
    forEach w none range func = sequential (loop (call func) range) := by
  cases range <;> rfl

/-- The path of `ForEach` with a pool and one thread. -/
theorem forEach_single {w maxThreads : Nat} {range : List α} (func : α → Except ε Unit)
    (single : min maxThreads range.length ≤ 1) :
    forEach w (some maxThreads) range func = sequential (loop (advance range func) (List.range' 0 range.length)) := by
  by_cases empty : range.length = 0
  · obtain rfl := List.length_eq_zero_iff.mp empty
    rfl
  · have occupied : ¬ 0 ≥ range.length := by omega
    simp only [forEach,parallelLoop,if_neg empty,if_neg occupied,Nat.sub_zero,if_pos single]

/-- The path of `ForEach` with several chunks. -/
theorem forEach_chunks {w maxThreads : Nat} {range : List α} (func : α → Except ε Unit)
    (several : 1 < min maxThreads range.length) :
    forEach w (some maxThreads) range func =
      {tasks := Reduce.submitted w range.length (min maxThreads range.length)
       work := fun chunk => loop (advance range func) (indices chunk)
       rest := fun _ => ⟨[],.ok ()⟩} := by
  have occupied : ¬ 0 ≥ range.length := by omega
  have many : ¬ min maxThreads range.length ≤ 1 := Nat.not_le.mpr several
  simp only [forEach,parallelLoop,if_neg (Nat.ne_of_gt (Nat.lt_of_not_le occupied)),Nat.sub_zero,if_neg many,
    if_neg occupied,submitFrom_zero]
  rfl

theorem several_span {w maxThreads : Nat} {range : List α} (several : 1 < min maxThreads range.length)
    (fits : range.length < 2 ^ (w - 1)) :
    Span 0 0 (Reduce.submitted w range.length (min maxThreads range.length)) range.length :=
  Reduce.submitted_span several (Nat.min_le_right _ _) fits (Reduce.wide_of_fits fits (by omega))

/-- The calls of all tasks and of the caller, on each path. -/
theorem forEach_covers {w : Nat} (pool : Option Nat) {range : List α} {func : α → Except ε Unit}
    (quiet : ∀ x ∈ range, func x = .ok ()) (fits : range.length < 2 ^ (w - 1)) (order : List Chunk) :
    (forEach w pool range func).tasks.flatMap (fun chunk => ((forEach w pool range func).work chunk).calls) ++
        ((forEach w pool range func).rest order).calls = range ∧
      ((forEach w pool range func).rest order).outcome = .ok () := by
  have walks (start count : Nat) :
      loop (advance range func) (List.range' start count) = ⟨(range.drop start).take count,.ok ()⟩ := by
    simp only [loop_quiet fun index _ => advance_quiet quiet index,advance_calls,← List.filterMap_eq_flatMap_toList,
      elements_slice]
  cases pool with
  | none =>
    rw [forEach_alone,loop_call quiet]
    exact ⟨rfl,rfl⟩
  | some maxThreads =>
    rcases Nat.lt_or_ge 1 (min maxThreads range.length) with several | single
    · rw [forEach_chunks func several]
      refine ⟨?_,rfl⟩
      have whole := (several_span several fits).slices range
      rw [Nat.sub_zero,List.drop_zero,List.take_length] at whole
      simp only [indices,walks,List.append_nil]
      exact whole
    · rw [forEach_single func single,walks,List.drop_zero,List.take_length]
      exact ⟨rfl,rfl⟩

/-- When `ForEach` with the pool has returned, `func` has been called on every
element once and on nothing else, as it is without a pool. -/
theorem forEach_calls [Inhabited ε] {platform : ThreadPool.Platform ε} {config : ThreadPool.Config}
    {pool : ThreadPool.State Unit ε} {before : List (ThreadPool.Label Unit ε)} {labels : List (Label ε)}
    {range : List α} {func : α → Except ε Unit} {s : State Chunk Unit ε} {outcome : Except ε Unit}
    (fits : range.length < 2 ^ (platform.width - 1)) (quiet : ∀ x ∈ range, func x = .ok ())
    (built : run (ThreadPool.step platform) (ThreadPool.construct platform config) before = some pool)
    (reached : run (step platform (forEach platform.width (some (config.adjust platform).maxThreads) range func))
      (init (forEach platform.width (some (config.adjust platform).maxThreads) range func) pool) labels = some s)
    (left : s.point = .left outcome) :
    (s.called (forEach platform.width (some (config.adjust platform).maxThreads) range func)).Perm range ∧
      outcome = .ok () ∧ ((forEach platform.width none range func).rest []).calls = range := by
  have inv := inv_run built reached
  obtain ⟨covers,ends⟩ := forEach_covers (some (config.adjust platform).maxThreads) quiet fits s.finished
  have called := inv.called left
  rw [covers] at called
  refine ⟨called,(inv.left left).2.2.trans ends,?_⟩
  have alone := (forEach_covers none quiet fits []).1
  rwa [forEach_alone] at alone ⊢

/-- The caller submits two tasks, which the first worker executes one after another
with no one else using the pool, and leaves. How a chunk task ends is its own matter. -/
def twoTasks : List (Label ε) :=
  [.caller,.pool (.call 0),.pool (.call 0),.pool (.call 0),.pool (.call 0),.caller,
    .caller,.pool (.call 1),.pool (.call 1),.pool (.call 1),.pool (.call 1),.caller,.caller,
    .pool (.worker 0),.pool (.worker 0),.pool (.worker 0),.pool (.worker 0),.pool (.worker 0),.pool (.worker 0),
    .pool (.worker 0),.pool (.worker 0),.pool (.worker 0),.pool (.finish 0 (.ok ())),
    .pool (.worker 0),.pool (.worker 0),.pool (.worker 0),.pool (.worker 0),.pool (.worker 0),.pool (.worker 0),
    .pool (.worker 0),.pool (.worker 0),.pool (.worker 0),.pool (.worker 0),.pool (.worker 0),
    .pool (.finish 0 (.ok ())),.pool (.worker 0),.caller,.caller,.caller]

/-- Three elements in two chunks, executed by one worker. -/
theorem forEach_calls_two_chunks :
    ∃ s : State Chunk Unit Nat, run (step ⟨64,4,fun _ => 0⟩ (forEach 64 (some 2) [10,20,30] fun _ => .ok ()))
        (init (forEach 64 (some 2) [10,20,30] fun _ => .ok ()) (ThreadPool.construct ⟨64,4,fun _ => 0⟩ ⟨1,2⟩))
        twoTasks = some s ∧
      s.point = .left (.ok ()) ∧
      (s.called (forEach 64 (some 2) [10,20,30] fun _ => .ok ())).Perm [10,20,30] := by
  obtain ⟨s,reached,ended⟩ := (Option.any_eq_true _ _).mp (show (run
      (step ⟨64,4,fun _ => 0⟩ (forEach 64 (some 2) [10,20,30] fun _ => .ok ()))
      (init (forEach 64 (some 2) [10,20,30] fun _ => .ok ()) (ThreadPool.construct ⟨64,4,fun _ => 0⟩ ⟨1,2⟩))
      twoTasks).any State.ended = true by decide +kernel)
  obtain ⟨outcome,left⟩ := ended_iff.mp ended
  have built : run (ThreadPool.step ⟨64,4,fun _ => 0⟩) (ThreadPool.construct ⟨64,4,fun _ => 0⟩ ⟨1,2⟩) [] =
      some (ThreadPool.construct ⟨64,4,fun _ => 0⟩ ⟨1,2⟩ : ThreadPool.State Unit Nat) := rfl
  obtain ⟨once,rfl,_⟩ :=
    @forEach_calls _ _ _ _ ⟨1,2⟩ _ _ _ _ _ s outcome (by decide) (fun _ _ => rfl) built reached left
  exact ⟨s,reached,left,once⟩

end Ezthread.Algorithms
