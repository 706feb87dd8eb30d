import Ezthread.Algorithms
import Mathlib.Algebra.Order.Floor.Div

/-! When the chunk arithmetic of `ParallelFor` stays below `2 ^ w`. -/
namespace Ezthread.Algorithms
open Chunks ForkJoin

/-- What `ParallelFor` calls its function on when that does not throw. -/
def called (w maxThreads start stop : Nat) : List Nat :=
  let fork := parallelFor w maxThreads start stop fun _ => (.ok () : Except Empty Unit)
  fork.tasks.flatMap (fun chunk => (fork.work chunk).calls) ++ (fork.rest []).calls

def Covers (w maxThreads start stop : Nat) : Prop := called w maxThreads start stop = List.range' start (stop - start)

/-- No sum or product of the loop wraps in a round that is begun. -/
def Rounds (w start stop chunkSize : Nat) : Nat → Nat → Prop
  | 0,_ => True
  | left + 1,i =>
      let chunkBegin := (start + i * chunkSize) % 2 ^ w
      let chunkEnd := min stop ((chunkBegin + chunkSize) % 2 ^ w)
      i * chunkSize < 2 ^ w ∧ start + i * chunkSize < 2 ^ w ∧ start + i * chunkSize + chunkSize < 2 ^ w ∧
        (chunkBegin < chunkEnd → Rounds w start stop chunkSize left (i + 1))

/-- No chunk computation of `ParallelFor` wraps. -/
def Unwrapped (w maxThreads start stop : Nat) : Prop :=
  let count := stop - start
  let numThreads := min maxThreads count
  1 < numThreads → count + numThreads - 1 < 2 ^ w ∧
    Rounds w start stop (Reduce.chunkSize w count numThreads) numThreads 0

/-- The chunks, rounded up to whole ones, leave room for one round more. -/
def Roomy (w maxThreads start stop : Nat) : Prop :=
  let count := stop - start
  let numThreads := min maxThreads count
  let chunkSize := count ⌈/⌉ numThreads
  count + numThreads ≤ 2 ^ w ∧ start + min numThreads (count ⌈/⌉ chunkSize + 1) * chunkSize < 2 ^ w

instance (w maxThreads start stop : Nat) : Decidable (Covers w maxThreads start stop) :=
  inferInstanceAs (Decidable (_ = _))

instance decideRounds (w start stop chunkSize : Nat) : (left i : Nat) → Decidable (Rounds w start stop chunkSize left i)
  | 0,_ => isTrue trivial
  | left + 1,i =>
      have := decideRounds w start stop chunkSize left (i + 1)
      inferInstanceAs (Decidable (_ ∧ _ ∧ _ ∧ (_ → _)))

instance (w maxThreads start stop : Nat) : Decidable (Unwrapped w maxThreads start stop) :=
  inferInstanceAs (Decidable (_ → _ ∧ _))

instance (w maxThreads start stop : Nat) : Decidable (Roomy w maxThreads start stop) :=
  inferInstanceAs (Decidable (_ ∧ _))

theorem span_indices {start i stop : Nat} {chunks : List Chunk} (span : Span start i chunks stop) :
    chunks.flatMap indices = List.range' start (stop - start) := by
  induction span with
  | nil => simp
  | @cons start i chunk rest stop begins numbered nonempty tail ih =>
    have beyond := tail.le
    rw [List.flatMap_cons,ih,indices,begins]
    have cut : stop - start = (chunk.chunkEnd - start) + (stop - chunk.chunkEnd) := by omega
    have next : chunk.chunkEnd = start + 1 * (chunk.chunkEnd - start) := by omega
    rw [cut,← List.range'_append,← next]

theorem submitFrom_round {w start stop size left i : Nat} (fits : start + i * size + size < 2 ^ w) :
    submitFrom w start stop size (left + 1) i =
      if start + i * size ≥ min stop (start + i * size + size) then []
      else ⟨i,start + i * size,min stop (start + i * size + size)⟩ :: submitFrom w start stop size left (i + 1) := by
  have begins : (start + i * size) % 2 ^ w = start + i * size := Nat.mod_eq_of_lt (by omega)
  have ends : (start + i * size + size) % 2 ^ w = start + i * size + size := Nat.mod_eq_of_lt fits
  simp only [submitFrom,begins,ends]

/-- A round past the end, whether its second sum wraps or not. -/
theorem submitFrom_past {w start stop size left i : Nat} (past : stop ≤ start + i * size)
    (fits : start + i * size < 2 ^ w) : submitFrom w start stop size left i = [] := by
  cases left with
  | zero => rfl
  | succ left =>
    rw [submitFrom,Nat.mod_eq_of_lt fits]
    exact if_pos (Nat.le_trans (Nat.min_le_left _ _) past)

/-- The round whose second sum wraps submits nothing. -/
theorem submitFrom_wraps {w start stop size left i : Nat} (fits : start + i * size < 2 ^ w) (small : size < 2 ^ w)
    (wraps : 2 ^ w ≤ start + i * size + size) : submitFrom w start stop size left i = [] := by
  cases left with
  | zero => rfl
  | succ left =>
    have ends : (start + i * size + size) % 2 ^ w = start + i * size + size - 2 ^ w := by
      rw [Nat.mod_eq_sub_mod wraps,Nat.mod_eq_of_lt (by omega)]
    rw [submitFrom,Nat.mod_eq_of_lt fits,ends]
    exact if_pos (Nat.le_trans (Nat.min_le_right _ _) (by omega))

/-- Up to the round `last` no sum can wrap, since the next chunk still begins below
`stop`. -/
theorem submitFrom_before {w start stop size last left i : Nat} (fits : stop < 2 ^ w) (positive : 0 < size)
    (inside : start + last * size < stop) (reached : i ≤ last) :
    ∃ chunks, submitFrom w start stop size (last - i + left) i = chunks ++ submitFrom w start stop size left last ∧
      Span (start + i * size) i chunks (start + last * size) := by
  induction rounds : last - i generalizing i with
  | zero =>
    obtain rfl : i = last := by omega
    exact ⟨[],by simp,.nil _ _⟩
  | succ more ih =>
    obtain ⟨chunks,rest,span⟩ := ih (i := i + 1) (by omega) (by omega)
    have next : (i + 1) * size = i * size + size := Nat.succ_mul i size
    have below : (i + 1) * size ≤ last * size := Nat.mul_le_mul_right size (by omega)
    rw [next] at span below
    rw [show more + 1 + left = more + left + 1 by omega,submitFrom_round (by omega),if_neg (by omega),rest]
    refine ⟨_,rfl,.cons rfl rfl (by simp only; omega) ?_⟩
    rw [show min stop (start + i * size + size) = start + (i * size + size) by omega]
    exact span

/-- The loop covers its range where the last chunk, cut short or not, would end
below `2 ^ w`; otherwise it submits all chunks but the last. -/
theorem submitFrom_covers {w start stop size last left : Nat} (fits : stop < 2 ^ w) (positive : 0 < size) (small : size < 2 ^ w)
    (inside : start + last * size < stop) (ends : stop ≤ start + last * size + size) :
    (submitFrom w start stop size (last + (left + 1)) 0).flatMap indices =
      List.range' start (if start + last * size + size < 2 ^ w then stop - start else last * size) := by
  obtain ⟨chunks,whole,span⟩ := @submitFrom_before w start stop size last (left + 1) 0 fits positive inside (Nat.zero_le last)
  rw [Nat.sub_zero] at whole
  rw [Nat.zero_mul,Nat.add_zero] at span
  rw [whole,List.flatMap_append,span_indices span]
  have cut : start + last * size - start = last * size := by omega
  split
  next room =>
    have next : (last + 1) * size = last * size + size := Nat.succ_mul last size
    rw [submitFrom_round room,if_neg (by omega),submitFrom_past (by omega) (by omega)]
    have rest : min stop (start + last * size + size) - (start + last * size) = stop - start - last * size := by omega
    have shift : start + last * size = start + 1 * (last * size) := by omega
    simp only [List.flatMap_cons,List.flatMap_nil,List.append_nil,indices,rest,cut]
    rw [shift,List.range'_append,show last * size + (stop - start - last * size) = stop - start by omega]
  next wraps =>
    rw [submitFrom_wraps (by omega) small (Nat.le_of_not_lt wraps),cut]
    simp

/-- Which rounds are begun, and what their sums come to at most. -/
theorem rounds_iff {w start stop size last left i : Nat} (fits : stop < 2 ^ w)
    (inside : start + last * size < stop) (ends : stop ≤ start + last * size + size) (reached : i ≤ last + 1)
    (enough : last < i + left) :
    Rounds w start stop size left i ↔ left = 0 ∨ start + min (i + left) (last + 2) * size < 2 ^ w := by
  induction left generalizing i with
  | zero => exact iff_of_true trivial (Or.inl rfl)
  | succ left ih =>
    have next : (i + 1) * size = i * size + size := Nat.succ_mul i size
    rcases Nat.lt_or_ge last i with past | before
    · obtain rfl : i = last + 1 := by omega
      have same : (last + 1) * size = last * size + size := Nat.succ_mul last size
      rw [show min (last + 1 + (left + 1)) (last + 2) = last + 1 + 1 by omega,next]
      constructor
      · intro rounds
        exact Or.inr (by have room := rounds.2.2.1; omega)
      · intro given
        have room := given.resolve_left (Nat.succ_ne_zero left)
        refine ⟨by omega,by omega,by omega,fun more => ?_⟩
        rw [Nat.mod_eq_of_lt (by omega)] at more
        omega
    · have below : i * size ≤ last * size := Nat.mul_le_mul_right size before
      have sum : i + 1 + left = i + (left + 1) := by omega
      have known := ih (i := i + 1) (by omega) (by omega)
      rw [sum] at known
      have most : (i + 1) * size ≤ min (i + (left + 1)) (last + 2) * size := Nat.mul_le_mul_right size (by omega)
      rw [next] at most
      constructor
      · intro rounds
        obtain ⟨_,_,room,more⟩ := rounds
        have again : Rounds w start stop size left (i + 1) := by
          apply more
          rw [Nat.mod_eq_of_lt (by omega),Nat.mod_eq_of_lt room]
          omega
        rcases known.mp again with rfl | fine
        · obtain rfl : i = last := by omega
          rw [show min (i + (0 + 1)) (i + 2) = i + 1 by omega,next]
          exact Or.inr (by omega)
        · exact Or.inr fine
      · intro given
        have room := given.resolve_left (Nat.succ_ne_zero left)
        exact ⟨by omega,by omega,by omega,fun _ => known.mpr (Or.inr room)⟩

/-- The inputs' own arithmetic: how many chunks there are, and which is the last. -/
theorem chunks_last {count threads : Nat} (positive : 0 < count) (several : 0 < threads) :
    ∃ last, count ⌈/⌉ (count ⌈/⌉ threads) = last + 1 ∧ last * (count ⌈/⌉ threads) < count ∧
      count ≤ last * (count ⌈/⌉ threads) + count ⌈/⌉ threads ∧ last < threads ∧ 0 < count ⌈/⌉ threads := by
  have size : 0 < count ⌈/⌉ threads := by
    apply Nat.pos_of_ne_zero
    intro none
    have bound := (ceilDiv_le_iff_le_mul several).mp (Nat.le_of_eq none)
    omega
  have covers : count ≤ count ⌈/⌉ threads * threads := by
    rw [Nat.mul_comm]
    exact (ceilDiv_le_iff_le_mul several).mp (Nat.le_refl _)
  have few : count ⌈/⌉ (count ⌈/⌉ threads) ≤ threads := (ceilDiv_le_iff_le_mul size).mpr covers
  have some : count ⌈/⌉ (count ⌈/⌉ threads) ≠ 0 := by
    intro none
    have bound := (ceilDiv_le_iff_le_mul size).mp (Nat.le_of_eq none)
    omega
  obtain ⟨last,shape⟩ := Nat.exists_eq_succ_of_ne_zero some
  have whole := (ceilDiv_le_iff_le_mul size).mp (Nat.le_of_eq shape)
  have less : ¬ count ≤ count ⌈/⌉ threads * last := fun fits => by
    have bound := (ceilDiv_le_iff_le_mul size).mpr fits
    omega
  rw [Nat.mul_succ,Nat.mul_comm] at whole
  rw [Nat.mul_comm] at less
  exact ⟨last,shape,Nat.lt_of_not_le less,whole,by omega,size⟩

/-- Where `count + numThreads - 1` wraps the chunks have no length. -/
theorem chunkSize_cases {w count threads : Nat} (fits : count < 2 ^ w) (positive : 0 < threads) (most : threads ≤ count) :
    Reduce.chunkSize w count threads = if count + threads ≤ 2 ^ w then count ⌈/⌉ threads else 0 := by
  have turned : (count + threads + (2 ^ w - 1)) % 2 ^ w = (count + threads - 1) % 2 ^ w := by
    rw [show count + threads + (2 ^ w - 1) = count + threads - 1 + 2 ^ w by omega,Nat.add_mod_right]
  rw [Reduce.chunkSize,turned]
  split
  next room => rw [Nat.mod_eq_of_lt (by omega),Nat.ceilDiv_eq_add_pred_div]
  next wraps =>
    rw [Nat.mod_eq_sub_mod (by omega),Nat.mod_eq_of_lt (by omega)]
    exact Nat.div_eq_of_lt (by omega)

section ParallelFor
variable {w maxThreads start stop : Nat}

theorem called_single (nonempty : start < stop) (single : min maxThreads (stop - start) ≤ 1) :
    called w maxThreads start stop = List.range' start (stop - start) := by
  simp only [called,parallelFor,parallelLoop,if_neg (Nat.not_le_of_lt nonempty),if_pos single,sequential,List.flatMap_nil,
    List.nil_append]
  rw [loop_call fun _ _ => rfl]

theorem called_chunks (nonempty : start < stop) (several : 1 < min maxThreads (stop - start)) :
    called w maxThreads start stop = (submitFrom w start stop
      (Reduce.chunkSize w (stop - start) (min maxThreads (stop - start))) (min maxThreads (stop - start)) 0).flatMap
        indices := by
  simp only [called,parallelFor,parallelLoop,if_neg (Nat.not_le_of_lt nonempty),if_neg (Nat.not_le_of_lt several),List.append_nil]
  exact congrArg (List.flatMap · _) (funext fun chunk => by rw [loop_call fun _ _ => rfl])

theorem range_shorter {start some whole : Nat} (less : some < whole) : List.range' start some ≠ List.range' start whole := by
  intro same
  have length := congrArg List.length same
  rw [List.length_range',List.length_range'] at length
  omega

/-- `ParallelFor` covers its range if and only if all chunks, the last one rounded
up, end below `2 ^ w`. -/
theorem covers_iff (nonempty : start < stop) (fits : stop < 2 ^ w) (several : 1 < min maxThreads (stop - start)) :
    Covers w maxThreads start stop ↔
      let count := stop - start
      let numThreads := min maxThreads count
      count + numThreads ≤ 2 ^ w ∧ start + count ⌈/⌉ (count ⌈/⌉ numThreads) * (count ⌈/⌉ numThreads) < 2 ^ w := by
  have most : min maxThreads (stop - start) ≤ stop - start := Nat.min_le_right _ _
  have size := chunkSize_cases (w := w) (by omega) (Nat.lt_trans Nat.zero_lt_one several) most
  obtain ⟨last,chunks,inside,ends,below,positive⟩ :=
    chunks_last (show 0 < stop - start by omega) (Nat.lt_trans Nat.zero_lt_one several)
  simp only [Covers,called_chunks nonempty several,size,chunks]
  have small : (stop - start) ⌈/⌉ min maxThreads (stop - start) ≤ stop - start :=
    (ceilDiv_le_iff_le_mul (by omega)).mpr (Nat.le_mul_of_pos_left _ (by omega))
  generalize (stop - start) ⌈/⌉ min maxThreads (stop - start) = chunkSize at *
  obtain ⟨left,rounds⟩ : ∃ left, min maxThreads (stop - start) = last + (left + 1) :=
    ⟨min maxThreads (stop - start) - last - 1,by omega⟩
  rw [rounds] at most ⊢
  split
  next room =>
    have next : (last + 1) * chunkSize = last * chunkSize + chunkSize := Nat.succ_mul last chunkSize
    rw [submitFrom_covers fits positive (by omega) (by omega) (by omega),next]
    split
    next short => exact iff_of_true rfl ⟨room,by omega⟩
    next long => exact iff_of_false (range_shorter inside) fun given => long (by omega)
  next wraps =>
    rw [Nat.add_succ last left,submitFrom_round (by omega),if_pos (by omega)]
    exact iff_of_false (range_shorter (show 0 < stop - start by omega)) fun given => wraps given.1

/-- No chunk computation wraps, and the range is covered, if and only if there is
room for the chunks and for the round that finds the end. -/
theorem unwrapped_iff (nonempty : start < stop) (fits : stop < 2 ^ w) (several : 2 ≤ maxThreads) :
    Unwrapped w maxThreads start stop ∧ Covers w maxThreads start stop ↔ Roomy w maxThreads start stop := by
  rcases Nat.lt_or_ge 1 (min maxThreads (stop - start)) with many | single
  · have most : min maxThreads (stop - start) ≤ stop - start := Nat.min_le_right _ _
    have size := chunkSize_cases (w := w) (by omega) (Nat.lt_trans Nat.zero_lt_one many) most
    obtain ⟨last,chunks,inside,ends,below,positive⟩ :=
      chunks_last (show 0 < stop - start by omega) (Nat.lt_trans Nat.zero_lt_one many)
    rw [covers_iff nonempty fits many]
    simp only [Unwrapped,Roomy,many,true_imp_iff,size,chunks]
    generalize (stop - start) ⌈/⌉ min maxThreads (stop - start) = chunkSize at *
    generalize min maxThreads (stop - start) = numThreads at *
    have rounds := @rounds_iff w start stop chunkSize last numThreads 0 fits (by omega) (by omega)
      (Nat.zero_le _) (by omega)
    rw [Nat.zero_add] at rounds
    have all : (last + 1) * chunkSize ≤ min numThreads (last + 1 + 1) * chunkSize := Nat.mul_le_mul_right chunkSize (by omega)
    constructor
    · intro given
      obtain ⟨⟨_,unwrapped⟩,room,_⟩ := given
      rw [if_pos room] at unwrapped
      exact ⟨room,(rounds.mp unwrapped).resolve_left (by omega)⟩
    · intro given
      obtain ⟨room,fine⟩ := given
      rw [if_pos room]
      exact ⟨⟨by omega,rounds.mpr (Or.inr fine)⟩,room,by omega⟩
  · have one : stop - start = 1 := by omega
    have covers : Covers w maxThreads start stop := called_single nonempty single
    have unwrapped : Unwrapped w maxThreads start stop := fun many => absurd many (Nat.not_lt_of_le single)
    refine iff_of_true ⟨unwrapped,covers⟩ ?_
    simp only [Roomy,one,show min maxThreads 1 = 1 by omega,show (1 ⌈/⌉ 1 : Nat) = 1 from rfl]
    omega

theorem unwrapped_iff_small : Unwrapped 64 4 3 13 ∧ Covers 64 4 3 13 :=
  (unwrapped_iff (by decide) (by decide) (by decide)).mpr (by decide)

/-- Two threads at the top of the range: the end of the second chunk of three wraps
to 0, and the last two numbers are left out. -/
theorem chunk_end_wraps :
    called 64 2 (2 ^ 64 - 6) (2 ^ 64 - 1) = [2 ^ 64 - 6,2 ^ 64 - 5,2 ^ 64 - 4] ∧
      ¬ Unwrapped 64 2 (2 ^ 64 - 6) (2 ^ 64 - 1) ∧ ¬ Covers 64 2 (2 ^ 64 - 6) (2 ^ 64 - 1) := by
  decide +kernel

end ParallelFor

end Ezthread.Algorithms
