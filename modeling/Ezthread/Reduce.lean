import Ezthread.Chunks
import Ezthread.Seeded

/-! `parallel::Reduce` of sync.hpp, with the loop that cuts a range into the chunks
it submits to the pool. `size_t` has `w` bits. -/
namespace Ezthread.Reduce
open Chunks Seeded

variable {α : Type*}

def chunkSize (w distance numThreads : Nat) : Nat := (distance + numThreads + (2 ^ w - 1)) % 2 ^ w / numThreads

/-- `for (size_t i=0; i<numThreads; ++i)` with `left` rounds to go. -/
def submitFrom (w distance chunkSize : Nat) : Nat → Nat → List Chunk
  | 0,_ => []
  | left + 1,i =>
      let chunkBegin := i * chunkSize % 2 ^ w
      let chunkEnd := min distance ((chunkBegin + chunkSize) % 2 ^ w)
      if chunkBegin ≥ chunkEnd then [] else ⟨i,chunkBegin,chunkEnd⟩ :: submitFrom w distance chunkSize left (i + 1)

def submitted (w distance numThreads : Nat) : List Chunk :=
  submitFrom w distance (chunkSize w distance numThreads) numThreads 0

/-- No pool, or a pool and the number of hardware threads. -/
def numThreads (pool : Option Nat) (distance : Nat) : Nat :=
  match pool with
  | none => 1
  | some hardware => max 1 (min hardware distance)

def localResult (func : α → α → α) (initial : α) (range : List α) (chunk : Chunk) : α :=
  (slice range chunk).foldl func initial

/-- The tasks write their results in the order given. -/
def partialResults (func : α → α → α) (initial : α) (range : List α) (numThreads : Nat) (order : List Chunk) :
    List α :=
  order.foldl (write (localResult func initial range)) (List.replicate numThreads initial)

def reduce (func : α → α → α) (pool : Option Nat) (initial : α) (range : List α) (order : List Chunk) : α :=
  if range.length = 0 then initial
  else if numThreads pool range.length ≤ 1 then range.foldl func initial
  else (partialResults func initial range (numThreads pool range.length) order).foldl func initial

/-- The pool executes every submitted chunk exactly once. -/
def Executes (w : Nat) (pool : Option Nat) (distance : Nat) (order : List Chunk) : Prop :=
  order.Perm (submitted w distance (numThreads pool distance))

/-- On every range of the length given the initial value enters exactly once. -/
def InitialOnce (w : Nat) (func : α → α → α) (e : α) (pool : Option Nat) (distance : Nat) (a : α) : Prop :=
  ∀ (range : List α) (order other : List Chunk), range.length = distance →
    Executes w pool distance order → Executes w pool distance other →
      reduce func pool a range order = func a (reduce func pool e range other)

theorem submitFrom_cons {w distance size left i : Nat} (fits : distance + 2 * size < 2 ^ w)
    (reached : i * size < distance + size) :
    submitFrom w distance size (left + 1) i =
      if i * size ≥ min distance (i * size + size) then []
      else ⟨i,i * size,min distance (i * size + size)⟩ :: submitFrom w distance size left (i + 1) := by
  have start : i * size % 2 ^ w = i * size := Nat.mod_eq_of_lt (by omega)
  have stop : (i * size + size) % 2 ^ w = i * size + size := Nat.mod_eq_of_lt (by omega)
  simp only [submitFrom,start,stop]

/-- The loop submits consecutive chunks that end with the range. -/
theorem submitFrom_span {w distance size left i : Nat} (fits : distance + 2 * size < 2 ^ w) (positive : 0 < size)
    (reached : i * size < distance + size) (enough : distance ≤ (i + left) * size) :
    Span (min distance (i * size)) i (submitFrom w distance size left i) distance := by
  induction left generalizing i with
  | zero =>
    rw [Nat.min_eq_left (by simpa using enough)]
    exact .nil distance i
  | succ left ih =>
    rw [submitFrom_cons fits reached]
    split
    next beyond =>
      rw [Nat.min_eq_left (by omega)]
      exact .nil distance i
    next inside =>
      have next : (i + 1) * size = i * size + size := Nat.succ_mul i size
      refine .cons (by simp only; omega) rfl (by simp only; omega) ?_
      have rest := ih (i := i + 1) (by omega) (by rw [show i + 1 + left = i + (left + 1) by omega]; exact enough)
      rwa [next] at rest

theorem submitFrom_length (w distance size left i : Nat) : (submitFrom w distance size left i).length ≤ left := by
  induction left generalizing i with
  | zero => exact Nat.le_refl 0
  | succ left ih =>
    simp only [submitFrom]
    split
    · exact Nat.zero_le _
    · exact Nat.succ_le_succ (ih (i + 1))

/-- Whatever wraps, the chunks are numbered from the first on. -/
theorem submitFrom_index (w distance chunkSize left i : Nat) :
    (submitFrom w distance chunkSize left i).map Chunk.index =
      List.range' i (submitFrom w distance chunkSize left i).length := by
  induction left generalizing i with
  | zero => rfl
  | succ left ih =>
    simp only [submitFrom]
    split
    · rfl
    · rw [List.map_cons,List.length_cons,List.range'_succ,ih]

theorem numThreads_le {pool : Option Nat} {distance : Nat} (several : ¬ numThreads pool distance ≤ 1) :
    numThreads pool distance ≤ distance := by
  cases pool with
  | none => exact absurd (Nat.le_refl 1) several
  | some hardware =>
    simp only [numThreads] at several ⊢
    omega

theorem chunkSize_eq {w distance threads : Nat} (several : 1 < threads) (most : threads ≤ distance)
    (fits : distance < 2 ^ (w - 1)) (wide : 0 < w) :
    chunkSize w distance threads = (distance + threads - 1) / threads := by
  have double := Nat.two_pow_pred_mul_two wide
  unfold chunkSize
  rw [show distance + threads + (2 ^ w - 1) = distance + threads - 1 + 2 ^ w by omega,Nat.add_mod_right,
    Nat.mod_eq_of_lt (by omega)]

theorem submitted_span {w distance threads : Nat} (several : 1 < threads) (most : threads ≤ distance)
    (fits : distance < 2 ^ (w - 1)) (wide : 0 < w) :
    Span 0 0 (submitted w distance threads) distance := by
  have double := Nat.two_pow_pred_mul_two wide
  have size := chunkSize_eq several most fits wide
  have positive : 0 < chunkSize w distance threads := by
    rw [size]
    exact Nat.div_pos (by omega) (by omega)
  have covers : distance ≤ threads * chunkSize w distance threads := by
    rw [size]
    have divided := Nat.div_add_mod (distance + threads - 1) threads
    have left := Nat.mod_lt (distance + threads - 1) (show threads > 0 by omega)
    omega
  have half : 2 * chunkSize w distance threads ≤ distance + 1 := by
    obtain ⟨less,shape⟩ : ∃ less, chunkSize w distance threads = less + 1 :=
      ⟨chunkSize w distance threads - 1,by omega⟩
    have bound : (less + 1) * threads ≤ distance + threads - 1 := by
      rw [← shape,size]
      exact Nat.div_mul_le_self _ _
    have twice : less * 2 ≤ less * threads := Nat.mul_le_mul_left less several
    rw [Nat.succ_mul] at bound
    omega
  have span : Span (min distance (0 * chunkSize w distance threads)) 0 (submitted w distance threads) distance :=
    submitFrom_span (by omega) positive (by omega) (by simpa using covers)
  rwa [Nat.zero_mul,Nat.min_zero] at span

theorem wide_of_fits {w n : Nat} (fits : n < 2 ^ (w - 1)) (positive : 0 < n) : 0 < w := by
  apply Nat.pos_of_ne_zero
  intro same
  subst same
  simp at fits
  omega

theorem submitted_length (w distance threads : Nat) : (submitted w distance threads).length ≤ threads :=
  submitFrom_length w distance _ threads 0

/-- Slots that each task writes once, from the seed on. -/
theorem submitted_writes {β : Type*} {w distance threads : Nat} {order : List Chunk} (value : Chunk → β) (seed : β)
    (span : Span 0 0 (submitted w distance threads) distance) (executes : order.Perm (submitted w distance threads)) :
    order.foldl (write value) (List.replicate threads seed) =
      (submitted w distance threads).map value ++
        List.replicate (threads - (submitted w distance threads).length) seed := by
  rw [write_any_order span executes]
  exact span.writes value [] seed threads rfl (submitted_length w _ threads)

theorem partialResults_eq {w threads : Nat} {range : List α} {order : List Chunk} (func : α → α → α) (initial : α)
    (span : Span 0 0 (submitted w range.length threads) range.length)
    (executes : order.Perm (submitted w range.length threads)) :
    partialResults func initial range threads order =
      (submitted w range.length threads).map (localResult func initial range) ++
        List.replicate (threads - (submitted w range.length threads).length) initial :=
  submitted_writes (localResult func initial range) initial span executes

section Monoid
variable [Monoid α]

theorem localResult_eq (initial : α) (range : List α) (chunk : Chunk) :
    localResult (· * ·) initial range chunk = initial * (slice range chunk).prod :=
  foldl_mul initial (slice range chunk)

/-- The pool path: every chunk and every unused slot is seeded. -/
theorem reduce_eq {w : Nat} {pool : Option Nat} {range : List α} {order : List Chunk} (a : α)
    (several : ¬ numThreads pool range.length ≤ 1)
    (span : Span 0 0 (submitted w range.length (numThreads pool range.length)) range.length)
    (executes : Executes w pool range.length order) :
    reduce (· * ·) pool a range order =
      a * (((submitted w range.length (numThreads pool range.length)).map (slice range)).map
          fun part => a * part.prod).prod *
        a ^ (numThreads pool range.length - (submitted w range.length (numThreads pool range.length)).length) := by
  have occupied : range.length ≠ 0 := by
    have most := numThreads_le several
    omega
  have task : localResult (· * ·) a range = (fun part => a * part.prod) ∘ slice range :=
    funext (localResult_eq a range)
  rw [reduce,if_neg occupied,if_neg several,partialResults_eq (· * ·) a span executes,foldl_mul,List.prod_append,
    List.prod_replicate,mul_assoc,task,List.map_map]

theorem reduce_one {w : Nat} {pool : Option Nat} {range : List α} {order : List Chunk}
    (several : ¬ numThreads pool range.length ≤ 1)
    (span : Span 0 0 (submitted w range.length (numThreads pool range.length)) range.length)
    (executes : Executes w pool range.length order) : reduce (· * ·) pool 1 range order = range.prod := by
  have whole := congrArg List.prod (span.slices range)
  rw [List.prod_flatten] at whole
  rw [reduce_eq 1 several span executes]
  simpa using whole

theorem gathers_initialOnce {w distance : Nat} {pool : Option Nat} {a : α} (several : ¬ numThreads pool distance ≤ 1)
    (span : Span 0 0 (submitted w distance (numThreads pool distance)) distance) (gathers : Gathers a)
    (cycle : a ^ (numThreads pool distance + 1) = a) : InitialOnce w (· * ·) 1 pool distance a := by
  rintro range order other rfl executes same
  rw [reduce_eq a several span executes,reduce_one several span same]
  have whole := congrArg List.prod (span.slices range)
  rw [List.prod_flatten,Nat.sub_zero,List.drop_zero,List.take_length] at whole
  have few := submitted_length w range.length (numThreads pool range.length)
  generalize submitted w range.length (numThreads pool range.length) = chunks at whole few ⊢
  generalize numThreads pool range.length = threads at few cycle ⊢
  have seeds := gathers.prod ((chunks.map (slice range)).map List.prod)
  rw [List.map_map,whole,List.length_map,List.length_map] at seeds
  calc a * ((chunks.map (slice range)).map fun part => a * part.prod).prod * a ^ (threads - chunks.length)
      = a ^ chunks.length * (a * range.prod * a ^ (threads - chunks.length)) := by
        rw [← mul_assoc,← mul_assoc,← pow_succ,← seeds]
        rfl
    _ = a ^ (chunks.length + (threads - chunks.length) + 1) * range.prod := by
        rw [gathers.pow,← mul_assoc,← pow_add,Nat.add_assoc]
    _ = a * range.prod := by rw [Nat.add_sub_cancel' few,cycle]

theorem slice_single (x : α) (m : Nat) (chunk : Chunk) (later : 0 < chunk.chunkBegin) :
    (slice (x :: List.replicate m 1) chunk).prod = 1 := by
  obtain ⟨start,shape⟩ : ∃ start, chunk.chunkBegin = start + 1 := ⟨chunk.chunkBegin - 1,by omega⟩
  simp [slice,shape]

theorem initialOnce_single {w distance : Nat} {pool : Option Nat} {a : α} (positive : 0 < distance)
    (several : ¬ numThreads pool distance ≤ 1)
    (span : Span 0 0 (submitted w distance (numThreads pool distance)) distance)
    (once : InitialOnce w (· * ·) 1 pool distance a) (x : α) :
    a * (a * x) * a ^ (numThreads pool distance - 1) = a * x := by
  obtain ⟨m,rfl⟩ : ∃ m, distance = m + 1 := ⟨distance - 1,by omega⟩
  have length : (x :: List.replicate m 1).length = m + 1 := by simp
  have law := once (x :: List.replicate m 1) _ _ length (List.Perm.refl _) (List.Perm.refl _)
  have few := submitted_length w (m + 1) (numThreads pool (m + 1))
  rw [← length] at span few several law
  rw [reduce_eq a several span (List.Perm.refl _),reduce_one several span (List.Perm.refl _)] at law
  rw [length] at law span few
  generalize submitted w (m + 1) (numThreads pool (m + 1)) = chunks at span few law
  cases span with
  | @cons _ _ chunk rest _ begins numbered nonempty tail =>
    obtain ⟨stop,shape⟩ : ∃ stop, chunk.chunkEnd = stop + 1 := ⟨chunk.chunkEnd - 1,by omega⟩
    have first : (slice (x :: List.replicate m 1) chunk).prod = x := by simp [slice,begins,shape]
    have others : (rest.map (slice (x :: List.replicate m 1))).map (fun part => a * part.prod) =
        List.replicate rest.length a := by
      rw [List.map_map]
      refine List.eq_replicate_iff.mpr ⟨by simp,fun y member => ?_⟩
      obtain ⟨other,inside,rfl⟩ := List.mem_map.mp member
      have bound := (tail.index other inside).2
      simp [slice_single x m other (by omega)]
    simp only [List.map_cons,List.prod_cons,first,others,List.prod_replicate,List.length_cons,one_pow,mul_one] at law few
    rw [show numThreads pool (m + 1) - 1 = rest.length + (numThreads pool (m + 1) - (rest.length + 1)) by omega,
      pow_add]
    simpa only [mul_assoc] using law

/-- With two threads or more the initial value enters once exactly where its
copies gather and those of one round, the final one included, count as one. -/
theorem initialOnce_iff {w distance : Nat} {pool : Option Nat} (a : α) (positive : 0 < distance)
    (fits : distance < 2 ^ (w - 1)) :
    InitialOnce w (· * ·) 1 pool distance a ↔
      numThreads pool distance ≤ 1 ∨
        ((∀ x, a * x * a = a * a * x) ∧ a ^ (numThreads pool distance + 1) = a) := by
  by_cases single : numThreads pool distance ≤ 1
  · refine ⟨fun _ => Or.inl single,fun _ => ?_⟩
    rintro range order other rfl _ _
    simp [reduce,single,foldl_mul,Nat.pos_iff_ne_zero.mp positive]
  · have span := submitted_span (Nat.lt_of_not_le single) (numThreads_le single) fits (wide_of_fits fits positive)
    constructor
    · intro once
      obtain ⟨less,shape⟩ : ∃ less, numThreads pool distance = less + 2 := ⟨numThreads pool distance - 2,by omega⟩
      have law := initialOnce_single positive single span once
      rw [shape] at law ⊢
      exact Or.inr (gathers_of_single law)
    · intro either
      rcases either with few | ⟨gathers,cycle⟩
      · exact absurd few single
      · exact gathers_initialOnce single span gathers cycle

/-- Zero is such a value for the product. -/
theorem initialOnce_iff_zero : InitialOnce 64 (· * ·) 1 (some 2) 2 (0 : Nat) :=
  (initialOnce_iff 0 (by decide) (by decide)).mpr (Or.inr ⟨by simp,by simp [numThreads]⟩)

end Monoid

/-- Ten is not for the sum: it enters the sum of `[1,2]` three times. -/
theorem enters_three_times :
    reduce (· + ·) (some 2) 10 [1,2] (submitted 64 2 2) = 33 ∧
      10 + reduce (· + ·) (some 2) 0 [1,2] (submitted 64 2 2) = 13 ∧
      ¬ InitialOnce 64 (· + ·) 0 (some 2) 2 10 := by
  refine ⟨by decide,by decide,fun once => ?_⟩
  have law := once [1,2] (submitted 64 2 2) (submitted 64 2 2) rfl (List.Perm.refl _) (List.Perm.refl _)
  exact absurd law (by decide)

theorem reduce_alone (func : α → α → α) (initial : α) (range : List α) (order : List Chunk) :
    reduce func none initial range order = range.foldl func initial := by
  cases range <;> rfl

/-- The monoid an associative function with an identity makes. -/
@[reducible] def monoidOf (func : α → α → α) (initial : α) (assoc : ∀ a b c, func (func a b) c = func a (func b c))
    (left : ∀ a, func initial a = a) (right : ∀ a, func a initial = a) : Monoid α where
  mul := func
  one := initial
  mul_assoc := assoc
  one_mul := left
  mul_one := right

/-- Whatever the number of threads and the order in which the tasks are executed,
each element is combined once and in range order, as on the path without a pool. -/
theorem reduce_sequential {w : Nat} {func : α → α → α} {pool : Option Nat} {initial : α} {range : List α}
    {order : List Chunk} (assoc : ∀ a b c, func (func a b) c = func a (func b c)) (left : ∀ a, func initial a = a)
    (right : ∀ a, func a initial = a) (fits : range.length < 2 ^ (w - 1))
    (executes : 1 < numThreads pool range.length → Executes w pool range.length order) :
    reduce func pool initial range order = range.foldl func initial ∧
      reduce func none initial range [] = range.foldl func initial := by
  let monoid : Monoid α := monoidOf func initial assoc left right
  refine ⟨?_,reduce_alone func initial range []⟩
  by_cases single : numThreads pool range.length ≤ 1
  · cases range with
    | nil => rfl
    | cons first rest =>
      rw [reduce,if_neg (by simp),if_pos single]
  · have several := Nat.lt_of_not_le single
    have span := submitted_span several (numThreads_le single) fits (wide_of_fits fits (Nat.le_trans (Nat.le_of_lt several) (numThreads_le single)))
    calc reduce func pool initial range order = range.prod := reduce_one single span (executes several)
      _ = initial * range.prod := (left range.prod).symm
      _ = range.foldl func initial := (foldl_mul initial range).symm

/-- Joining lists is associative and not commutative. -/
theorem reduce_sequential_lists :
    reduce (· ++ ·) (some 2) [] [[3],[1],[2]] (submitted 64 3 2).reverse = [3,1,2] ∧
      reduce (· ++ ·) none [] [[3],[1],[2]] [] = [3,1,2] :=
  reduce_sequential (w := 64) List.append_assoc (fun _ => rfl) List.append_nil (by decide)
    (fun _ => List.reverse_perm _)

end Ezthread.Reduce
