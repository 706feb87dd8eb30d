import Mathlib.Tactic.Common

/-! `async::WaitAll` on a clock: each future is the tick at which it becomes ready, and
the loop waits for one after another, each time with the whole `timeoutMs`. -/
namespace Ezthread.Async

abbrev DWORD := BitVec 32

def INFINITE : DWORD := 0xFFFFFFFF
def WAIT_TIMEOUT : DWORD := 0x102

structure ThreadException where
  message : String
  errorCode : DWORD
  deriving DecidableEq

/-- `Future<void>::WaitFor` begun at `now`, with the tick at which it returns. -/
def waitFor (timeoutMs : DWORD) (now ready : Nat) : Bool × Nat :=
  if timeoutMs = INFINITE ∨ ready ≤ now + timeoutMs.toNat then (true,max now ready)
  else (false,now + timeoutMs.toNat)

/-- The overload without `completed` for vectors, and the one for iterators. -/
def waitAll (timeoutMs : DWORD) : List Nat → Nat → Except ThreadException Unit × Nat
  | [],now => (.ok (),now)
  | ready :: rest,now =>
      match waitFor timeoutMs now ready with
      | (true,now) => waitAll timeoutMs rest now
      | (false,now) => (.error ⟨"WaitAll timeout",WAIT_TIMEOUT⟩,now)

/-- The two overloads with `completed`: what they leave there, what they return and when. -/
structure Completion where
  completed : List Bool
  allCompleted : Bool
  now : Nat
  deriving DecidableEq

def Completion.wait (timeoutMs : DWORD) (c : Completion) (ready : Nat) : Completion :=
  let (done,now) := waitFor timeoutMs c.now ready
  ⟨c.completed ++ [done],if done then c.allCompleted else false,now⟩

def waitAllCompleted (timeoutMs : DWORD) (futures : List Nat) (now : Nat) : Completion :=
  futures.foldl (Completion.wait timeoutMs) ⟨[],true,now⟩

section Waits
variable {timeoutMs : DWORD} {start now ready : Nat} {futures : List Nat}

def clock (timeoutMs : DWORD) : List Nat → Nat → Nat
  | [],now => now
  | ready :: rest,now => clock timeoutMs rest (waitFor timeoutMs now ready).2

theorem completion_now (futures : List Nat) (c : Completion) :
    (futures.foldl (Completion.wait timeoutMs) c).now = clock timeoutMs futures c.now := by
  induction futures generalizing c with
  | nil => rfl
  | cons ready rest ih => exact ih _

theorem waitFor_grows (timeoutMs : DWORD) (now ready : Nat) : now ≤ (waitFor timeoutMs now ready).2 := by
  unfold waitFor
  split
  · exact Nat.le_max_left ..
  · exact Nat.le_add_right ..

theorem clock_grows (timeoutMs : DWORD) (futures : List Nat) (now : Nat) : now ≤ clock timeoutMs futures now := by
  induction futures generalizing now with
  | nil => exact Nat.le_refl _
  | cons ready rest ih => exact Nat.le_trans (waitFor_grows timeoutMs now ready) (ih _)

theorem waitAll_grows (timeoutMs : DWORD) (futures : List Nat) (now : Nat) : now ≤ (waitAll timeoutMs futures now).2 := by
  induction futures generalizing now with
  | nil => exact Nat.le_refl _
  | cons ready rest ih =>
    have grows := waitFor_grows timeoutMs now ready
    rw [waitAll]
    split
    next later waited =>
      rw [waited] at grows
      exact Nat.le_trans grows (ih later)
    next later waited =>
      rw [waited] at grows
      exact grows

theorem waitFor_ready (within : ready ≤ now + timeoutMs.toNat) : waitFor timeoutMs now ready = (true,max now ready) :=
  if_pos (Or.inr within)

theorem waitFor_late (finite : timeoutMs ≠ INFINITE) (late : now + timeoutMs.toNat < ready) :
    waitFor timeoutMs now ready = (false,now + timeoutMs.toNat) :=
  if_neg (not_or.mpr ⟨finite,Nat.not_le_of_lt late⟩)

/-- Futures that are all ready by the deadline keep the clock below it. -/
theorem waitAll_ready (ready : ∀ future ∈ futures, future ≤ start + timeoutMs.toNat) (begun : start ≤ now)
    (within : now ≤ start + timeoutMs.toNat) : (waitAll timeoutMs futures now).1 = .ok () ∧
      (waitAll timeoutMs futures now).2 ≤ start + timeoutMs.toNat := by
  induction futures generalizing now with
  | nil => exact ⟨rfl,within⟩
  | cons future rest ih =>
    obtain ⟨own,others⟩ := List.forall_mem_cons.mp ready
    rw [waitAll,waitFor_ready (by omega)]
    exact ih others (by omega) (by omega)

theorem clock_ready (ready : ∀ future ∈ futures, future ≤ start + timeoutMs.toNat) (begun : start ≤ now)
    (within : now ≤ start + timeoutMs.toNat) : clock timeoutMs futures now ≤ start + timeoutMs.toNat := by
  induction futures generalizing now with
  | nil => exact within
  | cons future rest ih =>
    obtain ⟨own,others⟩ := List.forall_mem_cons.mp ready
    rw [clock,waitFor_ready (by omega)]
    exact ih others (by simp only; omega) (by simp only; omega)

theorem waitAll_skip {before : List Nat} (ready : ∀ future ∈ before, future ≤ now) (rest : List Nat) :
    waitAll timeoutMs (before ++ rest) now = waitAll timeoutMs rest now := by
  induction before with
  | nil => rfl
  | cons future before ih =>
    obtain ⟨own,others⟩ := List.forall_mem_cons.mp ready
    rw [List.cons_append,waitAll,waitFor_ready (by omega),Nat.max_eq_left own]
    exact ih others

theorem clock_skip {before : List Nat} (ready : ∀ future ∈ before, future ≤ now) (rest : List Nat) :
    clock timeoutMs (before ++ rest) now = clock timeoutMs rest now := by
  induction before with
  | nil => rfl
  | cons future before ih =>
    obtain ⟨own,others⟩ := List.forall_mem_cons.mp ready
    rw [List.cons_append,clock,waitFor_ready (by omega),Nat.max_eq_left own]
    exact ih others

/-- The first future not ready by the deadline comes after futures all ready at the
start, so that no time has gone by when its wait begins. -/
def LateAtOnce (timeoutMs : DWORD) (futures : List Nat) (start : Nat) (others : Nat → Prop) : Prop :=
  ∃ before late after, futures = before ++ late :: after ∧ (∀ future ∈ before, future ≤ start) ∧
    start + timeoutMs.toNat < late ∧ ∀ future ∈ after, others future

def AllReady (timeoutMs : DWORD) (futures : List Nat) (start : Nat) : Prop :=
  ∀ future ∈ futures, future ≤ start + timeoutMs.toNat

theorem waitAll_within (finite : timeoutMs ≠ INFINITE) (begun : start ≤ now)
    (ends : (waitAll timeoutMs futures now).2 ≤ start + timeoutMs.toNat) :
    AllReady timeoutMs futures start ∨ now = start ∧ LateAtOnce timeoutMs futures start fun _ => True := by
  induction futures generalizing now with
  | nil => exact Or.inl nofun
  | cons future rest ih =>
    by_cases within : future ≤ now + timeoutMs.toNat
    · rw [waitAll,waitFor_ready within] at ends
      simp only at ends
      have passed := waitAll_grows timeoutMs rest (max now future)
      rcases ih (by omega) ends with ready | ⟨still,before,late,after,rfl,early,above,_⟩
      · exact Or.inl (List.forall_mem_cons.mpr ⟨by omega,ready⟩)
      · refine Or.inr ⟨by omega,future :: before,late,after,rfl,?_,above,fun _ _ => trivial⟩
        exact List.forall_mem_cons.mpr ⟨by omega,early⟩
    · rw [waitAll,waitFor_late finite (by omega)] at ends
      simp only at ends
      exact Or.inr ⟨by omega,[],future,rest,rfl,nofun,by omega,fun _ _ => trivial⟩

/-- With some time to spend, one late future more and the deadline is passed. -/
theorem clock_spent (finite : timeoutMs ≠ INFINITE) (positive : timeoutMs ≠ 0)
    (ends : clock timeoutMs futures now ≤ now) : ∀ future ∈ futures, future ≤ now := by
  have some : 0 < timeoutMs.toNat := by
    by_contra none
    exact positive (BitVec.eq_of_toNat_eq (by simp; omega))
  induction futures with
  | nil => exact nofun
  | cons future rest ih =>
    have passed := clock_grows timeoutMs rest (waitFor timeoutMs now future).2
    rw [clock] at ends
    by_cases within : future ≤ now + timeoutMs.toNat
    · rw [waitFor_ready within] at ends passed
      simp only at ends passed
      have early : future ≤ now := by omega
      rw [Nat.max_eq_left early] at ends
      exact List.forall_mem_cons.mpr ⟨early,ih ends⟩
    · rw [waitFor_late finite (by omega)] at ends passed
      simp only at ends passed
      omega

theorem clock_within (finite : timeoutMs ≠ INFINITE) (positive : timeoutMs ≠ 0) (begun : start ≤ now)
    (ends : clock timeoutMs futures now ≤ start + timeoutMs.toNat) :
    AllReady timeoutMs futures start ∨
      now = start ∧ LateAtOnce timeoutMs futures start fun future => future ≤ start + timeoutMs.toNat := by
  induction futures generalizing now with
  | nil => exact Or.inl nofun
  | cons future rest ih =>
    have passed := clock_grows timeoutMs rest (waitFor timeoutMs now future).2
    rw [clock] at ends
    by_cases within : future ≤ now + timeoutMs.toNat
    · rw [waitFor_ready within] at ends passed
      simp only at ends passed
      rcases ih (by omega) ends with ready | ⟨still,before,late,after,rfl,early,above,others⟩
      · exact Or.inl (List.forall_mem_cons.mpr ⟨by omega,ready⟩)
      · refine Or.inr ⟨by omega,future :: before,late,after,rfl,?_,above,others⟩
        exact List.forall_mem_cons.mpr ⟨by omega,early⟩
    · rw [waitFor_late finite (by omega)] at ends passed
      simp only at ends passed
      obtain rfl : now = start := by omega
      exact Or.inr ⟨rfl,[],future,rest,rfl,nofun,by omega,clock_spent finite positive ends⟩

theorem clock_zero (futures : List Nat) (now : Nat) : clock 0 futures now = now := by
  induction futures with
  | nil => rfl
  | cons future rest ih =>
    rw [clock]
    by_cases early : future ≤ now
    · rw [waitFor_ready (by simpa using early),Nat.max_eq_left early,ih]
    · rw [waitFor_late (by decide) (by simpa using early)]
      exact ih

theorem waitAll_clock (futures : List Nat) (now : Nat) :
    (waitAll timeoutMs futures now).2 ≤ clock timeoutMs futures now := by
  induction futures generalizing now with
  | nil => exact Nat.le_refl _
  | cons future rest ih =>
    rw [waitAll,clock]
    split
    next later waited => rw [waited]; exact ih later
    next later waited => rw [waited]; exact clock_grows timeoutMs rest later

/-- The overloads without `completed` do what is asked of them: they return if and
only if every future is ready by the deadline, and end by it either way. -/
def ThrowingMeets (timeoutMs : DWORD) (futures : List Nat) (start : Nat) : Prop :=
  ((waitAll timeoutMs futures start).1 = .ok () ↔ AllReady timeoutMs futures start) ∧
    (waitAll timeoutMs futures start).2 ≤ start + timeoutMs.toNat

theorem throwing_iff (finite : timeoutMs ≠ INFINITE) : ThrowingMeets timeoutMs futures start ↔
    AllReady timeoutMs futures start ∨ LateAtOnce timeoutMs futures start fun _ => True := by
  constructor
  · exact fun meets => (waitAll_within finite (Nat.le_refl _) meets.2).imp_right And.right
  · intro given
    rcases given with ready | ⟨before,late,after,rfl,early,above,_⟩
    · obtain ⟨returned,ends⟩ := waitAll_ready ready (Nat.le_refl _) (Nat.le_add_right ..)
      exact ⟨iff_of_true returned ready,ends⟩
    · rw [ThrowingMeets,waitAll_skip early,waitAll,waitFor_late finite above]
      refine ⟨iff_of_false nofun fun ready => ?_,Nat.le_refl _⟩
      exact absurd (ready late (by simp)) (Nat.not_le_of_lt above)

theorem completed_iff (finite : timeoutMs ≠ INFINITE) :
    (waitAllCompleted timeoutMs futures start).now ≤ start + timeoutMs.toNat ↔
      AllReady timeoutMs futures start ∨ timeoutMs = 0 ∨
        LateAtOnce timeoutMs futures start fun future => future ≤ start + timeoutMs.toNat := by
  rw [waitAllCompleted,completion_now]
  constructor
  · intro ends
    by_cases zero : timeoutMs = 0
    · exact Or.inr (Or.inl zero)
    · exact (clock_within finite zero (Nat.le_refl _) ends).imp_right fun late => Or.inr late.2
  · intro given
    rcases given with ready | rfl | ⟨before,late,after,rfl,early,above,others⟩
    · exact clock_ready ready (Nat.le_refl _) (Nat.le_add_right ..)
    · rw [clock_zero]
      exact Nat.le_add_right ..
    · rw [clock_skip early,clock,waitFor_late finite above]
      exact clock_ready others (Nat.le_add_right ..) (Nat.le_refl _)

/-- All the overloads do what is asked of them if and only if every future is ready by
the deadline, or there is no time to spend, or one future alone is late and those
before it are ready at the start. -/
theorem waitAll_iff (finite : timeoutMs ≠ INFINITE) : ThrowingMeets timeoutMs futures start ∧
      (waitAllCompleted timeoutMs futures start).now ≤ start + timeoutMs.toNat ↔
    AllReady timeoutMs futures start ∨ timeoutMs = 0 ∨
      LateAtOnce timeoutMs futures start fun future => future ≤ start + timeoutMs.toNat := by
  rw [← completed_iff finite]
  refine and_iff_right_of_imp fun ends => (throwing_iff finite).mpr ?_
  rw [waitAllCompleted,completion_now] at ends
  have earlier := Nat.le_trans (waitAll_clock futures start) ends
  exact (waitAll_within finite (Nat.le_refl _) earlier).imp_right And.right

end Waits

/-- The second of three futures is late, and the first is ready at the start. -/
theorem waitAll_iff_late : ThrowingMeets 10 [0,30,5] 0 ∧ (waitAllCompleted 10 [0,30,5] 0).now ≤ 0 + (10 : DWORD).toNat :=
  (waitAll_iff (by decide)).mpr (.inr (.inr ⟨[0],30,[5],rfl,by decide,by decide,by decide⟩))

/-- Ready at 10 and at 15, with 10 ms to spend: the second wait has its own 10 ms, so the
call returns, at 15. -/
theorem waitAll_overspends : ¬ (((waitAll 10 [10,15] 0).1 = .ok () ↔ AllReady 10 [10,15] 0) ∧
    (waitAll 10 [10,15] 0).2 ≤ 0 + (10 : DWORD).toNat ∧ (waitAllCompleted 10 [10,15] 0).now ≤ 0 + (10 : DWORD).toNat) := by
  intro meets
  have ends : 15 ≤ 10 := meets.2.1
  exact absurd ends (by decide)

end Ezthread.Async
