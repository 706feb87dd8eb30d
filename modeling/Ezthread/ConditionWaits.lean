import Ezthread.Mutex
import Mathlib.Data.Nat.Find

/-! The two timed waits of condition.cpp, on a `CriticalSection` and on an `RWLock`,
against the clock. Taking the lock back comes after the sleep and changes neither what
ended it nor when, so the lock plays no part here. -/
namespace Ezthread.ConditionVariable
open Mutex (DWORD ThreadException INFINITE)

/-- The first of a sequence of answers, as far as it has come by now. -/
def earliest {α : Type*} (answer : Nat → Option α) : Nat → Option α
  | 0 => none
  | tick + 1 => (earliest answer tick).or (answer tick)

theorem earliest_none {α : Type*} {answer : Nat → Option α} {now : Nat} (silent : ∀ tick < now, answer tick = none) :
    earliest answer now = none := by
  induction now with
  | zero => rfl
  | succ now ih =>
    rw [earliest,ih fun tick before => silent tick (Nat.lt_succ_of_lt before),silent now (Nat.lt_succ_self now)]
    rfl

theorem earliest_some {α : Type*} {answer : Nat → Option α} {tick : Nat} {value : α} (answered : answer tick = some value)
    (silent : ∀ earlier < tick, answer earlier = none) (now : Nat) :
    earliest answer now = if tick < now then some value else none := by
  induction now with
  | zero => rfl
  | succ now ih =>
    rw [earliest,ih]
    rcases Nat.lt_trichotomy tick now with past | rfl | ahead
    · simp [past,Nat.lt_succ_of_lt past]
    · simp [answered]
    · simp [Nat.not_lt_of_lt ahead,Nat.not_lt.mpr (Nat.succ_le_of_lt ahead),silent now ahead]

variable {Thread : Type*} [DecidableEq Thread]

def ERROR_TIMEOUT : DWORD := 1460
def RTL_CONDITION_VARIABLE_LOCKMODE_EXCLUSIVE : DWORD := 0x0
def RTL_CONDITION_VARIABLE_LOCKMODE_SHARED : DWORD := 0x1

/-- `NotifyOne` wakes the sleeper the kernel picks, if there is one. -/
inductive Wakeup (Thread : Type*)
  | notifyOne (woken : Option Thread)
  | notifyAll
  | spurious (woken : Thread)

def Wakeup.reaches (waiter : Thread) : Wakeup Thread → Bool
  | .notifyOne woken => woken = some waiter
  | .notifyAll => true
  | .spurious woken => woken = waiter

/-- The wakeups of each millisecond from the start of a sleep on. -/
abbrev Schedule (Thread : Type*) := Nat → List (Wakeup Thread)

def Schedule.wakes (schedule : Schedule Thread) (waiter : Thread) (tick : Nat) : Bool :=
  (schedule tick).any (Wakeup.reaches waiter)

/-- The end of a sleep: a failed call comes with what `GetLastError` then returns. -/
structure Ended where
  tick : Nat
  result : Except DWORD Unit

def elapsed (dwMilliseconds : DWORD) (tick : Nat) : Bool :=
  dwMilliseconds ≠ INFINITE ∧ dwMilliseconds.toNat ≤ tick

def endsAt (waiter : Thread) (dwMilliseconds : DWORD) (schedule : Schedule Thread) (tick : Nat) : Option Ended :=
  if elapsed dwMilliseconds tick then some ⟨tick,.error ERROR_TIMEOUT⟩
  else if schedule.wakes waiter tick then some ⟨tick,.ok ()⟩ else none

/-- Whether a sleep has ended when so many milliseconds are over, and how. -/
def sleep (waiter : Thread) (dwMilliseconds : DWORD) (schedule : Schedule Thread) : Nat → Option Ended :=
  earliest (endsAt waiter dwMilliseconds schedule)

def sleepConditionVariableCS (waiter : Thread) (dwMilliseconds : DWORD) : Schedule Thread → Nat → Option Ended :=
  sleep waiter dwMilliseconds

def sleepConditionVariableSRW (waiter : Thread) (dwMilliseconds _flags : DWORD) : Schedule Thread → Nat → Option Ended :=
  sleep waiter dwMilliseconds

structure Return where
  tick : Nat
  result : Except ThreadException Bool

/-- What both overloads make of the end of their sleep, each with its own text. -/
def report (failed : String) (ended : Ended) : Return :=
  ⟨ended.tick,match ended.result with
    | .ok () => .ok true
    | .error error => if error = ERROR_TIMEOUT then .ok false else .error ⟨failed,error⟩⟩

def waitForCriticalSection (waiter : Thread) (timeoutMs : DWORD) (schedule : Schedule Thread) (now : Nat) : Option Return :=
  (sleepConditionVariableCS waiter timeoutMs schedule now).map (report "SleepConditionVariableCS failed")

/-- The timeout does not reach the kernel: the call passes `INFINITE`. -/
def waitForRWLock (waiter : Thread) (exclusive : Bool) (_timeoutMs : DWORD) (schedule : Schedule Thread) (now : Nat) :
    Option Return :=
  (sleepConditionVariableSRW waiter INFINITE
    (if exclusive then RTL_CONDITION_VARIABLE_LOCKMODE_EXCLUSIVE else RTL_CONDITION_VARIABLE_LOCKMODE_SHARED)
    schedule now).map (report "SleepConditionVariableSRW failed")

/-- The contract: true at the first wakeup that comes before the timeout has elapsed,
false at the timeout where none does, and no answer before. -/
structure Timely (waiter : Thread) (timeoutMs : DWORD) (schedule : Schedule Thread) (waitFor : Nat → Option Return) :
    Prop where
  woken : ∀ tick, elapsed timeoutMs tick = false → schedule.wakes waiter tick = true →
    (∀ earlier < tick, schedule.wakes waiter earlier = false) →
    ∀ now, waitFor now = if tick < now then some ⟨tick,.ok true⟩ else none
  unwoken : (∀ tick, elapsed timeoutMs tick = false → schedule.wakes waiter tick = false) →
    ∀ now, waitFor now = if timeoutMs ≠ INFINITE ∧ timeoutMs.toNat < now then some ⟨timeoutMs.toNat,.ok false⟩ else none

variable {waiter : Thread} {timeoutMs : DWORD} {schedule : Schedule Thread}

theorem elapsed_iff (timeoutMs : DWORD) (tick : Nat) :
    elapsed timeoutMs tick = true ↔ timeoutMs ≠ INFINITE ∧ timeoutMs.toNat ≤ tick := decide_eq_true_iff

theorem elapsed_infinite (tick : Nat) : elapsed INFINITE tick = false := by simp [elapsed]

theorem elapsed_earlier {tick earlier : Nat} (running : elapsed timeoutMs tick = false) (before : earlier ≤ tick) :
    elapsed timeoutMs earlier = false := by
  by_contra ended
  obtain ⟨finite,past⟩ := (elapsed_iff timeoutMs earlier).mp (by simpa using ended)
  have late := (elapsed_iff timeoutMs tick).mpr ⟨finite,Nat.le_trans past before⟩
  exact Bool.false_ne_true (running.symm.trans late)

theorem endsAt_none {tick : Nat} (running : elapsed timeoutMs tick = false) (quiet : schedule.wakes waiter tick = false) :
    endsAt waiter timeoutMs schedule tick = none := by simp [endsAt,running,quiet]

/-- The kernel's sleep keeps the contract of the timeout it is given, under either text. -/
theorem sleep_timely (failed : String) (waiter : Thread) (timeoutMs : DWORD) (schedule : Schedule Thread) :
    Timely waiter timeoutMs schedule fun now => (sleep waiter timeoutMs schedule now).map (report failed) where
  woken tick running woken quiet now := by
    have ended : endsAt waiter timeoutMs schedule tick = some ⟨tick,.ok ()⟩ := by simp [endsAt,running,woken]
    have silent : ∀ earlier < tick, endsAt waiter timeoutMs schedule earlier = none := fun earlier before =>
      endsAt_none (elapsed_earlier running before.le) (quiet earlier before)
    simp only [sleep,earliest_some ended silent]
    split <;> rfl
  unwoken quiet now := by
    by_cases infinite : timeoutMs = INFINITE
    · subst infinite
      have silent : ∀ tick < now, endsAt waiter INFINITE schedule tick = none := fun tick _ =>
        endsAt_none (elapsed_infinite tick) (quiet tick (elapsed_infinite tick))
      simp [sleep,earliest_none silent]
    · have ended : endsAt waiter timeoutMs schedule timeoutMs.toNat = some ⟨timeoutMs.toNat,.error ERROR_TIMEOUT⟩ := by
        simp [endsAt,(elapsed_iff timeoutMs timeoutMs.toNat).mpr ⟨infinite,Nat.le_refl _⟩]
      have silent : ∀ tick < timeoutMs.toNat, endsAt waiter timeoutMs schedule tick = none := by
        intro tick before
        have running : elapsed timeoutMs tick = false := by
          simp [elapsed,before]
        exact endsAt_none running (quiet tick running)
      simp only [sleep,earliest_some ended silent,ne_eq,infinite,not_false_iff,true_and]
      split <;> rfl

theorem first_or_none (waiter : Thread) (timeoutMs : DWORD) (schedule : Schedule Thread) :
    (∃ tick, elapsed timeoutMs tick = false ∧ schedule.wakes waiter tick = true ∧
      ∀ earlier < tick, schedule.wakes waiter earlier = false) ∨
    ∀ tick, elapsed timeoutMs tick = false → schedule.wakes waiter tick = false := by
  by_cases timely : ∃ tick, elapsed timeoutMs tick = false ∧ schedule.wakes waiter tick = true
  · obtain ⟨running,woken⟩ := Nat.find_spec timely
    refine Or.inl ⟨Nat.find timely,running,woken,fun earlier before => ?_⟩
    have other := Nat.find_min timely before
    simpa [elapsed_earlier running before.le] using other
  · refine Or.inr fun tick running => ?_
    simpa [running] using not_exists.mp timely tick

theorem Timely.unique {first second : Nat → Option Return} (left : Timely waiter timeoutMs schedule first)
    (right : Timely waiter timeoutMs schedule second) : first = second := by
  funext now
  rcases first_or_none waiter timeoutMs schedule with ⟨tick,running,woken,quiet⟩ | quiet
  · rw [left.woken tick running woken quiet now,right.woken tick running woken quiet now]
  · rw [left.unwoken quiet now,right.unwoken quiet now]

theorem Timely.never_false {waitFor : Nat → Option Return} (endless : Timely waiter INFINITE schedule waitFor)
    (now tick : Nat) : waitFor now ≠ some ⟨tick,.ok false⟩ := by
  rcases first_or_none waiter INFINITE schedule with ⟨first,running,woken,quiet⟩ | quiet
  · rw [endless.woken first running woken quiet now]
    split <;> simp
  · simp [endless.unwoken quiet now]

theorem waitForCriticalSection_timely (waiter : Thread) (timeoutMs : DWORD) (schedule : Schedule Thread) :
    Timely waiter timeoutMs schedule (waitForCriticalSection waiter timeoutMs schedule) :=
  sleep_timely "SleepConditionVariableCS failed" waiter timeoutMs schedule

theorem waitForRWLock_infinite (waiter : Thread) (exclusive : Bool) (timeoutMs : DWORD) (schedule : Schedule Thread) :
    Timely waiter INFINITE schedule (waitForRWLock waiter exclusive timeoutMs schedule) :=
  sleep_timely "SleepConditionVariableSRW failed" waiter INFINITE schedule

/-- A wait that ignores its timeout keeps the contract of it if and only if there is none
or some wakeup comes before it. -/
theorem Timely.infinite_iff {waitFor : Nat → Option Return} (endless : Timely waiter INFINITE schedule waitFor) :
    Timely waiter timeoutMs schedule waitFor ↔
      timeoutMs = INFINITE ∨ ∃ tick < timeoutMs.toNat, schedule.wakes waiter tick = true := by
  constructor
  · intro timely
    by_contra neither
    obtain ⟨finite,unwoken⟩ := not_or.mp neither
    have quiet : ∀ tick < timeoutMs.toNat, schedule.wakes waiter tick = false := by
      intro tick before
      by_contra woken
      exact unwoken ⟨tick,before,by simpa using woken⟩
    have late := timely.unwoken (fun tick running => quiet tick (by simpa [elapsed,finite] using running)) (timeoutMs.toNat + 1)
    rw [if_pos ⟨finite,Nat.lt_succ_self _⟩] at late
    exact endless.never_false _ _ late
  · intro given
    rcases given with rfl | ⟨tick,before,woken⟩
    · exact endless
    · have running : elapsed timeoutMs tick = false := by simp [elapsed,before]
      refine ⟨fun first _ => endless.woken first (elapsed_infinite first),fun quiet => ?_⟩
      exact absurd (quiet tick running) (by simp [woken])

theorem waitFor_alike_iff (waiter : Thread) (exclusive : Bool) (timeoutMs : DWORD) (schedule : Schedule Thread) :
    (waitForRWLock waiter exclusive timeoutMs schedule = waitForCriticalSection waiter timeoutMs schedule ∧
      Timely waiter timeoutMs schedule (waitForRWLock waiter exclusive timeoutMs schedule)) ↔
    timeoutMs = INFINITE ∨ ∃ tick < timeoutMs.toNat, schedule.wakes waiter tick = true := by
  rw [← (waitForRWLock_infinite waiter exclusive timeoutMs schedule).infinite_iff]
  constructor
  · exact And.right
  · intro timely
    exact ⟨timely.unique (waitForCriticalSection_timely waiter timeoutMs schedule),timely⟩

theorem waitFor_unnotified_differs :
    ¬ (waitForRWLock 0 true 10 (fun _ => []) = waitForCriticalSection 0 10 (fun _ => []) ∧
      Timely 0 10 (fun _ => []) (waitForRWLock 0 true 10 (fun _ => []))) := by
  intro given
  have same := congrFun given.1 11
  have timedOut : waitForCriticalSection 0 10 (fun _ => []) 11 = some ⟨10,.ok false⟩ := rfl
  have asleep : waitForRWLock 0 true 10 (fun _ => []) 11 = none := rfl
  rw [timedOut,asleep] at same
  contradiction

end Ezthread.ConditionVariable
