import Ezthread.DeadlockDetector

/-! The records of `DeadlockDetector` beside the locks they are about, for locks that
are used correctly: reported by their holder, once for each acquire and release. -/
namespace Ezthread.DeadlockDetector
open Transition

/-- Who holds a lock and how many times over, none for a lock that is free. -/
structure Monitored where
  detector : State
  holder : Address → Option (DWORD × Nat)

inductive LockEvent
  | acquire (thread : DWORD) (lockAddress : Address) (lockName : Option String) (currentTime : Nat)
  | release (thread : DWORD) (lockAddress : Address)

/-- A whole call of `OnLockAcquired` or `OnLockReleased`, the check before the lock included. -/
def notify (call : Call) (currentTime : Nat) (s : State) : State :=
  if !s.enabled || call.event.lockAddress == 0 then s else perform call currentTime s

def monitoredInit (callback : Bool) (descriptions : DWORD → Option String) : Monitored :=
  ⟨{init with enabled := true, callback := callback, descriptions := descriptions},fun _ => none⟩

/-- A lock is an object, so its address is not null. -/
def monitoredStep (s : Monitored) : LockEvent → Option Monitored
  | .acquire thread lockAddress lockName currentTime =>
      if lockAddress = 0 then none else
        let detector := notify ⟨thread,.acquired lockAddress lockName⟩ currentTime s.detector
        match s.holder lockAddress with
        | none => some ⟨detector,Function.update s.holder lockAddress (some (thread,1))⟩
        | some (owner,depth) =>
            if owner = thread then some ⟨detector,Function.update s.holder lockAddress (some (thread,depth + 1))⟩ else none
  | .release thread lockAddress =>
      if lockAddress = 0 then none else
        match s.holder lockAddress with
        | none => none
        | some (owner,depth) =>
            if owner = thread then some ⟨notify ⟨thread,.released lockAddress⟩ 0 s.detector,
              Function.update s.holder lockAddress (if depth = 1 then none else some (thread,depth - 1))⟩
            else none

def Monitored.Holds (s : Monitored) (thread : DWORD) (lockAddress : Address) : Prop :=
  ∃ depth, s.holder lockAddress = some (thread,depth)

def State.Recorded (s : State) (thread : DWORD) (lockAddress : Address) : Prop :=
  ∃ lock, s.locks lockAddress = some lock ∧ lock.threadId = thread

def State.Listed (s : State) (thread : DWORD) (lockAddress : Address) : Prop :=
  lockAddress ∈ (s.threadLocks thread).getD []

def Mirrors (s : Monitored) : Prop :=
  ∀ thread lockAddress, (s.detector.Recorded thread lockAddress ↔ s.Holds thread lockAddress) ∧
    (s.detector.Listed thread lockAddress ↔ s.Holds thread lockAddress)

/-- A release by a thread that goes on holding the lock is not reported. -/
def Outermost (s : Monitored) : LockEvent → Prop
  | .acquire .. => True
  | .release _ lockAddress => ∀ owner depth, s.holder lockAddress = some (owner,depth) → depth = 1

structure MonitoredInv (s : Monitored) : Prop where
  enabled : s.detector.enabled = true
  positive : ∀ lockAddress owner depth, s.holder lockAddress = some (owner,depth) → 0 < depth

section Records
variable {s t : Monitored} {thread : DWORD} {lockAddress : Address}

theorem notify_acquired {state : State} (enabled : state.enabled = true) (nonnull : lockAddress ≠ 0)
    (lockName : Option String) (currentTime : Nat) : notify ⟨thread,.acquired lockAddress lockName⟩ currentTime state =
      {state with
        locks := Function.update state.locks lockAddress (some ⟨lockAddress,lockName,thread,currentTime⟩)
        threadLocks := Function.update state.threadLocks thread (some ((state.threadLocks thread).getD [] ++ [lockAddress]))} := by
  simp [notify,enabled,Event.lockAddress,nonnull,perform,onLockAcquired_own]

theorem notify_released {state : State} (enabled : state.enabled = true) (nonnull : lockAddress ≠ 0) :
    notify ⟨thread,.released lockAddress⟩ 0 state = onLockReleased thread lockAddress state := by
  simp [notify,enabled,Event.lockAddress,nonnull,perform]

/-- Releasing takes the lock out of the records, however often it is held. -/
theorem released_recorded (state : State) (u : DWORD) (l : Address) :
    (onLockReleased thread lockAddress state).Recorded u l ↔ l ≠ lockAddress ∧ state.Recorded u l := by
  by_cases same : l = lockAddress
  · subst same
    simp [State.Recorded,onLockReleased]
  · simp [State.Recorded,onLockReleased,same]

theorem released_listed (state : State) (u : DWORD) (l : Address) :
    (onLockReleased thread lockAddress state).Listed u l ↔ (u = thread → l ≠ lockAddress) ∧ state.Listed u l := by
  cases known : state.threadLocks thread with
  | none =>
    simp only [State.Listed,onLockReleased,known]
    refine (and_iff_right_of_imp fun listed same => ?_).symm
    subst same
    simp [known] at listed
  | some locks =>
    simp only [State.Listed,onLockReleased,known]
    by_cases same : u = thread
    · subst same
      have left : ((if (locks.filter fun lock => lock != lockAddress).isEmpty then none
          else some (locks.filter fun lock => lock != lockAddress)).getD []) = locks.filter fun lock => lock != lockAddress := by
        split
        next empty => exact (List.isEmpty_iff.mp empty).symm
        next => rfl
      rw [Function.update_self,left,known]
      simp [List.mem_filter,and_comm]
    · simp [same]

theorem acquired_recorded {state : State} (enabled : state.enabled = true) (nonnull : lockAddress ≠ 0)
    (lockName : Option String) (currentTime : Nat) (u : DWORD) (l : Address) :
    (notify ⟨thread,.acquired lockAddress lockName⟩ currentTime state).Recorded u l ↔
      l = lockAddress ∧ u = thread ∨ l ≠ lockAddress ∧ state.Recorded u l := by
  rw [notify_acquired enabled nonnull]
  by_cases same : l = lockAddress
  · subst same
    simp [State.Recorded,eq_comm]
  · simp [State.Recorded,same]

theorem acquired_listed {state : State} (enabled : state.enabled = true) (nonnull : lockAddress ≠ 0)
    (lockName : Option String) (currentTime : Nat) (u : DWORD) (l : Address) :
    (notify ⟨thread,.acquired lockAddress lockName⟩ currentTime state).Listed u l ↔
      l = lockAddress ∧ u = thread ∨ state.Listed u l := by
  rw [notify_acquired enabled nonnull]
  by_cases same : u = thread
  · subst same
    simp [State.Listed,or_comm]
  · simp [State.Listed,same]

theorem holds_update (owned : ∀ owner depth, s.holder lockAddress = some (owner,depth) → owner = thread)
    (detector : State) (depth : Nat) (u : DWORD) (l : Address) :
    (⟨detector,Function.update s.holder lockAddress (some (thread,depth))⟩ : Monitored).Holds u l ↔
      l = lockAddress ∧ u = thread ∨ s.Holds u l := by
  by_cases same : l = lockAddress
  · subst same
    simp only [Monitored.Holds,Function.update_self]
    constructor
    · intro given
      obtain ⟨_,same⟩ := given
      cases same
      exact .inl ⟨trivial,rfl⟩
    · intro given
      rcases given with ⟨_,rfl⟩ | ⟨_,held⟩
      · exact ⟨depth,rfl⟩
      · exact ⟨depth,by rw [owned u _ held]⟩
  · simp [Monitored.Holds,same]

theorem acquire_cases {lockName : Option String} {currentTime : Nat}
    (taken : monitoredStep s (.acquire thread lockAddress lockName currentTime) = some t) : lockAddress ≠ 0 ∧
    (∀ owner depth, s.holder lockAddress = some (owner,depth) → owner = thread) ∧
    ∃ depth, t = ⟨notify ⟨thread,.acquired lockAddress lockName⟩ currentTime s.detector,
      Function.update s.holder lockAddress (some (thread,depth + 1))⟩ := by
  simp only [monitoredStep] at taken
  split at taken
  next => contradiction
  next nonnull =>
    split at taken
    next free =>
      cases taken
      exact ⟨nonnull,by simp [free],0,rfl⟩
    next owner depth held =>
      split at taken
      next same =>
        cases taken
        refine ⟨nonnull,fun other times found => ?_,depth,rfl⟩
        cases held.symm.trans found
        exact same
      next => contradiction

theorem release_cases (taken : monitoredStep s (.release thread lockAddress) = some t) : lockAddress ≠ 0 ∧
    ∃ depth, s.holder lockAddress = some (thread,depth) ∧ t = ⟨notify ⟨thread,.released lockAddress⟩ 0 s.detector,
      Function.update s.holder lockAddress (if depth = 1 then none else some (thread,depth - 1))⟩ := by
  simp only [monitoredStep] at taken
  split at taken
  next => contradiction
  next nonnull =>
    split at taken
    next => contradiction
    next owner depth held =>
      split at taken
      next same =>
        subst same
        cases taken
        exact ⟨nonnull,depth,held,rfl⟩
      next => contradiction

theorem monitored_step (s : Monitored) (event : LockEvent) (t : Monitored) (inv : MonitoredInv s)
    (taken : monitoredStep s event = some t) : MonitoredInv t := by
  cases event with
  | acquire thread lockAddress lockName currentTime =>
    obtain ⟨nonnull,_,depth,rfl⟩ := acquire_cases taken
    refine ⟨by rw [notify_acquired inv.enabled nonnull]; exact inv.enabled,fun l owner times held => ?_⟩
    by_cases same : l = lockAddress
    · subst same
      simp only [Function.update_self] at held
      cases held
      exact Nat.succ_pos depth
    · exact inv.positive l owner times (by simpa [same] using held)
  | release thread lockAddress =>
    obtain ⟨nonnull,depth,before,rfl⟩ := release_cases taken
    refine ⟨by rw [notify_released inv.enabled nonnull]; exact inv.enabled,fun l owner times held => ?_⟩
    by_cases same : l = lockAddress
    · subst same
      have some := inv.positive l _ _ before
      simp only [Function.update_self] at held
      split at held <;> cases held
      omega
    · exact inv.positive l owner times (by simpa [same] using held)

theorem mirrors_acquire {lockName : Option String} {currentTime : Nat} (inv : MonitoredInv s) (mirrors : Mirrors s)
    (taken : monitoredStep s (.acquire thread lockAddress lockName currentTime) = some t) : Mirrors t := by
  obtain ⟨nonnull,owned,depth,rfl⟩ := acquire_cases taken
  intro u l
  obtain ⟨recorded,listed⟩ := mirrors u l
  rw [holds_update owned,acquired_recorded inv.enabled nonnull,acquired_listed inv.enabled nonnull,recorded,listed]
  refine ⟨or_congr_right' fun other => and_iff_right_of_imp fun held same => ?_,Iff.rfl⟩
  subst same
  obtain ⟨times,found⟩ := held
  exact other ⟨rfl,owned u times found⟩

theorem mirrors_release (inv : MonitoredInv s) (mirrors : Mirrors s) (outermost : Outermost s (.release thread lockAddress))
    (taken : monitoredStep s (.release thread lockAddress) = some t) : Mirrors t := by
  obtain ⟨nonnull,depth,held,rfl⟩ := release_cases taken
  obtain rfl := outermost _ _ held
  intro u l
  obtain ⟨recorded,listed⟩ := mirrors u l
  rw [notify_released inv.enabled nonnull,released_recorded,released_listed,recorded,listed]
  by_cases same : l = lockAddress
  · subst same
    simp only [Monitored.Holds,Function.update_self,if_true,reduceCtorEq,exists_false,ne_eq,not_true_eq_false,false_and,
      true_and,held,Option.some.injEq,Prod.mk.injEq,iff_false,not_and]
    intro stranger given
    exact stranger given.choose_spec.1.symm
  · simp [Monitored.Holds,same]

/-- A release that leaves the lock held takes the lock off the records all the same. -/
theorem mirrors_breach {event : LockEvent} (inv : MonitoredInv s) (inner : ¬ Outermost s event)
    (taken : monitoredStep s event = some t) : ¬ Mirrors t := by
  cases event with
  | acquire => exact absurd trivial inner
  | release thread lockAddress =>
    obtain ⟨nonnull,depth,held,rfl⟩ := release_cases taken
    have more : depth ≠ 1 := by
      intro once
      refine inner fun owner times found => ?_
      cases held.symm.trans found
      exact once
    intro mirrors
    have recorded := (mirrors thread lockAddress).1.mpr ⟨depth - 1,(Function.update_self ..).trans (if_neg more)⟩
    rw [notify_released inv.enabled nonnull,released_recorded] at recorded
    exact recorded.1 rfl

theorem mirrors_init (callback : Bool) (descriptions : DWORD → Option String) :
    Mirrors (monitoredInit callback descriptions) := by
  intro thread lockAddress
  simp [State.Recorded,State.Listed,Monitored.Holds,monitoredInit,init]

/-- The records mirror who holds what after every event of a run if and only if the
run reports no release of a lock held more than once over. -/
theorem mirrors_iff {callback : Bool} {descriptions : DWORD → Option String} {events : List LockEvent}
    (reached : run monitoredStep (monitoredInit callback descriptions) events = some s) :
    Along monitoredStep Mirrors (monitoredInit callback descriptions) events ↔
      Obeys monitoredStep Outermost (monitoredInit callback descriptions) events := by
  refine @along_iff_obeys _ _ _ (fun s => MonitoredInv s ∧ Mirrors s) _ _ ?_ (fun s known => known.2) ?_ _ _ _
    ⟨⟨rfl,nofun⟩,mirrors_init callback descriptions⟩ reached
  · intro s event t known outermost taken
    refine ⟨monitored_step s event t known.1 taken,?_⟩
    cases event with
    | acquire => exact mirrors_acquire known.1 known.2 taken
    | release => exact mirrors_release known.1 known.2 outermost taken
  · exact fun s event t known inner taken => mirrors_breach known.1 inner taken

end Records

/-- Two threads take turns on one lock. -/
theorem mirrors_iff_turns : ∃ s, run monitoredStep (monitoredInit false fun _ => none)
      [.acquire 1 8 none 0,.release 1 8,.acquire 2 8 none 1] = some s ∧
    Along monitoredStep Mirrors (monitoredInit false fun _ => none)
      [.acquire 1 8 none 0,.release 1 8,.acquire 2 8 none 1] := by
  obtain ⟨s,reached⟩ : ∃ s, run monitoredStep (monitoredInit false fun _ => none)
    [.acquire 1 8 none 0,.release 1 8,.acquire 2 8 none 1] = some s := ⟨_,rfl⟩
  refine ⟨s,reached,(mirrors_iff reached).mpr ⟨trivial,fun t taken => ?_⟩⟩
  cases taken
  refine ⟨fun owner depth held => ?_,fun t taken => ⟨trivial,fun _ _ => trivial⟩⟩
  cases held
  rfl

/-- A thread that has acquired a lock twice and released it once still holds it, and
is on record nowhere. -/
theorem inner_release_forgotten : ∃ s, run monitoredStep (monitoredInit false fun _ => none)
      [.acquire 1 8 none 0,.acquire 1 8 none 1,.release 1 8] = some s ∧ s.Holds 1 8 ∧
    ¬ s.detector.Recorded 1 8 ∧ ¬ s.detector.Listed 1 8 := by
  refine ⟨_,rfl,⟨1,rfl⟩,?_,?_⟩
  · intro recorded
    obtain ⟨lock,found,_⟩ := recorded
    contradiction
  · intro listed
    contradiction

end Ezthread.DeadlockDetector
