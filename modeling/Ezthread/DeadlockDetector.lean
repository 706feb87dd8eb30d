import Ezthread.Activation
import Ezthread.Transition
import Mathlib.Logic.Function.Basic

/-! `DeadlockDetector` of debug.cpp. A call reads `m_enabled` first and does the rest
under `m_mutex`, so it is two steps. The maps are functions, with `none` for an
absent key; the null address is 0. -/
namespace Ezthread.DeadlockDetector
open Transition Activation

abbrev DWORD := BitVec 32
abbrev Address := Nat

/-- What `GetThreadName` returns: a pointer to the buffer of the thread it runs on. -/
structure NamePointer where
  thread : DWORD

structure DeadlockInfo where
  lockAddress1 : Address
  lockAddress2 : Address
  thread1Name : NamePointer
  thread2Name : NamePointer
  thread1Id : DWORD
  thread2Id : DWORD

structure LockInfo where
  address : Address
  name : Option String
  threadId : DWORD
  acquireTime : Nat

/-- What the callback is given, with what the name pointers read as when it runs. -/
structure Report where
  info : DeadlockInfo
  thread1Name : String
  thread2Name : String

inductive Event
  | acquired (lockAddress : Address) (lockName : Option String)
  | released (lockAddress : Address)

def Event.lockAddress : Event → Address
  | .acquired lockAddress _ => lockAddress
  | .released lockAddress => lockAddress

structure Call where
  thread : DWORD
  event : Event

/-- `descriptions` is what `GetThreadDescription` gives, as far as it fits the buffer,
and none for a thread that cannot be opened or described. `entered` keeps the calls
past the check of `m_enabled`, and `reports` the calls of the callback; neither is
memory of the program. -/
structure State where
  enabled : Bool
  callback : Bool
  locks : Address → Option LockInfo
  threadLocks : DWORD → Option (List Address)
  descriptions : DWORD → Option String
  buffers : DWORD → String
  entered : List (Option Call)
  reports : List Report

def init : State := ⟨false,false,fun _ => none,fun _ => none,fun _ => none,fun _ => "",[],[]⟩

inductive Label
  | enable (enable : Bool)
  | setCallback (callable : Bool)
  | setThreadName (thread : DWORD) (name : Option String)
  | invoke (thread : DWORD) (event : Event)
  | enter (i : Nat) (currentTime : Nat)

def State.threadName (s : State) (threadId : DWORD) : String :=
  match s.descriptions threadId with
  | some description => description
  | none => "Thread-" ++ toString threadId.toNat

/-- `caller` is the thread that runs the function, whose buffer is `thread_local`. -/
def getThreadName (caller threadId : DWORD) (s : State) : NamePointer × State :=
  (⟨caller⟩,{s with buffers := Function.update s.buffers caller (s.threadName threadId)})

def State.read (s : State) (name : NamePointer) : String := s.buffers name.thread

def report (lockAddress ownerLock : Address) (threadId ownerTid : DWORD) (s : State) : State :=
  let (thread1Name,s) := getThreadName threadId threadId s
  let (thread2Name,s) := getThreadName threadId ownerTid s
  let info := ⟨lockAddress,ownerLock,thread1Name,thread2Name,threadId,ownerTid⟩
  if s.callback then {s with reports := s.reports ++ [⟨info,s.read thread1Name,s.read thread2Name⟩]} else s

/-- The two loops stop at the first lock of the owner's that the thread has too. -/
def checkForDeadlock (lockAddress : Address) (threadId : DWORD) (s : State) : State :=
  match s.locks lockAddress with
  | none => s
  | some lock =>
      if lock.threadId = threadId then s else
        match s.threadLocks lock.threadId,s.threadLocks threadId with
        | some ownerLocks,some currentLocks =>
            match ownerLocks.find? (fun ownerLock => currentLocks.contains ownerLock) with
            | some ownerLock => report lockAddress ownerLock threadId lock.threadId s
            | none => s
        | _,_ => s

def onLockAcquired (tid : DWORD) (lockAddress : Address) (lockName : Option String) (currentTime : Nat) (s : State) : State :=
  let info := ⟨lockAddress,lockName,tid,currentTime⟩
  checkForDeadlock lockAddress tid {s with
    locks := Function.update s.locks lockAddress (some info)
    threadLocks := Function.update s.threadLocks tid (some ((s.threadLocks tid).getD [] ++ [lockAddress]))}

def onLockReleased (tid : DWORD) (lockAddress : Address) (s : State) : State :=
  {s with
    locks := Function.update s.locks lockAddress none
    threadLocks := match s.threadLocks tid with
      | none => s.threadLocks
      | some locks =>
          let left := locks.filter (fun lock => lock != lockAddress)
          Function.update s.threadLocks tid (if left.isEmpty then none else some left)}

def perform (call : Call) (currentTime : Nat) : State → State :=
  match call.event with
  | .acquired lockAddress lockName => onLockAcquired call.thread lockAddress lockName currentTime
  | .released lockAddress => onLockReleased call.thread lockAddress

def step (s : State) : Label → Option State
  | .enable enable => some {s with enabled := enable}
  | .setCallback callable => some {s with callback := callable}
  | .setThreadName thread name => some {s with descriptions := Function.update s.descriptions thread name}
  | .invoke thread event =>
      if !s.enabled || event.lockAddress == 0 then some s
      else some {s with entered := s.entered ++ [some ⟨thread,event⟩]}
  | .enter i currentTime =>
      match s.entered[i]? with
      | some (some call) =>
          let after := perform call currentTime s
          some {after with entered := after.entered.set i none}
      | _ => none

/-- Another thread is on record as the holder of the lock. -/
structure Conflict (s : State) (lockAddress : Address) (t u : DWORD) : Prop where
  enabled : s.enabled = true
  recorded : ∃ lock, s.locks lockAddress = some lock ∧ lock.threadId = u
  listed : ∃ locks, s.threadLocks u = some locks ∧ lockAddress ∈ locks
  other : t ≠ u

/-- The callback was invoked once, with the lock, both threads and their names. -/
def Reported (s after : State) (lockAddress : Address) (t u : DWORD) : Prop :=
  ∃ report, after.reports = s.reports ++ [report] ∧ report.info.lockAddress1 = lockAddress ∧
    report.info.thread1Id = t ∧ report.info.thread2Id = u ∧
    report.thread1Name = s.threadName t ∧ report.thread2Name = s.threadName u

/-- Both pointers of a report are to one buffer, last written with the owner's name. -/
theorem checkForDeadlock_reports (lockAddress : Address) (threadId : DWORD) (s : State) :
    (checkForDeadlock lockAddress threadId s).reports = s.reports ∨
      ∃ info : DeadlockInfo, (checkForDeadlock lockAddress threadId s).reports =
        s.reports ++ [⟨info,s.threadName info.thread2Id,s.threadName info.thread2Id⟩] := by
  unfold checkForDeadlock
  split
  next => exact Or.inl rfl
  next lock found =>
    split
    next => exact Or.inl rfl
    next =>
      split
      next ownerLocks currentLocks _ _ =>
        split
        next ownerLock _ =>
          cases called : s.callback with
          | false => exact Or.inl (by simp [report,getThreadName,called])
          | true =>
            refine Or.inr ⟨⟨lockAddress,ownerLock,⟨threadId⟩,⟨threadId⟩,threadId,lock.threadId⟩,?_⟩
            simp [report,getThreadName,called,State.read,State.threadName]
        next => exact Or.inl rfl
      next => exact Or.inl rfl

/-- The lock is recorded as the caller's own before the check looks for its owner. -/
theorem onLockAcquired_own (tid : DWORD) (lockAddress : Address) (lockName : Option String) (currentTime : Nat) (s : State) :
    onLockAcquired tid lockAddress lockName currentTime s = {s with
      locks := Function.update s.locks lockAddress (some ⟨lockAddress,lockName,tid,currentTime⟩)
      threadLocks := Function.update s.threadLocks tid (some ((s.threadLocks tid).getD [] ++ [lockAddress]))} := by
  simp [onLockAcquired,checkForDeadlock]

structure Inv (s : State) : Prop where
  silent : s.reports = []
  null : s.locks 0 = none
  entered : Every (fun _ entry => ∀ call, entry = some call → call.event.lockAddress ≠ 0) s.entered

theorem inv_init : Inv init := ⟨rfl,rfl,Every.nil _⟩

theorem inv_step (s : State) (label : Label) (t : State) (inv : Inv s) (taken : step s label = some t) : Inv t := by
  cases label with
  | enable | setCallback | setThreadName =>
    cases taken
    exact ⟨inv.silent,inv.null,inv.entered⟩
  | invoke thread event =>
    simp only [step] at taken
    split at taken
    next =>
      cases taken
      exact inv
    next passed =>
      cases taken
      refine ⟨inv.silent,inv.null,inv.entered.append fun call same => ?_⟩
      cases same
      simp only [Bool.or_eq_true,beq_iff_eq,not_or] at passed
      exact passed.2
  | enter i currentTime =>
    simp only [step] at taken
    split at taken
    next call found =>
      cases taken
      obtain ⟨thread,event⟩ := call
      have nonnull := inv.entered i _ found _ rfl
      cases event with
      | acquired lockAddress lockName =>
        simp only [perform,onLockAcquired_own]
        refine ⟨inv.silent,?_,inv.entered.set (by simp)⟩
        exact (Function.update_of_ne (Ne.symm nonnull) _ _).trans inv.null
      | released lockAddress =>
        refine ⟨inv.silent,?_,inv.entered.set (by simp)⟩
        exact (Function.update_of_ne (Ne.symm nonnull) _ _).trans inv.null
    next => contradiction

/-- No call ever reports, and one that finds its lock on record as another thread's
takes the record over. -/
theorem conflict_unreported {labels : List Label} {s : State} {lockAddress : Address} {t u : DWORD}
    (reached : run step init labels = some s) (conflict : Conflict s lockAddress t u) (lockName : Option String)
    (currentTime : Nat) :
    s.reports = [] ∧
    ∃ after, run step s [.invoke t (.acquired lockAddress lockName),.enter s.entered.length currentTime] = some after ∧
      after.locks lockAddress = some ⟨lockAddress,lockName,t,currentTime⟩ ∧ after.reports = [] ∧
      ¬ Reported s after lockAddress t u := by
  have inv := run_invariant Inv inv_step inv_init reached
  have nonnull : lockAddress ≠ 0 := by
    rintro rfl
    obtain ⟨lock,found,_⟩ := conflict.recorded
    exact absurd (found.symm.trans inv.null) (by simp)
  have invoked : step s (.invoke t (.acquired lockAddress lockName)) =
      some {s with entered := s.entered ++ [some (Call.mk t (.acquired lockAddress lockName))]} := by
    simp [step,conflict.enabled,Event.lockAddress,nonnull]
  have entered : step {s with entered := s.entered ++ [some (Call.mk t (.acquired lockAddress lockName))]}
      (.enter s.entered.length currentTime) = some {s with
        locks := Function.update s.locks lockAddress (some ⟨lockAddress,lockName,t,currentTime⟩)
        threadLocks := Function.update s.threadLocks t (some ((s.threadLocks t).getD [] ++ [lockAddress]))
        entered := (s.entered ++ [some (Call.mk t (.acquired lockAddress lockName))]).set s.entered.length none} := by
    simp [step,perform,onLockAcquired_own]
  refine ⟨inv.silent,_,run_step invoked (run_step entered rfl),Function.update_self ..,inv.silent,?_⟩
  intro given
  obtain ⟨report,grown,_⟩ := given
  exact absurd (congrArg List.length grown) (by simp)

/-- Thread 2 acquires a lock on record as thread 1's, with a callback set. -/
theorem conflict_unreported_two :
    ∃ s, run step init [.enable true,.setCallback true,.invoke 1 (.acquired 8 none),.enter 0 0] = some s ∧
      Conflict s 8 2 1 ∧
      ∃ after, run step s [.invoke 2 (.acquired 8 none),.enter s.entered.length 1] = some after ∧
        ¬ Reported s after 8 2 1 := by
  obtain ⟨s,reached,conflict⟩ : ∃ s, run step init
      [.enable true,.setCallback true,.invoke 1 (.acquired 8 none),.enter 0 0] = some s ∧ Conflict s 8 2 1 :=
    ⟨_,rfl,rfl,⟨_,rfl,rfl⟩,⟨[8],rfl,by simp⟩,by decide⟩
  obtain ⟨_,after,ran,_,_,unreported⟩ := conflict_unreported reached conflict none 1
  exact ⟨s,reached,conflict,after,ran,unreported⟩

/-- The holder's record is gone after the call, and the callback was not invoked. -/
theorem owner_overwritten :
    ∃ s after, run step init [.enable true,.setCallback true,.invoke 1 (.acquired 8 none),.enter 0 0] = some s ∧
      Conflict s 8 2 1 ∧ run step s [.invoke 2 (.acquired 8 none),.enter 1 1] = some after ∧
      after.locks 8 = some ⟨8,none,2,1⟩ ∧ after.reports = [] ∧ ¬ Reported s after 8 2 1 := by
  refine ⟨_,_,rfl,⟨rfl,⟨_,rfl,rfl⟩,⟨[8],rfl,by simp⟩,by decide⟩,rfl,rfl,rfl,fun given => ?_⟩
  obtain ⟨report,grown,_⟩ := given
  exact absurd (show 0 = 1 from congrArg List.length grown) (by decide)

end Ezthread.DeadlockDetector
