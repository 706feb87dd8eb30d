import Ezthread.Activation
import Ezthread.Transition

/-! `RWLock` of mutex.cpp and its scopes, with the `ConditionVariable::Wait` and `WaitFor`
that sleep on it. The system counts how often the lock is held and in which mode, not by
whom, and grants it when it likes to a call it can admit. -/
namespace Ezthread.RWLock
open Transition Activation

inductive Mode
  | shared
  | exclusive
  deriving DecidableEq

/-- `RTL_SRWLOCK`. `misused` is no memory of the lock: it records the release of a lock
that was not held in that mode. -/
structure SRWLock where
  readers : Nat
  writer : Bool
  misused : Bool
  deriving DecidableEq

def initializeSRWLock : SRWLock := ⟨0,false,false⟩

def SRWLock.admits (lock : SRWLock) : Mode → Bool
  | .shared => !lock.writer
  | .exclusive => !lock.writer && lock.readers == 0

/-- `AcquireSRWLockShared` and `AcquireSRWLockExclusive`, once granted. -/
def SRWLock.acquire (lock : SRWLock) : Mode → SRWLock
  | .shared => {lock with readers := lock.readers + 1}
  | .exclusive => {lock with writer := true}

/-- `ReleaseSRWLockShared` and `ReleaseSRWLockExclusive`. -/
def SRWLock.release (lock : SRWLock) : Mode → SRWLock
  | .shared => if lock.readers = 0 then {lock with misused := true} else {lock with readers := lock.readers - 1}
  | .exclusive => if lock.writer then {lock with writer := false} else {lock with misused := true}

/-- What a method asks of the system. A condition variable's wait releases the lock in the
mode it is given and takes it back in the same mode. -/
inductive Request
  | acquire (mode : Mode)
  | tryAcquire (mode : Mode)
  | release (mode : Mode)
  | sleep (mode : Mode)
  deriving DecidableEq

def lockRead : Request := .acquire .shared
def tryLockRead : Request := .tryAcquire .shared
def unlockRead : Request := .release .shared
def lockWrite : Request := .acquire .exclusive
def tryLockWrite : Request := .tryAcquire .exclusive
def unlockWrite : Request := .release .exclusive

/-- The constructors and destructors of `ReadLock` and `WriteLock`. -/
def readLock : Request := lockRead
def endReadLock : Request := unlockRead
def writeLock : Request := lockWrite
def endWriteLock : Request := unlockWrite

/-- `ConditionVariable::Wait` on an `RWLock`; `WaitFor` makes the same call of the system,
with `INFINITE` in the place of its timeout. -/
def wait (exclusive : Bool) : Request := .sleep (if exclusive then .exclusive else .shared)
def waitFor (exclusive : Bool) : Request := wait exclusive

inductive Point
  | running
  | acquiring (mode : Mode)
  | asleep (mode : Mode)
  | woken (mode : Mode)
  deriving DecidableEq

/-- `holding` is no memory of the program: the modes in which the lock was granted to the
thread and not yet released by it. -/
structure Thread where
  holding : List Mode
  point : Point
  deriving DecidableEq

structure State where
  lock : SRWLock
  threads : List Thread
  deriving DecidableEq

def init : State := ⟨initializeSRWLock,[]⟩

/-- `refuse` is a `TryLock` that returns false: the system need not say why. -/
inductive Label
  | createThread
  | call (i : Nat) (request : Request)
  | refuse (i : Nat) (mode : Mode)
  | wake (i : Nat)
  | grant (i : Nat)
  deriving DecidableEq

def State.goto (s : State) (i : Nat) (thread : Thread) : State := {s with threads := s.threads.set i thread}

def State.give (s : State) (i : Nat) (holding : List Mode) (mode : Mode) : Option State :=
  if s.lock.admits mode then
    some (({s with lock := s.lock.acquire mode} : State).goto i ⟨mode :: holding,.running⟩)
  else none

def State.release (s : State) (i : Nat) (holding : List Mode) (mode : Mode) (point : Point) : State :=
  ({s with lock := s.lock.release mode} : State).goto i ⟨holding.erase mode,point⟩

def step (s : State) : Label → Option State
  | .createThread => some {s with threads := s.threads ++ [⟨[],.running⟩]}
  | .call i request =>
      match s.threads[i]? with
      | some ⟨holding,.running⟩ =>
          match request with
          | .acquire mode => some (s.goto i ⟨holding,.acquiring mode⟩)
          | .tryAcquire mode => s.give i holding mode
          | .release mode => some (s.release i holding mode .running)
          | .sleep mode => some (s.release i holding mode (.asleep mode))
      | _ => none
  | .refuse i _ =>
      match s.threads[i]? with
      | some ⟨_,.running⟩ => some s
      | _ => none
  | .wake i =>
      match s.threads[i]? with
      | some ⟨holding,.asleep mode⟩ => some (s.goto i ⟨holding,.woken mode⟩)
      | _ => none
  | .grant i =>
      match s.threads[i]? with
      | some ⟨holding,.acquiring mode⟩ => s.give i holding mode
      | some ⟨holding,.woken mode⟩ => s.give i holding mode
      | _ => none

/-- All a step can do: a thread is added, its point changes, or it gains or gives up a mode. -/
inductive Moves (s : State) : Label → State → Prop
  | createThread : Moves s .createThread {s with threads := s.threads ++ [⟨[],.running⟩]}
  | acquire (i holding mode) (found : s.threads[i]? = some ⟨holding,.running⟩) :
      Moves s (.call i (.acquire mode)) (s.goto i ⟨holding,.acquiring mode⟩)
  | release (i holding mode request point) (found : s.threads[i]? = some ⟨holding,.running⟩)
      (own : (request = .release mode ∧ point = .running) ∨ (request = .sleep mode ∧ point = .asleep mode)) :
      Moves s (.call i request) (s.release i holding mode point)
  | refuse (i mode) : Moves s (.refuse i mode) s
  | wake (i holding mode) (found : s.threads[i]? = some ⟨holding,.asleep mode⟩) :
      Moves s (.wake i) (s.goto i ⟨holding,.woken mode⟩)
  | give (label i holding mode point) (found : s.threads[i]? = some ⟨holding,point⟩) (admitted : s.lock.admits mode = true)
      (own : (label = .call i (.tryAcquire mode) ∧ point = .running) ∨
        (label = .grant i ∧ (point = .acquiring mode ∨ point = .woken mode))) :
      Moves s label (({s with lock := s.lock.acquire mode} : State).goto i ⟨mode :: holding,.running⟩)

theorem give_some {s t : State} {i : Nat} {holding : List Mode} {mode : Mode} (given : s.give i holding mode = some t) :
    s.lock.admits mode = true ∧ t = ({s with lock := s.lock.acquire mode} : State).goto i ⟨mode :: holding,.running⟩ := by
  unfold State.give at given
  split at given
  next admitted => exact ⟨admitted,(Option.some.inj given).symm⟩
  next => contradiction

theorem step_moves {s t : State} {label : Label} (taken : step s label = some t) : Moves s label t := by
  cases label with
  | createThread =>
    cases taken
    exact .createThread
  | call i request =>
    simp only [step] at taken
    split at taken
    next holding found =>
      cases request with
      | acquire mode =>
        cases taken
        exact .acquire i holding mode found
      | tryAcquire mode =>
        obtain ⟨admitted,rfl⟩ := give_some taken
        exact .give _ i holding mode .running found admitted (Or.inl ⟨rfl,rfl⟩)
      | release mode =>
        cases taken
        exact .release i holding mode _ _ found (Or.inl ⟨rfl,rfl⟩)
      | sleep mode =>
        cases taken
        exact .release i holding mode _ _ found (Or.inr ⟨rfl,rfl⟩)
    next => contradiction
  | refuse i mode =>
    simp only [step] at taken
    split at taken
    next =>
      cases taken
      exact .refuse i mode
    next => contradiction
  | wake i =>
    simp only [step] at taken
    split at taken
    next holding mode found =>
      cases taken
      exact .wake i holding mode found
    next => contradiction
  | grant i =>
    simp only [step] at taken
    split at taken
    next holding mode found =>
      obtain ⟨admitted,rfl⟩ := give_some taken
      exact .give _ i holding mode _ found admitted (Or.inr ⟨rfl,Or.inl rfl⟩)
    next holding mode found =>
      obtain ⟨admitted,rfl⟩ := give_some taken
      exact .give _ i holding mode _ found admitted (Or.inr ⟨rfl,Or.inr rfl⟩)
    next => contradiction

def State.held (s : State) (mode : Mode) : Nat := (s.threads.map fun thread => thread.holding.count mode).sum

/-- The lock's word is that of the threads' holdings. -/
structure Consistent (s : State) : Prop where
  proper : s.lock.misused = false
  readers : s.lock.readers = s.held .shared
  writer : (if s.lock.writer then 1 else 0) = s.held .exclusive
  apart : s.lock.writer = true → s.lock.readers = 0

/-- A thread that holds the lock exclusively holds it once, and no other thread holds it. -/
def Excludes (s : State) : Prop :=
  ∀ (i : Nat) (writer : Thread), s.threads[i]? = some writer → .exclusive ∈ writer.holding → writer.holding = [.exclusive] ∧
    ∀ (j : Nat) (other : Thread), s.threads[j]? = some other → j ≠ i → other.holding = []

/-- A thread releases the lock, or sleeps on it, in a mode in which it holds the lock. -/
def Owns (s : State) : Label → Prop
  | .call i (.release mode) | .call i (.sleep mode) => ∀ thread ∈ s.threads[i]?, mode ∈ thread.holding
  | _ => True

instance (s : State) : (label : Label) → Decidable (Owns s label)
  | .call i (.release mode) | .call i (.sleep mode) =>
      inferInstanceAs (Decidable (∀ thread ∈ s.threads[i]?, mode ∈ thread.holding))
  | .call _ (.acquire _) | .call _ (.tryAcquire _) | .createThread | .refuse _ _ | .wake _ | .grant _ =>
      inferInstanceAs (Decidable True)

section Holdings
variable {s t : State} {i j : Nat} {thread other next : Thread} {mode : Mode}

theorem held_goto (mode : Mode) (next : Thread) (found : s.threads[i]? = some thread) :
    (s.goto i next).held mode + thread.holding.count mode = s.held mode + next.holding.count mode :=
  sum_set (fun thread => thread.holding.count mode) next found

theorem held_same (found : s.threads[i]? = some thread) (same : next.holding = thread.holding) (mode : Mode) :
    (s.goto i next).held mode = s.held mode := by
  have moved := held_goto mode next found
  rw [same] at moved
  exact Nat.add_right_cancel moved

theorem held_le (found : s.threads[i]? = some thread) (mode : Mode) : thread.holding.count mode ≤ s.held mode := by
  have emptied := held_goto mode ⟨[],.running⟩ found
  simp only [List.count_nil] at emptied
  omega

theorem held_two (found : s.threads[i]? = some thread) (present : s.threads[j]? = some other) (apart : j ≠ i) (mode : Mode) :
    thread.holding.count mode + other.holding.count mode ≤ s.held mode := by
  have emptied := held_goto mode ⟨[],.running⟩ found
  have still : (s.goto i ⟨[],.running⟩).threads[j]? = some other := by
    rw [State.goto,List.getElem?_set_ne apart.symm]
    exact present
  have rest := held_le still mode
  simp only [List.count_nil] at emptied
  omega

theorem holding_nil {holding : List Mode} (shared : holding.count .shared = 0) (exclusive : holding.count .exclusive = 0) :
    holding = [] := by
  rw [List.eq_nil_iff_forall_not_mem]
  intro mode
  cases mode with
  | shared => exact List.count_eq_zero.mp shared
  | exclusive => exact List.count_eq_zero.mp exclusive

theorem Consistent.excludes (consistent : Consistent s) : Excludes s := by
  intro i writer found holds
  have one := List.one_le_count_iff.mpr holds
  have own := held_le found .exclusive
  have written := consistent.writer
  have locked : s.lock.writer = true := by
    by_contra free
    rw [if_neg free] at written
    omega
  rw [if_pos locked] at written
  have unread : s.held .shared = 0 := consistent.readers.symm.trans (consistent.apart locked)
  refine ⟨?_,fun j other present apart => ?_⟩
  · have rest : writer.holding.erase .exclusive = [] := by
      refine holding_nil ?_ ?_
      · have shared := held_le found .shared
        have erased := List.count_erase_of_ne (a := .shared) (b := .exclusive) (l := writer.holding) (by decide)
        omega
      · rw [List.count_erase_self]
        omega
    have perm := List.perm_cons_erase holds
    rw [rest] at perm
    exact List.perm_singleton.mp perm
  · refine holding_nil ?_ ?_
    · have shared := held_le present .shared
      omega
    · have both := held_two found present apart .exclusive
      omega

theorem Consistent.keep (consistent : Consistent s) (found : s.threads[i]? = some thread) (same : next.holding = thread.holding) :
    Consistent (s.goto i next) := by
  exact ⟨consistent.proper,consistent.readers.trans (held_same found same .shared).symm,
    consistent.writer.trans (held_same found same .exclusive).symm,consistent.apart⟩

theorem Consistent.give (consistent : Consistent s) (found : s.threads[i]? = some thread) (admitted : s.lock.admits mode = true)
    (own : next.holding = mode :: thread.holding) :
    Consistent (({s with lock := s.lock.acquire mode} : State).goto i next) := by
  have shared := held_goto .shared next found
  have exclusive := held_goto .exclusive next found
  have readers := consistent.readers
  have writer := consistent.writer
  rw [own] at shared exclusive
  cases mode with
  | shared =>
    have unwritten : s.lock.writer = false := by simpa [SRWLock.admits] using admitted
    rw [List.count_cons_self] at shared
    rw [List.count_cons_of_ne (by decide)] at exclusive
    refine ⟨consistent.proper,?_,?_,fun locked => absurd (unwritten.symm.trans locked) (by decide)⟩
    · change s.lock.readers + 1 = (s.goto i next).held .shared
      omega
    · change (if s.lock.writer = true then 1 else 0) = (s.goto i next).held .exclusive
      omega
  | exclusive =>
    obtain ⟨unwritten,unread⟩ : s.lock.writer = false ∧ s.lock.readers = 0 := by simpa [SRWLock.admits] using admitted
    rw [List.count_cons_of_ne (by decide)] at shared
    rw [List.count_cons_self] at exclusive
    simp only [unwritten,Bool.false_eq_true,if_false] at writer
    refine ⟨consistent.proper,?_,?_,fun _ => unread⟩
    · change s.lock.readers = (s.goto i next).held .shared
      omega
    · change (if true = true then 1 else 0) = (s.goto i next).held .exclusive
      simp only [if_true]
      omega

theorem Consistent.release {point : Point} (consistent : Consistent s) (found : s.threads[i]? = some thread)
    (own : mode ∈ thread.holding) : Consistent (s.release i thread.holding mode point) := by
  have shared := held_goto .shared ⟨thread.holding.erase mode,point⟩ found
  have exclusive := held_goto .exclusive ⟨thread.holding.erase mode,point⟩ found
  have readers := consistent.readers
  have writer := consistent.writer
  have one := List.one_le_count_iff.mpr own
  cases mode with
  | shared =>
    have holds := held_le found .shared
    have read : s.lock.readers ≠ 0 := by omega
    rw [List.count_erase_self] at shared
    rw [List.count_erase_of_ne (by decide)] at exclusive
    unfold State.release
    simp only [SRWLock.release,if_neg read]
    refine ⟨consistent.proper,?_,?_,fun locked => absurd (consistent.apart locked) read⟩
    · change s.lock.readers - 1 = (s.goto i _).held .shared
      omega
    · change (if s.lock.writer = true then 1 else 0) = (s.goto i _).held .exclusive
      omega
  | exclusive =>
    have holds := held_le found .exclusive
    have locked : s.lock.writer = true := by
      by_contra free
      rw [if_neg free] at writer
      omega
    rw [List.count_erase_of_ne (by decide)] at shared
    rw [List.count_erase_self] at exclusive
    rw [if_pos locked] at writer
    unfold State.release
    simp only [SRWLock.release,locked,if_true]
    refine ⟨consistent.proper,?_,?_,fun locked => absurd locked (by simp [State.goto])⟩
    · change s.lock.readers = (s.goto i _).held .shared
      omega
    · change 0 = (s.goto i _).held .exclusive
      omega

/-- A release of what the thread does not hold sets the word apart from the holdings. -/
theorem release_breach {point : Point} (consistent : Consistent s) (found : s.threads[i]? = some thread)
    (unheld : mode ∉ thread.holding) : ¬ Consistent (s.release i thread.holding mode point) := by
  intro after
  have same : thread.holding.erase mode = thread.holding := List.erase_of_not_mem unheld
  have readers := consistent.readers
  have writer := consistent.writer
  have proper := after.proper
  have reads := after.readers
  have writes := after.writer
  have still := held_same found (show (⟨thread.holding,point⟩ : Thread).holding = thread.holding from rfl)
  unfold State.release at proper reads writes
  rw [same] at proper reads writes
  cases mode with
  | shared =>
    by_cases none : s.lock.readers = 0
    · simp [SRWLock.release,none,State.goto] at proper
    · simp only [SRWLock.release,if_neg none] at reads
      change s.lock.readers - 1 = (s.goto i _).held .shared at reads
      rw [still] at reads
      omega
  | exclusive =>
    cases locked : s.lock.writer with
    | false => simp [SRWLock.release,locked,State.goto] at proper
    | true =>
      simp only [SRWLock.release,locked,if_true] at writes writer
      change 0 = (s.goto i _).held .exclusive at writes
      rw [still] at writes
      omega

theorem Consistent.init : Consistent init := ⟨rfl,rfl,rfl,fun _ => rfl⟩

theorem consistent_step (s : State) (label : Label) (t : State) (consistent : Consistent s) (owns : Owns s label)
    (taken : step s label = some t) : Consistent t := by
  cases step_moves taken with
  | createThread =>
    have still (mode : Mode) : State.held {s with threads := s.threads ++ [⟨[],.running⟩]} mode = s.held mode := by
      simp [State.held]
    exact ⟨consistent.proper,consistent.readers.trans (still .shared).symm,consistent.writer.trans (still .exclusive).symm,
      consistent.apart⟩
  | acquire i holding mode found => exact consistent.keep found rfl
  | release i holding mode request point found own =>
    have holds : mode ∈ holding := by rcases own with ⟨rfl,_⟩ | ⟨rfl,_⟩ <;> exact owns _ found
    exact consistent.release found holds
  | refuse => exact consistent
  | wake i holding mode found => exact consistent.keep found rfl
  | give _ i holding mode point found admitted => exact consistent.give found admitted rfl

theorem owns_breach (s : State) (label : Label) (t : State) (consistent : Consistent s) (disowns : ¬ Owns s label)
    (taken : step s label = some t) : ¬ Consistent t := by
  cases step_moves taken with
  | release i holding mode request point found own =>
    have unheld : mode ∉ holding := by
      intro holds
      refine disowns ?_
      rcases own with ⟨rfl,_⟩ | ⟨rfl,_⟩ <;> (intro thread present; cases found.symm.trans present; exact holds)
    exact release_breach consistent found unheld
  | give _ _ _ _ _ _ _ own => rcases own with ⟨rfl,_⟩ | ⟨rfl,_⟩ <;> exact absurd trivial disowns
  | _ => exact absurd trivial disowns

/-- The lock's word counts the holders, and a writer is alone, all along a run if and only
if no thread gives up a mode that it does not hold, be it by an `Unlock`, the end of a scope
or the flag of a condition variable's wait. -/
theorem counts_iff_owns {labels : List Label} {s : State} (reached : run step init labels = some s) :
    Along step (fun s => Consistent s ∧ Excludes s) init labels ↔ Obeys step Owns init labels :=
  along_iff_obeys consistent_step (fun _ consistent => ⟨consistent,consistent.excludes⟩)
    (fun s label t consistent disowns taken good => owns_breach s label t consistent disowns taken good.1) .init reached

def readersThenWriter : List Label :=
  [.createThread,.createThread,.call 0 readLock,.grant 0,.call 1 tryLockRead,.call 1 (wait false),.call 0 endReadLock,
    .call 0 writeLock,.grant 0,.wake 1]

/-- Two readers, one of which becomes a writer while the other sleeps on the lock. -/
theorem counts_iff_owns_scopes : ∃ s, run step init readersThenWriter = some s ∧
    Along step (fun s => Consistent s ∧ Excludes s) init readersThenWriter := by
  obtain ⟨s,reached⟩ : ∃ s, run step init readersThenWriter = some s := ⟨_,rfl⟩
  exact ⟨s,reached,(counts_iff_owns reached).mpr (by decide)⟩

end Holdings

section Upgrades
variable {s t : State} {i : Nat} {holding : List Mode} {mode : Mode} {point : Point}

/-- The call waits for a mode that what its own thread holds shuts out. -/
def Upgrades (holding : List Mode) (mode : Mode) : Prop := .exclusive ∈ holding ∨ (mode = .exclusive ∧ holding ≠ [])

theorem Consistent.refuses (consistent : Consistent s) (found : s.threads[i]? = some ⟨holding,point⟩)
    (upgrades : Upgrades holding mode) : s.lock.admits mode = false := by
  have readers := consistent.readers
  have writer := consistent.writer
  by_contra admitted
  obtain ⟨unwritten,unread⟩ : s.lock.writer = false ∧ (mode = .exclusive → s.lock.readers = 0) := by
    cases mode <;> simpa [SRWLock.admits] using admitted
  simp only [unwritten,Bool.false_eq_true,if_false] at writer
  have exclusive := held_le found .exclusive
  have unwriting : .exclusive ∉ holding := List.count_eq_zero.mp (Nat.le_zero.mp (writer ▸ exclusive))
  rcases upgrades with holds | ⟨same,some⟩
  · exact unwriting holds
  · have shared := held_le found .shared
    have unreading := List.count_eq_zero.mp (Nat.le_zero.mp (unread same ▸ readers ▸ shared))
    exact some (holding_nil (List.count_eq_zero.mpr unreading) (List.count_eq_zero.mpr unwriting))

theorem upgrade_step (s : State) (label : Label) (t : State)
    (known : Consistent s ∧ s.threads[i]? = some ⟨holding,point⟩) (owns : Owns s label) (taken : step s label = some t)
    (waits : point = .acquiring mode ∨ point = .woken mode) (upgrades : Upgrades holding mode) :
    Consistent t ∧ t.threads[i]? = some ⟨holding,point⟩ := by
  obtain ⟨consistent,found⟩ := known
  refine ⟨consistent_step s label t consistent owns taken,?_⟩
  -- No step of the thread itself is left, and a step of another leaves it where it is.
  have keeps {j : Nat} {before : List Mode} {now : Point} (next : Thread) (present : s.threads[j]? = some ⟨before,now⟩)
      (apart : now = point → False) : (s.threads.set j next)[i]? = some ⟨holding,point⟩ := by
    rw [List.getElem?_set_ne]
    · exact found
    · rintro rfl
      cases found.symm.trans present
      exact apart rfl
  cases step_moves taken with
  | createThread => exact get_grows found
  | acquire j before other present => exact keeps _ present (by rcases waits with rfl | rfl <;> simp)
  | release j before other request later present own => exact keeps _ present (by rcases waits with rfl | rfl <;> simp)
  | refuse => exact found
  | wake j before other present => exact keeps _ present (by rcases waits with rfl | rfl <;> simp)
  | give _ j before other now present admitted own =>
    by_cases same : j = i
    · subst same
      cases found.symm.trans present
      have equal : other = mode := by
        rcases own with ⟨_,rfl⟩ | ⟨_,rfl | rfl⟩ <;> rcases waits with waits | waits <;> cases waits <;> rfl
      have refused := consistent.refuses found upgrades
      rw [equal,refused] at admitted
      contradiction
    · exact (List.getElem?_set_ne same).trans found

/-- A thread that asks for a lock which its own holding shuts out waits forever; if it holds
the lock exclusively, nobody else holds it ever again. -/
theorem upgrade_never_granted {labels rest : List Label} (reached : run step init labels = some s)
    (owned : Obeys step Owns init labels) (found : s.threads[i]? = some ⟨holding,point⟩)
    (waits : point = .acquiring mode ∨ point = .woken mode) (upgrades : Upgrades holding mode)
    (continued : run step s rest = some t) (owning : Obeys step Owns s rest) :
    t.threads[i]? = some ⟨holding,point⟩ ∧
    (.exclusive ∈ holding → ∀ (j : Nat) (other : Thread), t.threads[j]? = some other → j ≠ i → other.holding = []) := by
  have consistent := run_invariant_obeying Consistent Owns consistent_step .init owned reached
  obtain ⟨later,still⟩ := run_invariant_obeying (fun s => Consistent s ∧ s.threads[i]? = some ⟨holding,point⟩) Owns
    (fun s label t known owns taken => upgrade_step s label t known owns taken waits upgrades) ⟨consistent,found⟩ owning continued
  exact ⟨still,fun holds => (later.excludes i _ still holds).2⟩

/-- A reader asks for the write lock while another thread also reads. -/
theorem upgrade_never_granted_reader : ∃ s t,
    run step init [.createThread,.createThread,.call 0 readLock,.grant 0,.call 0 writeLock,.call 1 tryLockRead] = some s ∧
    run step s [.call 1 endReadLock] = some t ∧ t.threads[0]? = some ⟨[.shared],.acquiring .exclusive⟩ := by
  obtain ⟨s,t,reached,continued,found⟩ : ∃ s t,
      run step init [.createThread,.createThread,.call 0 readLock,.grant 0,.call 0 writeLock,.call 1 tryLockRead] = some s ∧
      run step s [.call 1 endReadLock] = some t ∧ s.threads = [⟨[.shared],.acquiring .exclusive⟩,⟨[.shared],.running⟩] :=
    ⟨_,_,rfl,rfl,rfl⟩
  refine ⟨s,t,reached,continued,?_⟩
  refine (upgrade_never_granted reached (by decide) (by rw [found]; rfl) (Or.inl rfl) (Or.inr ⟨rfl,by decide⟩) continued ?_).1
  refine ⟨fun thread member => ?_,fun _ _ => trivial⟩
  rw [found] at member
  cases member
  decide

end Upgrades

section Progress
variable {s t : State} {i : Nat} {thread : Thread} {holding : List Mode} {mode : Mode} {point : Point}

/-- Besides, no thread waits to enter while it holds the lock. -/
def Proper (s : State) (label : Label) : Prop :=
  Owns s label ∧ match label with
    | .call i (.acquire _) => ∀ thread ∈ s.threads[i]?, thread.holding = []
    | _ => True

instance (s : State) (label : Label) : Decidable (Proper s label) :=
  match label with
  | .call i (.acquire mode) =>
      inferInstanceAs (Decidable (Owns s (.call i (.acquire mode)) ∧ ∀ thread ∈ s.threads[i]?, thread.holding = []))
  | .call _ (.release _) | .call _ (.sleep _) | .call _ (.tryAcquire _) | .createThread | .refuse _ _ | .wake _ | .grant _ =>
      inferInstanceAs (Decidable (Owns s _ ∧ True))

/-- What a waiting thread still holds shuts out nothing that it waits for. -/
def Waiting (thread : Thread) : Prop :=
  match thread.point with
  | .running => True
  | .acquiring _ => thread.holding = []
  | .asleep mode | .woken mode => .exclusive ∉ thread.holding ∧ (mode = .exclusive → thread.holding = [])

structure Orderly (s : State) : Prop where
  consistent : Consistent s
  waiting : Every (fun _ thread => Waiting thread) s.threads

theorem orderly_step (s : State) (label : Label) (t : State) (orderly : Orderly s) (proper : Proper s label)
    (taken : step s label = some t) : Orderly t := by
  refine ⟨consistent_step s label t orderly.consistent proper.1 taken,?_⟩
  cases step_moves taken with
  | createThread => exact orderly.waiting.append trivial
  | acquire i holding mode found =>
    have free : holding = [] := proper.2 _ found
    exact orderly.waiting.set free
  | refuse => exact orderly.waiting
  | wake i holding mode found =>
    have asleep : Waiting ⟨holding,.asleep mode⟩ := orderly.waiting i _ found
    exact orderly.waiting.set asleep
  | give => exact orderly.waiting.set trivial
  | release i holding mode request point found own =>
    refine orderly.waiting.set ?_
    rcases own with ⟨rfl,rfl⟩ | ⟨rfl,rfl⟩
    · trivial
    · have holds : mode ∈ holding := proper.1 _ found
      have alone (written : .exclusive ∈ holding) : holding = [.exclusive] :=
        (orderly.consistent.excludes i _ found written).1
      refine ⟨fun written => ?_,fun same => ?_⟩
      · have whole := alone (List.mem_of_mem_erase written)
        simp only [whole,List.mem_singleton] at holds
        simp [whole,holds] at written
      · subst same
        simp [alone holds]

def weight (thread : Thread) : Nat :=
  thread.holding.length + match thread.point with
    | .running => 0
    | .acquiring _ | .woken _ => 3
    | .asleep _ => 4

def rank (s : State) : Nat := (s.threads.map weight).sum

theorem rank_goto {next : Thread} (found : s.threads[i]? = some thread) (lighter : weight next < weight thread) :
    rank (s.goto i next) < rank s := by
  have moved := sum_set weight next found
  change rank (s.goto i next) + weight thread = rank s + weight next at moved
  omega

/-- No thread holds the lock or waits for it. -/
def Quiet (s : State) : Prop := ∀ thread ∈ s.threads, thread = ⟨[],.running⟩

theorem grants (found : s.threads[i]? = some ⟨holding,point⟩) (waits : point = .acquiring mode ∨ point = .woken mode)
    (admitted : s.lock.admits mode = true) : ∃ next, step s (.grant i) = some next ∧ rank next < rank s := by
  have given : s.give i holding mode = some (({s with lock := s.lock.acquire mode} : State).goto i ⟨mode :: holding,.running⟩) :=
    if_pos admitted
  have lighter : weight ⟨mode :: holding,.running⟩ < weight ⟨holding,point⟩ := by
    rcases waits with rfl | rfl <;> simp [weight]
  refine ⟨_,?_,rank_goto (s := {s with lock := s.lock.acquire mode}) found lighter⟩
  rcases waits with rfl | rfl <;> simp only [step,found,given]

/-- A lock held by nobody admits everyone. -/
theorem Consistent.admits_free (consistent : Consistent s) (free : ∀ thread ∈ s.threads, thread.holding = []) (mode : Mode) :
    s.lock.admits mode = true := by
  have none (mode : Mode) : s.held mode = 0 := by
    refine List.sum_eq_zero_iff_forall_eq_nat.mpr fun count member => ?_
    obtain ⟨thread,present,rfl⟩ := List.mem_map.mp member
    rw [free thread present]
    rfl
  have readers := consistent.readers
  have writer := consistent.writer
  rw [none] at readers writer
  have unwritten : s.lock.writer = false := by
    by_contra locked
    simp [locked] at writer
  cases mode <;> simp [SRWLock.admits,unwritten,readers]

/-- A lock held shared admits another reader. -/
theorem Consistent.admits_shared (consistent : Consistent s) (found : s.threads[i]? = some thread)
    (holds : .shared ∈ thread.holding) : s.lock.admits .shared = true := by
  have held := held_le found .shared
  have one := List.one_le_count_iff.mpr holds
  have readers := consistent.readers
  have unwritten : s.lock.writer = false := by
    by_contra locked
    have unread := consistent.apart (by simpa using locked)
    omega
  simp [SRWLock.admits,unwritten]

/-- Wherever not all is quiet a thread that runs can give up what it holds, a sleeper can
wake, or a waiting call can be granted the lock. -/
theorem settles (orderly : Orderly s) (loud : ¬ Quiet s) :
    ∃ label next, Proper s label ∧ step s label = some next ∧ rank next < rank s := by
  by_cases sleeps : ∃ (i : Nat) (holding : List Mode) (mode : Mode), s.threads[i]? = some ⟨holding,.asleep mode⟩
  · obtain ⟨i,holding,mode,found⟩ := sleeps
    exact ⟨.wake i,s.goto i ⟨holding,.woken mode⟩,⟨trivial,trivial⟩,by simp only [step,found],rank_goto found (by simp [weight])⟩
  by_cases busy : ∃ (i : Nat) (mode : Mode) (rest : List Mode), s.threads[i]? = some ⟨mode :: rest,.running⟩
  · obtain ⟨i,mode,rest,found⟩ := busy
    refine ⟨.call i (.release mode),s.release i (mode :: rest) mode .running,⟨?_,trivial⟩,by simp only [step,found],
      rank_goto (s := {s with lock := s.lock.release mode}) found (by simp [weight])⟩
    intro thread member
    cases found.symm.trans member
    exact List.mem_cons_self
  -- A thread that still holds the lock waits, as one reader among others.
  by_cases holds : ∃ (i : Nat) (thread : Thread), s.threads[i]? = some thread ∧ thread.holding ≠ []
  · obtain ⟨i,⟨holding,point⟩,found,held⟩ := holds
    have waiting := orderly.waiting i _ found
    cases point with
    | running =>
      obtain ⟨mode,rest,same⟩ := List.exists_cons_of_ne_nil held
      change holding = mode :: rest at same
      exact absurd ⟨i,mode,rest,same ▸ found⟩ busy
    | acquiring mode => exact absurd waiting held
    | asleep mode => exact absurd ⟨i,holding,mode,found⟩ sleeps
    | woken mode =>
      obtain ⟨unwritten,alone⟩ := waiting
      have reader : mode = .shared := by
        cases mode with
        | shared => rfl
        | exclusive => exact absurd (alone rfl) held
      subst reader
      obtain ⟨mode,rest,same⟩ := List.exists_cons_of_ne_nil held
      change holding = mode :: rest at same
      have reads : .shared ∈ holding := by
        cases mode with
        | shared => exact same ▸ List.mem_cons_self
        | exclusive => exact absurd (same ▸ List.mem_cons_self) unwritten
      obtain ⟨next,taken,lower⟩ := grants found (Or.inr rfl) (orderly.consistent.admits_shared found reads)
      exact ⟨.grant i,next,⟨trivial,trivial⟩,taken,lower⟩
  · have free : ∀ thread ∈ s.threads, thread.holding = [] := by
      intro thread member
      obtain ⟨i,found⟩ := List.mem_iff_getElem?.mp member
      by_contra held
      exact holds ⟨i,thread,found,held⟩
    obtain ⟨⟨holding,point⟩,member,moving⟩ : ∃ thread ∈ s.threads, thread ≠ ⟨[],.running⟩ := by
      simpa only [Quiet,not_forall,exists_prop] using loud
    obtain ⟨i,found⟩ := List.mem_iff_getElem?.mp member
    have empty : holding = [] := free _ member
    subst empty
    have admits := orderly.consistent.admits_free free
    cases point with
    | running => exact absurd rfl moving
    | asleep mode => exact absurd ⟨i,[],mode,found⟩ sleeps
    | acquiring mode =>
      obtain ⟨next,taken,lower⟩ := grants found (Or.inl rfl) (admits mode)
      exact ⟨.grant i,next,⟨trivial,trivial⟩,taken,lower⟩
    | woken mode =>
      obtain ⟨next,taken,lower⟩ := grants found (Or.inr rfl) (admits mode)
      exact ⟨.grant i,next,⟨trivial,trivial⟩,taken,lower⟩

/-- While every thread gives up only what it holds and enters holding nothing, no state is a
deadlock: from each, all waiting calls can still be granted and all holdings given up. -/
theorem locks_settle {labels : List Label} (reached : run step init labels = some s) (proper : Obeys step Proper init labels) :
    ∃ rest t, Obeys step Proper s rest ∧ run step s rest = some t ∧ Quiet t := by
  have orderly := run_invariant_obeying Orderly Proper orderly_step ⟨.init,Every.nil _⟩ proper reached
  obtain ⟨rest,t,obeyed,continued,_,quiet⟩ := run_to_goal_obeying Orderly Proper rank (fun state orderly loud => by
    obtain ⟨label,next,permitted,taken,lower⟩ := settles orderly loud
    exact ⟨label,next,permitted,taken,orderly_step state label next orderly permitted taken,lower⟩) s orderly
  exact ⟨rest,t,obeyed,continued,quiet⟩

/-- A sleeping reader, a reader and a writer that waits for both. -/
theorem locks_settle_waiting : ∃ s, run step init [.createThread,.createThread,.createThread,.call 0 readLock,.grant 0,
      .call 1 readLock,.grant 1,.call 1 (wait false),.call 2 writeLock] = some s ∧
    ∃ rest t, Obeys step Proper s rest ∧ run step s rest = some t ∧ Quiet t := by
  obtain ⟨s,reached⟩ : ∃ s, run step init [.createThread,.createThread,.createThread,.call 0 readLock,.grant 0,
      .call 1 readLock,.grant 1,.call 1 (wait false),.call 2 writeLock] = some s := ⟨_,rfl⟩
  exact ⟨s,reached,locks_settle reached (by decide)⟩

end Progress

end Ezthread.RWLock
