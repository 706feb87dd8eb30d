import Ezthread.Activation
import Ezthread.Transition

/-! `Mutex` of mutex.cpp over a kernel mutex. `WaitForSingleObject` grants the mutex
on `WAIT_OBJECT_0` and, when its owner has exited, on `WAIT_ABANDONED`;
`ReleaseMutex` fails for a thread that does not own it. -/
namespace Ezthread.Mutex
open Transition Activation

abbrev DWORD := BitVec 32

structure ThreadException where
  message : String
  errorCode : DWORD

inductive WaitResult
  | object0
  | abandoned
  | timeout
  | failed
deriving DecidableEq

def WAIT_ABANDONED : DWORD := 0x80
def WAIT_TIMEOUT : DWORD := 0x102
def INFINITE : DWORD := 0xFFFFFFFF

/-- The kernel's mutex: free, perhaps abandoned, or owned with so many recursive
acquisitions more than one. -/
inductive Kernel
  | free (abandoned : Bool)
  | owned (thread more : Nat)
deriving DecidableEq

def Kernel.recursion (i : Nat) : Kernel → Nat
  | .free _ => 0
  | .owned thread more => if thread = i then more + 1 else 0

def Kernel.acquire (i : Nat) : Kernel → Option (Kernel × WaitResult)
  | .free abandoned => some (.owned i 0,if abandoned then .abandoned else .object0)
  | .owned thread more => if thread = i then some (.owned i (more + 1),.object0) else none

def Kernel.release (i : Nat) : Kernel → Option Kernel
  | .free _ => none
  | .owned thread 0 => if thread = i then some (.free false) else none
  | .owned thread (more + 1) => if thread = i then some (.owned i more) else none

def Kernel.exit (i : Nat) : Kernel → Kernel
  | .free abandoned => .free abandoned
  | .owned thread more => if thread = i then .free true else .owned thread more

/-- `lastError` is what `GetLastError` returns, the default code of an exception. -/
def lock (result : WaitResult) (lastError : DWORD) : Except ThreadException Unit :=
  if result ≠ .object0 then
    if result = .timeout then .error ⟨"Mutex lock timeout",WAIT_TIMEOUT⟩
    else if result = .abandoned then .error ⟨"Mutex was abandoned",WAIT_ABANDONED⟩
    else .error ⟨"WaitForSingleObject failed",lastError⟩
  else .ok ()

def tryLock (result : WaitResult) (lastError : DWORD) : Except ThreadException Bool :=
  if result = .object0 then .ok true
  else if result = .timeout then .ok false
  else .error ⟨"WaitForSingleObject failed",lastError⟩

def unlock (released : Bool) (lastError : DWORD) : Except ThreadException Unit :=
  if !released then .error ⟨"ReleaseMutex failed",lastError⟩ else .ok ()

inductive Operation
  | lock (timeoutMs : DWORD)
  | tryLock

def Operation.timeoutMs : Operation → DWORD
  | .lock timeoutMs => timeoutMs
  | .tryLock => 0

/-- What a call reports, with true for a `Lock` that returns. -/
def Operation.report (result : WaitResult) (lastError : DWORD) : Operation → Except ThreadException Bool
  | .lock _ => (Mutex.lock result lastError).map fun _ => true
  | .tryLock => Mutex.tryLock result lastError

inductive Point
  | idle
  | waiting (operation : Operation)
  | exited

/-- `taken` counts the calls of `Lock` and `TryLock` that reported success, and with
them the construction that gave the mutex to its creator; `released` counts the
calls of `Unlock` that did. -/
structure Account where
  taken : Nat
  released : Nat
  report : Option (Except ThreadException Bool)

structure Thread where
  point : Point
  account : Account

structure State where
  kernel : Kernel
  threads : List Thread

/-- The first thread constructs the mutex. -/
def init (initiallyOwned : Bool) : State :=
  if initiallyOwned then ⟨.owned 0 0,[⟨.idle,1,0,none⟩]⟩ else ⟨.free false,[⟨.idle,0,0,none⟩]⟩

/-- `signal`, `timeout` and `fail` are the ends of `WaitForSingleObject`; a thread that
exits may have been terminated while it waited. -/
inductive Label
  | spawn
  | call (i : Nat) (operation : Operation)
  | signal (i : Nat) (lastError : DWORD)
  | timeout (i : Nat) (lastError : DWORD)
  | fail (i : Nat) (lastError : DWORD)
  | unlock (i : Nat) (lastError : DWORD)
  | exit (i : Nat)

def State.goto (s : State) (i : Nat) (kernel : Kernel) (thread : Thread) : State :=
  ⟨kernel,s.threads.set i thread⟩

def success : Except ThreadException Bool → Bool
  | .ok value => value
  | .error _ => false

def Account.returns (account : Account) (report : Except ThreadException Bool) : Account :=
  {account with taken := account.taken + (success report).toNat, report := some report}

def Account.unlocks (account : Account) (released : Bool) (lastError : DWORD) : Account :=
  let report := (unlock released lastError).map fun _ => true
  {account with released := account.released + (success report).toNat, report := some report}

def step (s : State) : Label → Option State
  | .spawn => some {s with threads := s.threads ++ [⟨.idle,0,0,none⟩]}
  | .call i operation =>
      match s.threads[i]? with
      | some ⟨.idle,account⟩ => some (s.goto i s.kernel ⟨.waiting operation,account⟩)
      | _ => none
  | .signal i lastError =>
      match s.threads[i]? with
      | some ⟨.waiting operation,account⟩ => (s.kernel.acquire i).map fun granted =>
          s.goto i granted.1 ⟨.idle,account.returns (operation.report granted.2 lastError)⟩
      | _ => none
  | .timeout i lastError =>
      match s.threads[i]? with
      | some ⟨.waiting operation,account⟩ =>
          if operation.timeoutMs ≠ INFINITE ∧ s.kernel.acquire i = none then
            some (s.goto i s.kernel ⟨.idle,account.returns (operation.report .timeout lastError)⟩)
          else none
      | _ => none
  | .fail i lastError =>
      match s.threads[i]? with
      | some ⟨.waiting operation,account⟩ =>
          some (s.goto i s.kernel ⟨.idle,account.returns (operation.report .failed lastError)⟩)
      | _ => none
  | .unlock i lastError =>
      match s.threads[i]? with
      | some ⟨.idle,account⟩ =>
          let after := s.kernel.release i
          some (s.goto i (after.getD s.kernel) ⟨.idle,account.unlocks after.isSome lastError⟩)
      | _ => none
  | .exit i =>
      match s.threads[i]? with
      | some ⟨.idle,account⟩ | some ⟨.waiting _,account⟩ => some (s.goto i (s.kernel.exit i) ⟨.exited,account⟩)
      | _ => none

inductive Moves (s : State) : Label → State → Prop
  | spawn : Moves s .spawn {s with threads := s.threads ++ [⟨.idle,0,0,none⟩]}
  | call (i operation account) (found : s.threads[i]? = some ⟨.idle,account⟩) :
      Moves s (.call i operation) (s.goto i s.kernel ⟨.waiting operation,account⟩)
  | signal (i lastError operation account kernel result) (found : s.threads[i]? = some ⟨.waiting operation,account⟩)
      (acquired : s.kernel.acquire i = some (kernel,result)) :
      Moves s (.signal i lastError) (s.goto i kernel ⟨.idle,account.returns (operation.report result lastError)⟩)
  | timeout (i lastError operation account) (found : s.threads[i]? = some ⟨.waiting operation,account⟩) :
      Moves s (.timeout i lastError) (s.goto i s.kernel ⟨.idle,account.returns (operation.report .timeout lastError)⟩)
  | fail (i lastError operation account) (found : s.threads[i]? = some ⟨.waiting operation,account⟩) :
      Moves s (.fail i lastError) (s.goto i s.kernel ⟨.idle,account.returns (operation.report .failed lastError)⟩)
  | unlock (i lastError account) (found : s.threads[i]? = some ⟨.idle,account⟩) :
      Moves s (.unlock i lastError) (s.goto i ((s.kernel.release i).getD s.kernel)
        ⟨.idle,account.unlocks (s.kernel.release i).isSome lastError⟩)
  | exit (i point account) (found : s.threads[i]? = some ⟨point,account⟩) :
      Moves s (.exit i) (s.goto i (s.kernel.exit i) ⟨.exited,account⟩)

theorem step_moves (s : State) (label : Label) (t : State) (taken : step s label = some t) : Moves s label t := by
  cases label with
  | spawn =>
    cases taken
    exact .spawn
  | call i operation =>
    simp only [step] at taken
    split at taken
    next account found =>
      cases taken
      exact .call i operation account found
    next => contradiction
  | signal i lastError =>
    simp only [step] at taken
    split at taken
    next operation account found =>
      obtain ⟨⟨kernel,result⟩,acquired,rfl⟩ := Option.map_eq_some_iff.mp taken
      exact .signal i lastError operation account kernel result found acquired
    next => contradiction
  | timeout i lastError =>
    simp only [step] at taken
    split at taken
    next operation account found =>
      split at taken
      next =>
        cases taken
        exact .timeout i lastError operation account found
      next => contradiction
    next => contradiction
  | fail i lastError =>
    simp only [step] at taken
    split at taken
    next operation account found =>
      cases taken
      exact .fail i lastError operation account found
    next => contradiction
  | unlock i lastError =>
    simp only [step] at taken
    split at taken
    next account found =>
      cases taken
      exact .unlock i lastError account found
    next => contradiction
  | exit i =>
    simp only [step] at taken
    split at taken
    next account found =>
      cases taken
      exact .exit i .idle account found
    next operation account found =>
      cases taken
      exact .exit i (.waiting operation) account found
    next => contradiction

def Even (kernel : Kernel) (i : Nat) (thread : Thread) : Prop :=
  thread.point ≠ .exited → kernel.recursion i + thread.account.released = thread.account.taken

/-- A live thread owns the mutex as often as its calls say. -/
def Balanced (s : State) : Prop := Every (Even s.kernel) s.threads

/-- A call of `Lock` or `TryLock` that throws or returns false leaves the kernel's
mutex as it was. -/
def Keeps (s : State) (label : Label) : Prop :=
  ∀ (t : State) (i : Nat) (operation : Operation) (before after : Account) (report : Except ThreadException Bool),
    step s label = some t → s.threads[i]? = some ⟨.waiting operation,before⟩ → t.threads[i]? = some ⟨.idle,after⟩ →
    after.report = some report → success report = false → t.kernel = s.kernel

/-- No call is granted the mutex while it is abandoned. -/
def Unabandoned (s : State) (label : Label) : Prop :=
  ∀ (i : Nat) (lastError : DWORD) (operation : Operation) (account : Account), label = .signal i lastError →
    s.threads[i]? = some ⟨.waiting operation,account⟩ → s.kernel ≠ .free true

theorem report_success (operation : Operation) (result : WaitResult) (lastError : DWORD) :
    success (operation.report result lastError) = (result == .object0) := by
  cases operation <;> cases result <;> rfl

theorem unlocks_released (account : Account) (released : Bool) (lastError : DWORD) :
    (account.unlocks released lastError).released = account.released + released.toNat := by
  cases released <;> rfl

/-- An acquisition adds one to its thread's count and touches no other, and reports
success unless the mutex was abandoned. -/
theorem acquire_recursion {i : Nat} {kernel after : Kernel} {result : WaitResult}
    (acquired : kernel.acquire i = some (after,result)) :
    after.recursion i = kernel.recursion i + 1 ∧ (∀ j, j ≠ i → after.recursion j = kernel.recursion j) ∧
      (∃ more, after = .owned i more) ∧ (result = .object0 ↔ kernel ≠ .free true) := by
  cases kernel with
  | free abandoned =>
    cases acquired
    refine ⟨if_pos rfl,fun j other => if_neg (Ne.symm other),⟨0,rfl⟩,?_⟩
    cases abandoned <;> simp
  | owned thread more =>
    by_cases own : thread = i
    · subst own
      simp only [Kernel.acquire] at acquired
      cases acquired
      refine ⟨?_,fun j other => ?_,⟨more + 1,rfl⟩,by simp⟩
      · simp [Kernel.recursion]
      · simp [Kernel.recursion,Ne.symm other]
    · simp [Kernel.acquire,own] at acquired

theorem release_recursion (i : Nat) (kernel : Kernel) :
    ((kernel.release i).getD kernel).recursion i + (kernel.release i).isSome.toNat = kernel.recursion i ∧
      ∀ j, j ≠ i → ((kernel.release i).getD kernel).recursion j = kernel.recursion j := by
  cases kernel with
  | free abandoned => exact ⟨rfl,fun _ _ => rfl⟩
  | owned thread more =>
    by_cases own : thread = i
    · subst own
      cases more with
      | zero => exact ⟨by simp [Kernel.release,Kernel.recursion],fun j other => by
          simp [Kernel.release,Kernel.recursion,Ne.symm other]⟩
      | succ more => exact ⟨by simp [Kernel.release,Kernel.recursion],fun j other => by
          simp [Kernel.release,Kernel.recursion,Ne.symm other]⟩
    · cases more <;> simp [Kernel.release,own]

theorem exit_recursion {i : Nat} (kernel : Kernel) (j : Nat) (other : j ≠ i) :
    (kernel.exit i).recursion j = kernel.recursion j := by
  cases kernel with
  | free abandoned => rfl
  | owned thread more =>
    by_cases own : thread = i
    · subst own
      simp [Kernel.exit,Kernel.recursion,Ne.symm other]
    · simp [Kernel.exit,own]

/-- The kernel knows no threads but those there are. -/
def Known (s : State) : Prop := ∀ j, s.threads.length ≤ j → s.kernel.recursion j = 0

structure Inv (s : State) : Prop where
  balanced : Balanced s
  known : Known s

theorem inv_goto {s : State} {i : Nat} {kernel : Kernel} {before after : Thread} (inv : Inv s)
    (found : s.threads[i]? = some before) (others : ∀ j, j ≠ i → kernel.recursion j = s.kernel.recursion j)
    (own : Even kernel i after) : Inv (s.goto i kernel after) := by
  constructor
  · intro j thread present
    rcases get_set present with ⟨rfl,rfl⟩ | ⟨other,kept⟩
    · exact own
    · intro live
      change kernel.recursion j + thread.account.released = thread.account.taken
      rw [others j other]
      exact inv.balanced j thread kept live
  · intro j outside
    have inside := get_lt found
    simp only [State.goto,List.length_set] at outside
    change kernel.recursion j = 0
    rw [others j (by omega)]
    exact inv.known j outside

theorem inv_init (initiallyOwned : Bool) : Inv (init initiallyOwned) := by
  constructor
  · intro j thread found live
    cases j with
    | zero => cases initiallyOwned <;> cases found <;> rfl
    | succ j => cases initiallyOwned <;> simp [init] at found
  · intro j outside
    cases initiallyOwned with
    | true =>
      have positive : 1 ≤ j := outside
      exact if_neg (by omega)
    | false => rfl

theorem inv_step (s : State) (label : Label) (t : State) (inv : Inv s) (obeyed : Unabandoned s label)
    (taken : step s label = some t) : Inv t := by
  cases step_moves s label t taken with
  | spawn =>
    refine ⟨inv.balanced.append fun _ => inv.known _ (Nat.le_refl _),fun j outside => ?_⟩
    simp only [List.length_append,List.length_singleton] at outside
    exact inv.known j (by omega)
  | call i operation account found =>
    have even := inv.balanced i _ found (by simp)
    exact inv_goto inv found (fun _ _ => rfl) fun _ => even
  | signal i lastError operation account kernel result found acquired =>
    obtain ⟨own,others,_,reported⟩ := acquire_recursion acquired
    refine inv_goto inv found others fun _ => ?_
    have even := inv.balanced i _ found (by simp)
    have granted := reported.mpr (obeyed i lastError operation account rfl found)
    subst granted
    simp only [Account.returns,report_success]
    simp only at even
    rw [own]
    change _ = account.taken + 1
    omega
  | timeout i lastError operation account found =>
    refine inv_goto inv found (fun _ _ => rfl) fun _ => ?_
    simp only [Account.returns,report_success]
    exact inv.balanced i _ found (by simp)
  | fail i lastError operation account found =>
    refine inv_goto inv found (fun _ _ => rfl) fun _ => ?_
    simp only [Account.returns,report_success]
    exact inv.balanced i _ found (by simp)
  | unlock i lastError account found =>
    obtain ⟨own,others⟩ := release_recursion i s.kernel
    refine inv_goto inv found others fun _ => ?_
    have even := inv.balanced i _ found (by simp)
    have same : (account.unlocks (s.kernel.release i).isSome lastError).taken = account.taken := rfl
    simp only [unlocks_released,same]
    simp only at even
    omega
  | exit i point account found =>
    exact inv_goto inv found (fun j other => exit_recursion s.kernel j other) fun live => absurd rfl live

theorem spoiled (s : State) (label : Label) (t : State) (inv : Inv s) (broken : ¬ Unabandoned s label)
    (taken : step s label = some t) : ¬ Balanced t := by
  intro balanced
  refine broken fun i lastError operation account same found abandoned => ?_
  subst same
  have even := inv.balanced i _ found (by simp)
  have granted : t = s.goto i (.owned i 0) ⟨.idle,account.returns (operation.report .abandoned lastError)⟩ := by
    simp only [step,found,abandoned] at taken
    exact (Option.some.inj taken).symm
  subst granted
  have later := balanced i _ (get_self found) (by simp)
  simp only [abandoned,Kernel.recursion] at even
  simp only [State.goto,Account.returns,report_success,Kernel.recursion,reduceIte] at later
  have refused : (WaitResult.abandoned == .object0).toNat = 0 := rfl
  omega

theorem keeps_iff (s : State) (label : Label) : Keeps s label ↔ Unabandoned s label := by
  constructor
  · intro keeps i lastError operation account same found abandoned
    subst same
    have taken : step s (.signal i lastError) =
        some (s.goto i (.owned i 0) ⟨.idle,account.returns (operation.report .abandoned lastError)⟩) := by
      simp only [step,found,abandoned]
      rfl
    have kept := keeps _ i operation account _ _ taken found (get_self found) rfl (report_success ..)
    rw [abandoned] at kept
    cases kept
  · intro obeyed t i operation before after report taken found present reported failed
    have other {j : Nat} {kernel : Kernel} {point : Point} {account old : Account}
        (moved : s.threads[j]? = some ⟨point,old⟩) (stayed : point = .idle)
        (placed : (s.goto j kernel ⟨.idle,account⟩).threads[i]? = some ⟨.idle,after⟩) : False := by
      rcases get_set placed with ⟨rfl,_⟩ | ⟨_,kept⟩
      · cases stayed
        cases moved.symm.trans found
      · cases kept.symm.trans found
    cases step_moves s label t taken with
    | spawn => rfl
    | call j next account moved => rfl
    | signal j lastError own account kernel result moved acquired =>
      rcases get_set present with ⟨rfl,same⟩ | ⟨_,kept⟩
      · cases same
        cases reported
        rw [report_success] at failed
        have granted := (acquire_recursion acquired).2.2.2.mpr (obeyed i lastError own account rfl moved)
        subst granted
        contradiction
      · cases kept.symm.trans found
    | timeout j lastError own account moved => rfl
    | fail j lastError own account moved => rfl
    | unlock j lastError account moved => exact (other moved rfl present).elim
    | exit j point account moved =>
      rcases get_set present with ⟨_,same⟩ | ⟨_,kept⟩
      · cases same
      · cases kept.symm.trans found

/-- Every live thread owns the mutex as often as its calls report, and no call that
fails changes the owner, if and only if no call is granted an abandoned mutex. -/
theorem ownership_iff_unabandoned {initiallyOwned : Bool} {labels : List Label} {s : State}
    (reached : run step (init initiallyOwned) labels = some s) :
    (Along step Balanced (init initiallyOwned) labels ↔ Obeys step Unabandoned (init initiallyOwned) labels) ∧
    (Obeys step Keeps (init initiallyOwned) labels ↔ Obeys step Unabandoned (init initiallyOwned) labels) := by
  constructor
  · exact along_iff_obeys inv_step (fun _ inv => inv.balanced) spoiled (inv_init initiallyOwned) reached
  · exact obeys_congr (fun _ => True) (fun _ _ _ _ _ => trivial) (fun s label _ => keeps_iff s label) trivial

/-- A creator that exits while it owns the mutex leaves it abandoned. -/
theorem ownership_iff_unabandoned_exit :
    ∃ s, run step (init true) [.spawn,.call 1 .tryLock,.timeout 1 0,.exit 0,.call 1 (.lock INFINITE),.fail 1 6] = some s ∧
      Along step Balanced (init true) [.spawn,.call 1 .tryLock,.timeout 1 0,.exit 0,.call 1 (.lock INFINITE),.fail 1 6] := by
  obtain ⟨s,reached,_⟩ := Option.map_eq_some_iff.mp (show (run step (init true)
    [.spawn,.call 1 .tryLock,.timeout 1 0,.exit 0,.call 1 (.lock INFINITE),.fail 1 6]).map
      (fun s => s.kernel) = some (.free true) from rfl)
  exact ⟨s,reached,(ownership_iff_unabandoned reached).1.mpr
    (obeys_of_labels (by simp [Unabandoned]) (init true))⟩

/-- Whichever call finds the mutex abandoned throws, and its thread owns the mutex
from then on. -/
theorem abandoned_owned :
    (∃ s, run step (init false) [.call 0 .tryLock,.signal 0 0,.exit 0,.spawn,.call 1 (.lock INFINITE),.signal 1 0] = some s ∧
      s.kernel = .owned 1 0 ∧
      s.threads[1]? = some ⟨.idle,0,0,some (.error ⟨"Mutex was abandoned",WAIT_ABANDONED⟩)⟩ ∧ ¬ Balanced s) ∧
    ∃ s, run step (init false) [.call 0 .tryLock,.signal 0 0,.exit 0,.spawn,.call 1 .tryLock,.signal 1 0] = some s ∧
      s.kernel = .owned 1 0 ∧
      s.threads[1]? = some ⟨.idle,0,0,some (.error ⟨"WaitForSingleObject failed",0⟩)⟩ ∧ ¬ Balanced s := by
  constructor
  · refine ⟨_,rfl,rfl,rfl,fun balanced => ?_⟩
    exact absurd (balanced 1 _ rfl (by simp)) (by decide)
  · refine ⟨_,rfl,rfl,rfl,fun balanced => ?_⟩
    exact absurd (balanced 1 _ rfl (by simp)) (by decide)

end Ezthread.Mutex
