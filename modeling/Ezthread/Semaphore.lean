import Ezthread.Mutex
import Ezthread.Permits
import Ezthread.Transition

/-! `Semaphore` of semaphore.cpp over a kernel semaphore. `ReleaseSemaphore` adds to the
count, or leaves all as it is where that takes the count past its limit, and lets waiting
calls through while the count is not 0. -/
namespace Ezthread.Semaphore
open Transition Permits
open Mutex (DWORD ThreadException WAIT_TIMEOUT INFINITE)

inductive WaitResult
  | object0
  | timeout
  | failed
deriving DecidableEq

/-- The thread of a blocked call of `Acquire`, and its limit. -/
structure Waiter where
  thread : Nat
  timeoutMs : DWORD

/-- `calls` has the calls of `Acquire` and `TryAcquire`, those of `Acquire` coming back with
true. `releases` lists the calls of `Release`, and `holders` is none of the program: it has
an entry for each permit that a thread took and did not give back. -/
structure State where
  maxCount : Nat
  count : Nat
  calls : Calls Waiter (Except ThreadException Bool)
  releases : List (Int × Except ThreadException Unit)
  holders : List Nat

/-- `CreateSemaphore` refuses a negative count, and a limit that is not positive or below it. -/
def construct (initialCount maxCount : Int) (lastError : DWORD) : Except ThreadException State :=
  if 0 ≤ initialCount ∧ 0 < maxCount ∧ initialCount ≤ maxCount then
    .ok ⟨maxCount.toNat,initialCount.toNat,.none,[],[]⟩
  else .error ⟨"CreateSemaphore failed",lastError⟩

/-- What a wait does to the count, and its result where it does not block. -/
def waitForSingleObject (timeoutMs : DWORD) (count : Nat) : Nat × Option WaitResult :=
  if 0 < count then (count - 1,some .object0) else (count,if timeoutMs = 0 then some .timeout else none)

def acquireResult (lastError : DWORD) : WaitResult → Except ThreadException Bool
  | .object0 => .ok true
  | .timeout => .error ⟨"Semaphore acquire timeout",WAIT_TIMEOUT⟩
  | .failed => .error ⟨"WaitForSingleObject failed",lastError⟩

def tryAcquireResult (lastError : DWORD) : WaitResult → Except ThreadException Bool
  | .object0 => .ok true
  | .timeout => .ok false
  | .failed => .error ⟨"WaitForSingleObject failed",lastError⟩

def State.hold (thread : Nat) (result : WaitResult) (s : State) : State :=
  if result = .object0 then {s with holders := s.holders ++ [thread]} else s

def acquire (thread : Nat) (timeoutMs lastError : DWORD) (s : State) : State :=
  match waitForSingleObject timeoutMs s.count with
  | (count,some result) =>
      {s.hold thread result with count := count, calls := s.calls.reply (acquireResult lastError result)}
  | (count,none) => {s with count := count, calls := s.calls.block ⟨thread,timeoutMs⟩}

def tryAcquire (thread : Nat) (lastError : DWORD) (s : State) : Option State :=
  match waitForSingleObject 0 s.count with
  | (count,some result) =>
      some {s.hold thread result with count := count, calls := s.calls.reply (tryAcquireResult lastError result)}
  | (_,none) => none

/-- The waiting calls at the places of `chosen`, each among those that still wait. -/
def letThrough (lastError : DWORD) : List Nat → State → Option State
  | [],s => if s.count = 0 ∨ s.calls.waiting = [] then some s else none
  | place :: rest,s =>
      if s.count = 0 then none
      else match s.calls.waiting[place]? with
        | some call =>
            letThrough lastError rest {s with
              count := s.count - 1
              calls := s.calls.finish place call (acquireResult lastError .object0)
              holders := s.holders ++ [call.2.thread]}
        | none => none

def release (thread : Nat) (count : Int) (lastError : DWORD) (chosen : List Nat) (s : State) : Option State :=
  if 0 < count ∧ s.count + count ≤ s.maxCount then
    letThrough lastError chosen {s with
      count := s.count + count.toNat
      releases := s.releases ++ [(count,.ok ())]
      holders := give thread count.toNat s.holders}
  else some {s with releases := s.releases ++ [(count,.error ⟨"ReleaseSemaphore failed",lastError⟩)]}

/-- A blocked call reaches its limit, if it has one. -/
def expire (place : Nat) (lastError : DWORD) (s : State) : Option State :=
  match s.calls.waiting[place]? with
  | some call =>
      if call.2.timeoutMs = INFINITE then none
      else some {s with calls := s.calls.finish place call (acquireResult lastError .timeout)}
  | none => none

inductive Label
  | acquire (thread : Nat) (timeoutMs lastError : DWORD)
  | tryAcquire (thread : Nat) (lastError : DWORD)
  | release (thread : Nat) (count : Int) (lastError : DWORD) (chosen : List Nat)
  | expire (place : Nat) (lastError : DWORD)

def step (s : State) : Label → Option State
  | .acquire thread timeoutMs lastError => some (Semaphore.acquire thread timeoutMs lastError s)
  | .tryAcquire thread lastError => Semaphore.tryAcquire thread lastError s
  | .release thread count lastError chosen => Semaphore.release thread count lastError chosen s
  | .expire place lastError => Semaphore.expire place lastError s

def granted : Except ThreadException Bool → Bool
  | .ok answer => answer
  | .error _ => false

/-- The permits taken so far. -/
def State.taken (s : State) : Nat := s.calls.results.countP fun call => granted call.2

def posted : Int × Except ThreadException Unit → Nat
  | (count,.ok _) => count.toNat
  | (_,.error _) => 0

/-- The permits that the calls of `Release` have added so far. -/
def State.added (s : State) : Nat := (s.releases.map posted).sum

/-- No call waits while there is a permit, each call has come back once or waits, and every
permit is free or was taken. -/
structure Inv (initialCount : Nat) (s : State) : Prop where
  bounded : s.count ≤ s.maxCount
  served : s.count = 0 ∨ s.calls.waiting = []
  complete : s.calls.Complete
  ledger : s.count + s.taken = initialCount + s.added

variable {initialCount : Nat} {s t : State} {lastError : DWORD}

theorem taken_reply (s : State) (result : Except ThreadException Bool) :
    (s.calls.reply result).results.countP (fun call => granted call.2) = s.taken + if granted result then 1 else 0 := by
  simp [Calls.reply,State.taken]

theorem taken_finish (s : State) (place : Nat) (call : Nat × Waiter) (result : Except ThreadException Bool) :
    (s.calls.finish place call result).results.countP (fun call => granted call.2) = s.taken + if granted result then 1 else 0 := by
  simp [Calls.finish,State.taken]

theorem added_append (s : State) (count : Int) (result : Except ThreadException Unit) :
    ((s.releases ++ [(count,result)]).map posted).sum = s.added + posted (count,result) := by
  simp [State.added]

/-- What holds on and on as one call after another is let through holds once no more
can be. -/
theorem letThrough_keeps (Keeps : State → Prop) (one : ∀ (s : State) (place : Nat) (call : Nat × Waiter), 0 < s.count →
      s.calls.waiting[place]? = some call → Keeps s → Keeps {s with
        count := s.count - 1
        calls := s.calls.finish place call (acquireResult lastError .object0)
        holders := s.holders ++ [call.2.thread]})
    (chosen : List Nat) (initially : Keeps s) (through : letThrough lastError chosen s = some t) :
    Keeps t ∧ (t.count = 0 ∨ t.calls.waiting = []) := by
  induction chosen generalizing s with
  | nil =>
    simp only [letThrough] at through
    split at through
    next served =>
      cases through
      exact ⟨initially,served⟩
    next => contradiction
  | cons place rest ih =>
    simp only [letThrough] at through
    split at through
    next => contradiction
    next free =>
      split at through
      next call found => exact ih (one s place call (Nat.pos_of_ne_zero free) found initially) through
      next => contradiction

theorem letThrough_inv (chosen : List Nat) (bounded : s.count ≤ s.maxCount) (complete : s.calls.Complete)
    (ledger : s.count + s.taken = initialCount + s.added) (through : letThrough lastError chosen s = some t) :
    Inv initialCount t := by
  have kept := letThrough_keeps
    (fun s => s.count ≤ s.maxCount ∧ s.calls.Complete ∧ s.count + s.taken = initialCount + s.added) ?_ chosen
    ⟨bounded,complete,ledger⟩ through
  · obtain ⟨⟨bounded,complete,ledger⟩,served⟩ := kept
    exact ⟨bounded,served,complete,ledger⟩
  · intro s place call free found kept
    obtain ⟨bounded,complete,ledger⟩ := kept
    have grants : State.taken {s with calls := s.calls.finish place call (acquireResult lastError .object0)} = s.taken + 1 :=
      taken_finish s place call _
    have counted : s.count - 1 + (s.taken + 1) = initialCount + s.added := by omega
    exact ⟨(Nat.sub_le _ _).trans bounded,complete.finish found _,grants ▸ counted⟩

theorem Inv.take {result : Except ThreadException Bool} (inv : Inv initialCount s) (free : 0 < s.count)
    (grants : granted result = true) (holders : List Nat) :
    Inv initialCount {s with count := s.count - 1, calls := s.calls.reply result, holders := holders} := by
  have counted := taken_reply s result
  have ledger := inv.ledger
  rw [grants,if_pos rfl] at counted
  exact ⟨(Nat.sub_le _ _).trans inv.bounded,Or.inr (inv.served.resolve_left (Nat.ne_of_gt free)),inv.complete.reply _,by
    rw [State.taken,counted]
    exact (by omega : s.count - 1 + (s.taken + 1) = initialCount + s.added)⟩

theorem Inv.refuse {result : Except ThreadException Bool} (inv : Inv initialCount s) (refused : granted result = false) :
    Inv initialCount {s with calls := s.calls.reply result} := by
  have counted := taken_reply s result
  rw [refused,if_neg Bool.false_ne_true] at counted
  exact ⟨inv.bounded,inv.served,inv.complete.reply _,by
    rw [State.taken,counted]
    exact inv.ledger⟩

theorem inv_step {label : Label} (inv : Inv initialCount s) (taken : step s label = some t) : Inv initialCount t := by
  cases label with
  | acquire thread timeoutMs lastError =>
    cases taken
    unfold acquire waitForSingleObject
    by_cases free : 0 < s.count
    · rw [if_pos free]
      exact inv.take free rfl _
    · rw [if_neg free]
      by_cases limited : timeoutMs = 0
      · rw [if_pos limited]
        exact inv.refuse rfl
      · rw [if_neg limited]
        exact ⟨inv.bounded,Or.inl (Nat.eq_zero_of_not_pos free),inv.complete.block _,inv.ledger⟩
  | tryAcquire thread lastError =>
    simp only [step,tryAcquire,waitForSingleObject] at taken
    by_cases free : 0 < s.count
    · rw [if_pos free] at taken
      cases taken
      exact inv.take free rfl _
    · rw [if_neg free] at taken
      cases taken
      exact inv.refuse rfl
  | release thread count lastError chosen =>
    simp only [step,release] at taken
    split at taken
    next fits =>
      obtain ⟨positive,room⟩ := fits
      refine letThrough_inv chosen ?_ ?_ ?_ taken
      · have bound : s.count + count.toNat ≤ s.maxCount := by omega
        exact bound
      · exact inv.complete
      · have posts := added_append s count (.ok ())
        have ledger := inv.ledger
        rw [State.added,posts]
        exact (by simp only [posted]; omega : s.count + count.toNat + s.taken = initialCount + (s.added + posted (count,.ok ())))
    next =>
      cases taken
      have posts := added_append s count (.error ⟨"ReleaseSemaphore failed",lastError⟩)
      exact ⟨inv.bounded,inv.served,inv.complete,by
        rw [State.added,posts]
        exact inv.ledger⟩
  | expire place lastError =>
    simp only [step,expire] at taken
    split at taken
    next call found =>
      split at taken
      next => contradiction
      next =>
        cases taken
        have counted := taken_finish s place call (acquireResult lastError .timeout)
        have waiters : s.calls.waiting ≠ [] := by
          intro none
          simp [none] at found
        exact ⟨inv.bounded,Or.inl (inv.served.resolve_right waiters),inv.complete.finish found _,by
          rw [State.taken,counted]
          exact inv.ledger⟩
    next => contradiction

theorem inv_construct {initial maxCount : Int} (built : construct initial maxCount lastError = .ok s) :
    Inv initial.toNat s ∧ s.count = initial.toNat ∧ s.holders = [] ∧ s.maxCount = maxCount := by
  unfold construct at built
  split at built
  next fits =>
    cases built
    exact ⟨⟨by simp only; omega,Or.inr rfl,Calls.none_complete,rfl⟩,rfl,rfl,Int.toNat_of_nonneg fits.2.1.le⟩
  next => contradiction

theorem letThrough_maxCount (chosen : List Nat) (through : letThrough lastError chosen s = some t) : t.maxCount = s.maxCount :=
  (letThrough_keeps (fun u => u.maxCount = s.maxCount) (fun _ _ _ _ _ same => same) chosen rfl through).1

theorem step_maxCount {label : Label} (taken : step s label = some t) : t.maxCount = s.maxCount := by
  cases label with
  | acquire thread timeoutMs lastError =>
    cases taken
    unfold acquire State.hold
    grind
  | tryAcquire thread lastError =>
    simp only [step,tryAcquire,State.hold] at taken
    grind
  | release thread count lastError chosen =>
    simp only [step,release] at taken
    split at taken
    next => exact (letThrough_maxCount chosen taken).trans rfl
    next => cases taken; rfl
  | expire place lastError =>
    simp only [step,expire] at taken
    grind

/-- What `ReleaseSemaphore` refuses is recorded as thrown, and nothing else. -/
theorem release_refused {thread : Nat} {count : Int} (refused : count ≤ 0 ∨ s.maxCount < s.count + count) (chosen : List Nat) :
    step s (.release thread count lastError chosen) =
      some {s with releases := s.releases ++ [(count,.error ⟨"ReleaseSemaphore failed",lastError⟩)]} :=
  if_neg fun fits => by omega

/-- A semaphore never has more permits than its limit, no call waits while there is one, each call waits or
has come back once, and the permits free and taken are those it was made with and those added. A `Release`
past the limit that the semaphore was made with fails and changes nothing. -/
theorem permits_accounted {initial maxCount : Int} {labels : List Label} (built : construct initial maxCount lastError = .ok s)
    (reached : run step s labels = some t) :
    Inv initial.toNat t ∧ ∀ thread count lastError chosen, count ≤ 0 ∨ maxCount < t.count + count →
      step t (.release thread count lastError chosen) =
        some {t with releases := t.releases ++ [(count,.error ⟨"ReleaseSemaphore failed",lastError⟩)]} := by
  have limit : t.maxCount = s.maxCount :=
    run_invariant (fun u => u.maxCount = s.maxCount) (fun _ _ _ same taken => (step_maxCount taken).trans same) rfl reached
  obtain ⟨initially,made⟩ := inv_construct built
  refine ⟨run_invariant (Inv initial.toNat) (fun _ _ _ inv taken => inv_step inv taken) initially reached,?_⟩
  intro thread count lastError chosen past
  exact release_refused (past.imp_right fun beyond => by omega) chosen

/-- The consumers wait and are let through in another order than they came. -/
def consumers : List Label :=
  [.acquire 1 INFINITE 0,.acquire 2 INFINITE 0,.acquire 3 INFINITE 0,.release 0 1 0 [1],.release 0 2 0 [1,0],.release 0 11 298 []]

theorem permits_accounted_consumers : ∃ s t, construct 0 10 0 = .ok s ∧ run step s consumers = some t ∧
    t.calls.results.map Prod.fst = [1,2,0] ∧ t.added = 3 ∧ Inv 0 t ∧
    step t (.release 0 11 298 []) = some {t with releases := t.releases ++ [(11,.error ⟨"ReleaseSemaphore failed",298⟩)]} := by
  obtain ⟨s,built⟩ : ∃ s, construct 0 10 0 = .ok s := ⟨_,rfl⟩
  obtain ⟨t,reached,results,added⟩ : ∃ t, run step s consumers = some t ∧ t.calls.results.map Prod.fst = [1,2,0] ∧ t.added = 3 := by
    cases built
    exact ⟨_,rfl,rfl,rfl⟩
  obtain ⟨accounted,refused⟩ := permits_accounted built reached
  exact ⟨s,t,built,reached,results,added,accounted,refused 0 11 298 [] (.inr (by omega))⟩

/-- A thread gives back no more permits than it holds. -/
def Covered (s : State) : Label → Prop
  | .release thread count _ _ => 0 < count ∧ s.count + count ≤ s.maxCount → count.toNat ≤ s.holders.count thread
  | _ => True

instance (s : State) : (label : Label) → Decidable (Covered s label)
  | .release thread count _ _ =>
      inferInstanceAs (Decidable (0 < count ∧ s.count + count ≤ s.maxCount → count.toNat ≤ s.holders.count thread))
  | .acquire _ _ _ | .tryAcquire _ _ | .expire _ _ => inferInstanceAs (Decidable True)

def State.spread (s : State) : Nat := s.count + s.holders.length

theorem letThrough_spread (chosen : List Nat) (through : letThrough lastError chosen s = some t) : t.spread = s.spread := by
  refine (letThrough_keeps (fun u => u.spread = s.spread) (fun u place call free _ same => ?_) chosen rfl through).1
  simp only [State.spread,List.length_append,List.length_singleton] at same ⊢
  omega

theorem take_spread {thread : Nat} (free : 0 < s.count) (calls : Calls Waiter (Except ThreadException Bool)) :
    State.spread {s with count := s.count - 1, calls := calls, holders := s.holders ++ [thread]} = s.spread := by
  simp only [State.spread,List.length_append,List.length_singleton]
  omega

/-- Only giving back more than the thread holds changes how many permits there are, free and held. -/
theorem step_spread {label : Label} (taken : step s label = some t) :
    s.spread ≤ t.spread ∧ (t.spread = s.spread ↔ Covered s label) := by
  have same (kept : t.spread = s.spread) (covered : Covered s label) :
      s.spread ≤ t.spread ∧ (t.spread = s.spread ↔ Covered s label) :=
    ⟨kept.ge,fun _ => covered,fun _ => kept⟩
  cases label with
  | acquire thread timeoutMs lastError =>
    refine same ?_ trivial
    cases taken
    unfold acquire waitForSingleObject
    by_cases free : 0 < s.count
    · rw [if_pos free]
      exact take_spread free _
    · rw [if_neg free]
      by_cases limited : timeoutMs = 0
      · rw [if_pos limited]
        rfl
      · rw [if_neg limited]
        rfl
  | tryAcquire thread lastError =>
    refine same ?_ trivial
    simp only [step,tryAcquire,waitForSingleObject] at taken
    by_cases free : 0 < s.count
    · rw [if_pos free] at taken
      cases taken
      exact take_spread free _
    · rw [if_neg free] at taken
      cases taken
      rfl
  | release thread count lastError chosen =>
    simp only [step,release] at taken
    split at taken
    next fits =>
      have spread := letThrough_spread chosen taken
      have fewer := give_length thread count.toNat s.holders
      have balance := give_balance_iff thread count.toNat s.holders s.count
      have covered : Covered s (.release thread count lastError chosen) ↔ count.toNat ≤ s.holders.count thread :=
        ⟨fun given => given fits,fun given _ => given⟩
      rw [covered,← balance]
      simp only [State.spread] at spread ⊢
      omega
    next misfits =>
      cases taken
      exact same rfl fun fits => absurd fits misfits
  | expire place lastError =>
    refine same ?_ trivial
    simp only [step,expire] at taken
    split at taken
    next call found =>
      split at taken
      next => contradiction
      next => cases taken; rfl
    next => contradiction

/-- All along a run the permits free and held are those the semaphore was made with, so that never more
than these are held, if and only if each thread gives back only what it holds. -/
theorem held_iff_covered {initial maxCount : Int} {labels : List Label} (built : construct initial maxCount lastError = .ok s)
    (reached : run step s labels = some t) :
    Along step (fun state => state.count + state.holders.length = initial.toNat) s labels ↔ Obeys step Covered s labels := by
  obtain ⟨_,count,holders,_⟩ := inv_construct built
  have first : s.spread = initial.toNat := by
    rw [State.spread,count,holders]
    rfl
  have preserved (state : State) (label : Label) (next : State) (balanced : state.spread = initial.toNat)
      (covered : Covered state label) (taken : step state label = some next) : next.spread = initial.toNat :=
    ((step_spread taken).2.mpr covered).trans balanced
  have breach (state : State) (label : Label) (next : State) (balanced : state.spread = initial.toNat)
      (uncovered : ¬ Covered state label) (taken : step state label = some next) : ¬ next.spread = initial.toNat :=
    fun kept => uncovered ((step_spread taken).2.mp (kept.trans balanced.symm))
  exact along_iff_obeys preserved (fun _ balanced => balanced) breach first reached

theorem held_iff_covered_pair : ∃ s t, construct 1 4 0 = .ok s ∧ run step s [.acquire 7 0 0,.release 7 1 0 [],.tryAcquire 8 0] = some t ∧
    Along step (fun state => state.count + state.holders.length = 1) s [.acquire 7 0 0,.release 7 1 0 [],.tryAcquire 8 0] := by
  obtain ⟨s,built⟩ : ∃ s, construct 1 4 0 = .ok s := ⟨_,rfl⟩
  obtain ⟨t,reached,covered⟩ : ∃ t, run step s [.acquire 7 0 0,.release 7 1 0 [],.tryAcquire 8 0] = some t ∧
      Obeys step Covered s [.acquire 7 0 0,.release 7 1 0 [],.tryAcquire 8 0] := by
    cases built
    exact ⟨_,rfl,by decide⟩
  exact ⟨s,t,built,reached,(held_iff_covered built reached).mpr covered⟩

/-- Two threads hold the one permit after a third gave back what it never took. -/
example : ((construct 1 4 0).toOption.bind fun s => run step s [.acquire 7 0 0,.release 9 1 0 [],.acquire 8 0 0]).map
    (fun t => (t.holders,t.count)) = some ([7,8],0) := by decide

end Ezthread.Semaphore
