import Ezthread.Event
import Ezthread.Permits

/-! What becomes of the signals of an `Event`: which calls are let through, and how many
for each `Set`. -/
namespace Ezthread.Event
open Transition Permits

def State.calls (s : State) : Calls DWORD (Except String Bool) := ⟨s.waiting,s.begun,s.waits⟩

def through : Except String Bool → Bool
  | .ok answer => answer
  | .error _ => false

/-- The calls of `Wait` and `IsSignaled` that found the event signaled. -/
def State.taken (s : State) : Nat := s.waits.countP (fun call => through call.2) + s.queries.countP through

def State.signals (s : State) : Nat := s.taken + if s.signaled then 1 else 0

def Label.sets : Label → Nat
  | .set _ => 1
  | .reset | .wait _ | .expire _ | .isSignaled => 0

/-- An event that is still signaled is neither set again nor reset. -/
def Spent (s : State) : Label → Prop
  | .set _ | .reset => s.signaled = false
  | .wait _ | .expire _ | .isSignaled => True

/-- No call waits for an event that is signaled, and each call waits or has come back once. -/
structure Served (s : State) : Prop where
  quiet : s.signaled = true → s.waiting = []
  complete : s.calls.Complete

variable {type : EventType} {s t : State}

theorem served_init (initiallySignaled : Bool) : Served (init initiallySignaled) := ⟨fun _ => rfl,Calls.none_complete⟩

theorem served_step {label : Label} (served : Served s) (taken : step type s label = some t) : Served t := by
  cases label with
  | set chosen =>
    cases type with
    | manualReset =>
      cases taken
      exact ⟨fun _ => rfl,served.complete.finishAll _⟩
    | autoReset =>
      simp only [step,setEvent] at taken
      split at taken
      next empty =>
        cases taken
        exact ⟨fun _ => List.isEmpty_iff.mp empty,served.complete⟩
      next waiters =>
        obtain ⟨call,found,rfl⟩ := Option.map_eq_some_iff.mp taken
        refine ⟨fun signal => ?_,served.complete.finish found (answer .object0)⟩
        exact absurd (List.isEmpty_iff.mpr (served.quiet signal)) waiters
  | reset =>
    cases taken
    exact ⟨fun signal => absurd signal Bool.false_ne_true,served.complete⟩
  | wait timeoutMs =>
    cases taken
    unfold Event.wait waitForSingleObject
    by_cases signal : s.signaled = true
    · rw [if_pos signal]
      exact ⟨fun _ => served.quiet signal,served.complete.reply (answer .object0)⟩
    · rw [if_neg signal]
      by_cases limited : timeoutMs = 0
      · rw [if_pos limited]
        exact ⟨fun same => absurd same signal,served.complete.reply (answer .timeout)⟩
      · rw [if_neg limited]
        exact ⟨fun same => absurd same signal,served.complete.block timeoutMs⟩
  | expire place =>
    simp only [step,Event.expire] at taken
    split at taken
    next call timeoutMs found =>
      split at taken
      next => contradiction
      next =>
        cases taken
        refine ⟨fun signal => ?_,served.complete.finish found (answer .timeout)⟩
        rw [served.quiet signal] at found
        contradiction
    next => contradiction
  | isSignaled =>
    cases type with
    | manualReset =>
      rw [step,isSignaled_manual] at taken
      cases taken
      exact ⟨served.quiet,served.complete⟩
    | autoReset =>
      rw [step,isSignaled_auto] at taken
      cases taken
      exact ⟨fun signal => absurd signal Bool.false_ne_true,served.complete⟩

theorem signals_append (s : State) (signaled : Bool) (waiting : List (Nat × DWORD)) (begun call : Nat) (result : Except String Bool) :
    State.signals ⟨signaled,waiting,begun,s.waits ++ [(call,result)],s.queries⟩ =
      s.taken + (if through result then 1 else 0) + if signaled then 1 else 0 := by
  simp only [State.signals,State.taken,List.countP_append,List.countP_singleton]
  omega

theorem signals_query (s : State) (signaled : Bool) (result : Except String Bool) :
    State.signals {s with signaled := signaled, queries := s.queries ++ [result]} =
      s.taken + (if through result then 1 else 0) + if signaled then 1 else 0 := by
  simp only [State.signals,State.taken,List.countP_append,List.countP_singleton]
  omega

/-- The signal of a `Set` is taken by one call or stays, unless one was there before. -/
theorem signals_step {label : Label} (served : Served s) (taken : step .autoReset s label = some t) :
    t.signals ≤ s.signals + label.sets ∧ (t.signals = s.signals + label.sets ↔ Spent s label) := by
  have exact_when (same : t.signals = s.signals + label.sets) (spent : Spent s label) :
      t.signals ≤ s.signals + label.sets ∧ (t.signals = s.signals + label.sets ↔ Spent s label) :=
    ⟨same.le,fun _ => spent,fun _ => same⟩
  cases label with
  | set chosen =>
    simp only [step,setEvent] at taken
    split at taken
    next =>
      cases taken
      cases signal : s.signaled <;> simp [State.signals,State.taken,Label.sets,Spent,signal]
    next waiters =>
      have signal : s.signaled = false := by
        by_contra signal
        exact waiters (List.isEmpty_iff.mpr (served.quiet (by simpa using signal)))
      obtain ⟨call,found,rfl⟩ := Option.map_eq_some_iff.mp taken
      refine exact_when ?_ signal
      rw [signals_append,State.signals,signal]
      rfl
  | reset =>
    cases taken
    cases signal : s.signaled <;> simp [State.signals,State.taken,Label.sets,Spent,signal]
  | wait timeoutMs =>
    refine exact_when ?_ trivial
    cases taken
    unfold Event.wait waitForSingleObject
    by_cases signal : s.signaled = true
    · rw [if_pos signal]
      exact (signals_append ..).trans (by rw [State.signals,signal]; rfl)
    · rw [if_neg signal]
      by_cases limited : timeoutMs = 0
      · rw [if_pos limited]
        exact (signals_append ..).trans (by rw [State.signals]; rfl)
      · rw [if_neg limited]
        rfl
  | expire place =>
    refine exact_when ?_ trivial
    simp only [step,Event.expire] at taken
    split at taken
    next call timeoutMs found =>
      split at taken
      next => contradiction
      next =>
        cases taken
        exact (signals_append ..).trans (by rw [State.signals]; rfl)
    next => contradiction
  | isSignaled =>
    refine exact_when ?_ trivial
    rw [step,isSignaled_auto] at taken
    cases taken
    exact (signals_query ..).trans rfl

/-- The calls that an auto-reset event lets through are no more than the signals it was given, and exactly
these, the one that may stay counted, if and only if no `Set` and no `Reset` comes upon a signal still there. -/
theorem signals_accounted {initiallySignaled : Bool} {labels : List Label}
    (reached : run (step .autoReset) (init initiallySignaled) labels = some t) :
    t.signals ≤ initiallySignaled.toNat + (labels.map Label.sets).sum ∧
      (t.signals = initiallySignaled.toNat + (labels.map Label.sets).sum ↔
        Obeys (step .autoReset) Spent (init initiallySignaled) labels) := by
  have first : (init initiallySignaled).signals = initiallySignaled.toNat := by cases initiallySignaled <;> rfl
  rw [← first]
  exact run_total_iff Served Label.sets State.signals (fun _ _ _ served taken => served_step served taken)
    (fun _ _ _ served taken => signals_step served taken) (served_init initiallySignaled) reached

/-- However sets, resets, waits and their limits interleave, no call is left waiting for a signaled event,
and every call of `Wait` waits or has come back, and only once. -/
theorem waits_served {initiallySignaled : Bool} {labels : List Label}
    (reached : run (step type) (init initiallySignaled) labels = some t) :
    (t.signaled = true → t.waiting = []) ∧
      (t.waiting.map Prod.fst ++ t.waits.map Prod.fst).Perm (List.range t.begun) := by
  have served := run_invariant Served (fun _ _ _ served taken => served_step served taken) (served_init initiallySignaled) reached
  exact ⟨served.quiet,served.complete⟩

instance (s : State) : (label : Label) → Decidable (Spent s label)
  | .set _ | .reset => inferInstanceAs (Decidable (s.signaled = false))
  | .wait _ | .expire _ | .isSignaled => inferInstanceAs (Decidable True)

theorem signals_accounted_pair : ∃ s, run (step .autoReset) (init false)
      [.wait INFINITE,.wait 5,.set 1,.set 0,.set 0,.isSignaled] = some s ∧
    s.waits = [(1,.ok true),(0,.ok true)] ∧ s.signals = 3 := by
  obtain ⟨s,reached,waits,spent⟩ : ∃ s, run (step .autoReset) (init false)
      [.wait INFINITE,.wait 5,.set 1,.set 0,.set 0,.isSignaled] = some s ∧ s.waits = [(1,.ok true),(0,.ok true)] ∧
      Obeys (step .autoReset) Spent (init false) [.wait INFINITE,.wait 5,.set 1,.set 0,.set 0,.isSignaled] :=
    ⟨_,rfl,rfl,by decide⟩
  exact ⟨s,reached,waits,(signals_accounted reached).2.mpr spent⟩

theorem waits_served_manual : ∃ s, run (step .manualReset) (init false) [.wait INFINITE,.wait 5,.set 0,.wait 0] = some s ∧
    (s.waiting.map Prod.fst ++ s.waits.map Prod.fst).Perm (List.range 3) := by
  obtain ⟨s,reached,begun⟩ : ∃ s, run (step .manualReset) (init false) [.wait INFINITE,.wait 5,.set 0,.wait 0] = some s ∧
      s.begun = 3 := ⟨_,rfl,rfl⟩
  exact ⟨s,reached,begun ▸ (waits_served reached).2⟩

end Ezthread.Event
