import Ezthread.Purge

/-! `Event` of event.cpp over a kernel event: `SetEvent` on an auto-reset event lets one
waiting thread through, on a manual-reset event all of them, and a wait that finds
the event signaled resets an auto-reset event. -/
namespace Ezthread.Event
open Transition Purge

abbrev DWORD := BitVec 32

inductive EventType
  | autoReset
  | manualReset
  deriving DecidableEq

inductive WaitResult
  | object0
  | timeout
  | failed
  deriving DecidableEq

/-- `waiting` are the blocked calls of `Wait` with their limits, a call being known by
how many were begun before it. What `Wait` and `IsSignaled` have returned or thrown
is listed in the order of their returns. -/
structure State where
  signaled : Bool
  waiting : List (Nat × DWORD)
  begun : Nat
  waits : List (Nat × Except String Bool)
  queries : List (Except String Bool)

def init (initiallySignaled : Bool) : State := ⟨initiallySignaled,[],0,[],[]⟩

def INFINITE : DWORD := 0xFFFFFFFF

/-- What a wait does to the signal, and its result where it does not block. -/
def waitForSingleObject (type : EventType) (timeoutMs : DWORD) (signaled : Bool) : Bool × Option WaitResult :=
  if signaled then (decide (type = .manualReset),some .object0)
  else (signaled,if timeoutMs = 0 then some .timeout else none)

/-- `Wait` and `IsSignaled` alike, once the kernel's wait is over. -/
def answer : WaitResult → Except String Bool
  | .object0 => .ok true
  | .timeout => .ok false
  | .failed => .error "WaitForSingleObject failed"

/-- `chosen` is the place of the waiting call that the kernel lets through. -/
def setEvent (type : EventType) (chosen : Nat) (s : State) : Option State :=
  match type with
  | .manualReset => some {s with
      signaled := true, waiting := [], waits := s.waits ++ s.waiting.map fun call => (call.1,answer .object0)}
  | .autoReset =>
      if s.waiting.isEmpty then some {s with signaled := true} else
        (s.waiting[chosen]?).map fun call =>
          {s with waiting := s.waiting.eraseIdx chosen, waits := s.waits ++ [(call.1,answer .object0)]}

def wait (type : EventType) (timeoutMs : DWORD) (s : State) : State :=
  match waitForSingleObject type timeoutMs s.signaled with
  | (signaled,some result) => {s with signaled := signaled, begun := s.begun + 1, waits := s.waits ++ [(s.begun,answer result)]}
  | (signaled,none) => {s with signaled := signaled, begun := s.begun + 1, waiting := s.waiting ++ [(s.begun,timeoutMs)]}

def isSignaled (type : EventType) (s : State) : Option State :=
  match waitForSingleObject type 0 s.signaled with
  | (signaled,some result) => some {s with signaled := signaled, queries := s.queries ++ [answer result]}
  | (_,none) => none

/-- A blocked call reaches its limit, if it has one. -/
def expire (place : Nat) (s : State) : Option State :=
  match s.waiting[place]? with
  | some (call,timeoutMs) =>
      if timeoutMs = INFINITE then none
      else some {s with waiting := s.waiting.eraseIdx place, waits := s.waits ++ [(call,answer .timeout)]}
  | none => none

inductive Label
  | set (chosen : Nat)
  | reset
  | wait (timeoutMs : DWORD)
  | expire (place : Nat)
  | isSignaled

def step (type : EventType) (s : State) : Label → Option State
  | .set chosen => setEvent type chosen s
  | .reset => some {s with signaled := false}
  | .wait timeoutMs => some (Event.wait type timeoutMs s)
  | .expire place => Event.expire place s
  | .isSignaled => Event.isSignaled type s

def Label.isQuery : Label → Bool
  | .isSignaled => true
  | _ => false

def forget (s : State) : State := {s with queries := []}

def outcome (s : State) : List (Nat × Except String Bool) × Bool := (s.waits,s.signaled)

/-- An auto-reset event is not asked while it is signaled. -/
def Idle (type : EventType) (s : State) : Label → Prop
  | .isSignaled => type = .manualReset ∨ s.signaled = false
  | _ => True

instance (type : EventType) (s : State) : (label : Label) → Decidable (Idle type s label)
  | .isSignaled => inferInstanceAs (Decidable (_ ∨ _))
  | .set _ | .reset | .wait _ | .expire _ => inferInstanceAs (Decidable True)

theorem isSignaled_manual (s : State) :
    isSignaled .manualReset s = some {s with queries := s.queries ++ [.ok s.signaled]} := by
  cases signal : s.signaled <;> simp [isSignaled,waitForSingleObject,signal,answer]

theorem isSignaled_auto (s : State) :
    isSignaled .autoReset s = some {s with signaled := false, queries := s.queries ++ [.ok s.signaled]} := by
  cases signal : s.signaled <;> simp [isSignaled,waitForSingleObject,signal,answer]

/-- Only `IsSignaled` has to do with what `IsSignaled` has returned. -/
theorem step_forget (type : EventType) (s : State) {label : Label} (shown : label.isQuery = false) :
    step type (forget s) label = (step type s label).map forget := by
  cases label with
  | isSignaled => contradiction
  | reset => rfl
  | wait timeoutMs =>
    simp only [step,Event.wait,forget,Option.map_some]
    split <;> rfl
  | expire place =>
    simp only [step,Event.expire,forget]
    split
    next => split <;> rfl
    next => rfl
  | set chosen =>
    cases type with
    | manualReset => rfl
    | autoReset =>
      simp only [step,setEvent]
      by_cases empty : s.waiting.isEmpty = true
      · rw [if_pos empty,if_pos (show (forget s).waiting.isEmpty = true from empty)]
        rfl
      · rw [if_neg empty,if_neg (show ¬ (forget s).waiting.isEmpty = true from empty),Option.map_map]
        rfl

theorem erasable (type : EventType) : Erasable (step type) Label.isQuery forget outcome (Idle type) where
  shown s label t shown taken := by rw [step_forget type s shown,taken,Option.map_some]
  silent s label t hides idle taken := by
    cases label with
    | isSignaled =>
      cases type with
      | manualReset =>
        rw [step,isSignaled_manual] at taken
        cases taken
        rfl
      | autoReset =>
        rw [step,isSignaled_auto] at taken
        cases taken
        have quiet : s.signaled = false := idle.resolve_left nofun
        simp [forget,quiet]
    | set | reset | wait | expire => contradiction
  loud s label t hides broken taken := by
    cases label with
    | isSignaled =>
      obtain ⟨automatic,signal⟩ := not_or.mp broken
      cases type with
      | manualReset => exact absurd rfl automatic
      | autoReset =>
        rw [step,isSignaled_auto] at taken
        cases taken
        intro same
        exact signal (congrArg Prod.snd same).symm
    | set | reset | wait | expire => contradiction
  seen s := rfl
  free s label shown := by
    cases label with
    | isSignaled => contradiction
    | set | reset | wait | expire => trivial

/-- Deleting the calls of `IsSignaled` changes no result of a `Wait` and not the signal,
after any beginning of a run, if and only if none of them finds an auto-reset event
signaled. -/
theorem query_pure_iff {type : EventType} {initiallySignaled : Bool} {labels : List Label} {s : State}
    (reached : run (step type) (init initiallySignaled) labels = some s) :
    Undisturbed (step type) Label.isQuery outcome (init initiallySignaled) labels ↔
      Obeys (step type) (Idle type) (init initiallySignaled) labels :=
  undisturbed_iff (erasable type) rfl reached

/-- An auto-reset event is asked before a `Wait`, while it blocks, and after its signal
is taken. -/
theorem query_pure_iff_between : ∃ s, run (step .autoReset) (init false)
      [.isSignaled,.wait INFINITE,.isSignaled,.set 0,.isSignaled,.set 0,.wait 0,.isSignaled] = some s ∧
    s.waits = [(0,.ok true),(1,.ok true)] ∧ s.queries = List.replicate 4 (.ok false) ∧
    Undisturbed (step .autoReset) Label.isQuery outcome (init false)
      [.isSignaled,.wait INFINITE,.isSignaled,.set 0,.isSignaled,.set 0,.wait 0,.isSignaled] := by
  obtain ⟨s,reached,waits,queries⟩ : ∃ s, run (step .autoReset) (init false)
      [.isSignaled,.wait INFINITE,.isSignaled,.set 0,.isSignaled,.set 0,.wait 0,.isSignaled] = some s ∧
    s.waits = [(0,.ok true),(1,.ok true)] ∧ s.queries = List.replicate 4 (.ok false) := ⟨_,rfl,rfl,rfl⟩
  exact ⟨s,reached,waits,queries,(query_pure_iff reached).mpr (by decide)⟩

/-- The query takes the signal of an auto-reset event, and the `Wait` after it times out. -/
theorem query_consumes : ∃ s t, run (step .autoReset) (init true) [.isSignaled,.wait 0] = some s ∧
    run (step .autoReset) (init true) (purge Label.isQuery [.isSignaled,.wait 0]) = some t ∧
    s.waits = [(0,.ok false)] ∧ t.waits = [(0,.ok true)] ∧
    ¬ Undisturbed (step .autoReset) Label.isQuery outcome (init true) [.isSignaled,.wait 0] := by
  refine ⟨_,_,rfl,rfl,rfl,rfl,fun undisturbed => ?_⟩
  obtain ⟨t,deleted,same⟩ := undisturbed [.isSignaled] [.wait 0] _ rfl rfl
  cases deleted
  exact absurd (congrArg Prod.snd same) (by decide)

end Ezthread.Event
