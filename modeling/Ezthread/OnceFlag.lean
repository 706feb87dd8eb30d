import Ezthread.Activation
import Ezthread.Transition

/-! `OnceFlag` of sync.hpp, one step for each access to the flag or to its lock,
one for the start of a callable and one for its end. A callable does not use the
flag, so a thread makes one call at a time and the call owns the lock. -/
namespace Ezthread.OnceFlag
open Transition Activation

variable {ε : Type*}

/-- Where a call stands: the next access it will make. What `func()` threw is kept
while the lock is released in the unwinding. -/
inductive Point (ε : Type*)
  | loading
  | locking
  | rechecking
  | calling
  | storing
  | unlocking (thrown : Option ε)
  | exited (thrown : Option ε)

/-- `ended` is no memory of the program: it records how the call's own callable
ended. -/
structure Call (ε : Type*) where
  point : Point ε
  ended : Option (Except ε Unit)

structure State (ε : Type*) where
  called : Bool
  owner : Option Nat
  calls : List (Call ε)

def init : State ε := ⟨false,none,[]⟩

/-- `invoke` begins a call, and `finish` ends its callable. -/
inductive Label (ε : Type*)
  | invoke
  | access (i : Nat)
  | finish (i : Nat) (result : Except ε Unit)

def State.goto (s : State ε) (i : Nat) (call : Call ε) : State ε :=
  {s with calls := s.calls.set i call}

def unwind : Except ε Unit → Point ε
  | .ok () => .storing
  | .error thrown => .unlocking (some thrown)

def advance (s : State ε) (i : Nat) : Call ε → Option (State ε)
  | ⟨.loading,ended⟩ => some (s.goto i ⟨if s.called then .exited none else .locking,ended⟩)
  | ⟨.locking,ended⟩ =>
      if s.owner = none then some {s.goto i ⟨.rechecking,ended⟩ with owner := some i} else none
  | ⟨.rechecking,ended⟩ => some (s.goto i ⟨if s.called then .unlocking none else .calling,ended⟩)
  | ⟨.storing,ended⟩ => some {s.goto i ⟨.unlocking none,ended⟩ with called := true}
  | ⟨.unlocking thrown,ended⟩ => some {s.goto i ⟨.exited thrown,ended⟩ with owner := none}
  | _ => none

def step (s : State ε) : Label ε → Option (State ε)
  | .invoke => some {s with calls := s.calls ++ [⟨.loading,none⟩]}
  | .access i => (s.calls[i]?).bind (advance s i)
  | .finish i result =>
      match s.calls[i]? with
      | some ⟨.calling,_⟩ => some (s.goto i ⟨unwind result,some result⟩)
      | _ => none

inductive Moves (s : State ε) : State ε → Prop
  | invoke : Moves s {s with calls := s.calls ++ [⟨.loading,none⟩]}
  | skip (i ended) (found : s.calls[i]? = some ⟨.loading,ended⟩) (called : s.called = true) :
      Moves s (s.goto i ⟨.exited none,ended⟩)
  | miss (i ended) (found : s.calls[i]? = some ⟨.loading,ended⟩) (uncalled : s.called = false) :
      Moves s (s.goto i ⟨.locking,ended⟩)
  | lock (i ended) (found : s.calls[i]? = some ⟨.locking,ended⟩) (free : s.owner = none) :
      Moves s {s.goto i ⟨.rechecking,ended⟩ with owner := some i}
  | late (i ended) (found : s.calls[i]? = some ⟨.rechecking,ended⟩) (called : s.called = true) :
      Moves s (s.goto i ⟨.unlocking none,ended⟩)
  | start (i ended) (found : s.calls[i]? = some ⟨.rechecking,ended⟩) (uncalled : s.called = false) :
      Moves s (s.goto i ⟨.calling,ended⟩)
  | finish (i ended result) (found : s.calls[i]? = some ⟨.calling,ended⟩) :
      Moves s (s.goto i ⟨unwind result,some result⟩)
  | store (i ended) (found : s.calls[i]? = some ⟨.storing,ended⟩) :
      Moves s {s.goto i ⟨.unlocking none,ended⟩ with called := true}
  | unlock (i ended thrown) (found : s.calls[i]? = some ⟨.unlocking thrown,ended⟩) :
      Moves s {s.goto i ⟨.exited thrown,ended⟩ with owner := none}

theorem advance_moves (s t : State ε) (i : Nat) (call : Call ε) (found : s.calls[i]? = some call)
    (taken : advance s i call = some t) : Moves s t := by
  obtain ⟨point,ended⟩ := call
  cases point with
  | loading =>
    cases taken
    split
    next called => exact .skip i ended found called
    next uncalled => exact .miss i ended found (Bool.eq_false_iff.mpr uncalled)
  | locking =>
    simp only [advance] at taken
    split at taken
    next free =>
      cases taken
      exact .lock i ended found free
    next => contradiction
  | rechecking =>
    cases taken
    split
    next called => exact .late i ended found called
    next uncalled => exact .start i ended found (Bool.eq_false_iff.mpr uncalled)
  | storing =>
    cases taken
    exact .store i ended found
  | unlocking thrown =>
    cases taken
    exact .unlock i ended thrown found
  | calling | exited => contradiction

theorem step_moves (s : State ε) (label : Label ε) (t : State ε) (taken : step s label = some t) : Moves s t := by
  cases label with
  | invoke =>
    cases taken
    exact .invoke
  | access i =>
    obtain ⟨call,found,advanced⟩ := Option.bind_eq_some_iff.mp taken
    exact advance_moves s t i call found advanced
  | finish i result =>
    simp only [step] at taken
    split at taken
    next ended found =>
      cases taken
      exact .finish i ended result found
    next => contradiction

/-- What a call's program point says of the flag, of the lock and of its callable. -/
def Fact (called : Bool) (owner : Option Nat) (j : Nat) (call : Call ε) : Prop :=
  match call.point with
  | .loading | .locking => call.ended = none
  | .rechecking => call.ended = none ∧ owner = some j
  | .calling => call.ended = none ∧ owner = some j ∧ called = false
  | .storing => call.ended = some (.ok ()) ∧ owner = some j ∧ called = false
  | .unlocking none => owner = some j ∧ called = true
  | .unlocking (some thrown) => call.ended = some (.error thrown) ∧ owner = some j
  | .exited none => called = true
  | .exited (some thrown) => call.ended = some (.error thrown)

/-- The one callable that returned normally, as a resource of its call. -/
def normal (call : Call ε) : Option Unit :=
  match call.ended with
  | some (.ok ()) => some ()
  | _ => none

theorem normal_iff {call : Call ε} {value : Unit} : normal call = some value ↔ call.ended = some (.ok ()) := by
  obtain ⟨point,ended⟩ := call
  cases ended with
  | none => simp [normal]
  | some result => cases result <;> simp [normal]

structure Inv (s : State ε) : Prop where
  facts : Every (fun j call => Fact s.called s.owner j call) s.calls
  once : Exclusive normal s.calls
  called : s.called = true → Held normal s.calls ()

/-- A callable that has returned normally either shows in the flag or is the lock
owner's, about to store. -/
theorem Fact.normal {called : Bool} {owner : Option Nat} {j : Nat} {call : Call ε} (fact : Fact called owner j call)
    (ended : call.ended = some (.ok ())) : called = true ∨ (call.point = .storing ∧ owner = some j) := by
  obtain ⟨point,result⟩ := call
  cases ended
  cases point with
  | loading | locking => cases fact
  | rechecking | calling => cases fact.1
  | storing => exact Or.inr ⟨rfl,fact.2.1⟩
  | unlocking thrown =>
    cases thrown with
    | none => exact Or.inl fact.2
    | some thrown => cases fact.1
  | exited thrown =>
    cases thrown with
    | none => exact Or.inl fact
    | some thrown => cases fact

/-- Setting the flag, and taking or leaving the lock, contradicts no other call. -/
theorem Fact.others {called after : Bool} {owner other : Option Nat} {i j : Nat} {call : Call ε}
    (fact : Fact called owner j call) (different : j ≠ i) (ours : owner = none ∨ owner = some i)
    (kept : called = true → after = true) : Fact after other j call := by
  have foreign : owner ≠ some j := by
    rintro rfl
    rcases ours with none | same
    · contradiction
    · exact different (Option.some.inj same)
  obtain ⟨point,ended⟩ := call
  cases point with
  | loading | locking => exact fact
  | rechecking => exact absurd fact.2 foreign
  | calling | storing => exact absurd fact.2.1 foreign
  | unlocking thrown =>
    cases thrown with
    | none => exact absurd fact.1 foreign
    | some thrown => exact absurd fact.2 foreign
  | exited thrown =>
    cases thrown with
    | none => exact kept fact
    | some thrown => exact fact

theorem facts_others {s : State ε} {i : Nat} {next : Call ε} {after : Bool} {other : Option Nat} (inv : Inv s)
    (ours : s.owner = none ∨ s.owner = some i) (kept : s.called = true → after = true)
    (holds : Fact after other i next) : Every (fun j call => Fact after other j call) (s.calls.set i next) := by
  intro j call found
  rcases get_set found with ⟨rfl,rfl⟩ | ⟨different,present⟩
  · exact holds
  · exact (inv.facts j call present).others different ours kept

theorem inv_goto {s : State ε} {i : Nat} {point next : Point ε} {ended : Option (Except ε Unit)} {owner : Option Nat}
    (inv : Inv s) (found : s.calls[i]? = some ⟨point,ended⟩)
    (facts : Every (fun j call => Fact s.called owner j call) (s.calls.set i ⟨next,ended⟩)) :
    Inv {s.goto i ⟨next,ended⟩ with owner := owner} := by
  refine ⟨facts,inv.once.set found fun _ owns => Or.inl owns,fun called => ?_⟩
  exact (inv.called called).set found (Or.inr rfl)

theorem inv_init : Inv (init : State ε) :=
  ⟨Every.nil _,Exclusive.nil _,by simp [init]⟩

theorem inv_step (s : State ε) (label : Label ε) (t : State ε) (inv : Inv s) (taken : step s label = some t) : Inv t := by
  cases step_moves s label t taken with
  | invoke => exact ⟨inv.facts.append rfl,inv.once.append rfl,fun called => (inv.called called).append _⟩
  | skip i ended found called => exact inv_goto inv found (inv.facts.set called)
  | miss i ended found uncalled =>
    have fresh : ended = none := inv.facts i _ found
    exact inv_goto inv found (inv.facts.set fresh)
  | lock i ended found free =>
    exact inv_goto inv found (facts_others inv (Or.inl free) id ⟨inv.facts i _ found,rfl⟩)
  | late i ended found called => exact inv_goto inv found (inv.facts.set ⟨(inv.facts i _ found).2,called⟩)
  | start i ended found uncalled =>
    obtain ⟨fresh,ours⟩ := inv.facts i _ found
    exact inv_goto inv found (inv.facts.set ⟨fresh,ours,uncalled⟩)
  | finish i ended result found =>
    obtain ⟨fresh,ours,uncalled⟩ := inv.facts i _ found
    -- a callable that returned normally before would be the lock owner's own
    have first : ∀ (j : Nat) (call : Call ε), s.calls[j]? = some call → normal call ≠ some () := by
      intro j call present owns
      rcases (inv.facts j call present).normal (normal_iff.mp owns) with called | ⟨storing,theirs⟩
      · exact absurd (called.symm.trans uncalled) (by decide)
      · obtain rfl : i = j := Option.some.inj (ours.symm.trans theirs)
        cases present.symm.trans found
        contradiction
    refine ⟨inv.facts.set ?_,inv.once.set found fun _ _ => Or.inr first,fun called => ?_⟩
    · cases result with
      | ok => exact ⟨rfl,ours,uncalled⟩
      | error thrown => exact ⟨rfl,ours⟩
    · exact absurd (called.symm.trans uncalled) (by decide)
  | store i ended found =>
    obtain ⟨returned,ours,_⟩ := inv.facts i _ found
    refine ⟨facts_others inv (Or.inr ours) (fun _ => rfl) ⟨ours,rfl⟩,?_,fun _ => ?_⟩
    · exact inv.once.set found fun _ owns => Or.inl owns
    · exact ⟨i,_,get_self found,normal_iff.mpr returned⟩
  | unlock i ended thrown found =>
    refine inv_goto inv found ?_
    have fact := inv.facts i _ found
    cases thrown with
    | none => exact facts_others inv (Or.inr fact.1) id fact.2
    | some thrown => exact facts_others inv (Or.inr fact.2) id fact.1

theorem inv_run {labels : List (Label ε)} {s : State ε} (reached : run step init labels = some s) : Inv s :=
  run_invariant Inv inv_step inv_init reached

section Uncalled
variable {s : State ε} {i : Nat} {ended : Option (Except ε Unit)}

theorem access_loading (found : s.calls[i]? = some ⟨.loading,ended⟩) (uncalled : s.called = false) :
    step s (.access i) = some (s.goto i ⟨.locking,ended⟩) := by
  simp [step,found,advance,uncalled]

theorem access_locking (found : s.calls[i]? = some ⟨.locking,ended⟩) (free : s.owner = none) :
    step s (.access i) = some {s.goto i ⟨.rechecking,ended⟩ with owner := some i} := by
  simp [step,found,advance,free]

theorem access_rechecking (found : s.calls[i]? = some ⟨.rechecking,ended⟩) (uncalled : s.called = false) :
    step s (.access i) = some (s.goto i ⟨.calling,ended⟩) := by
  simp [step,found,advance,uncalled]

/-- A caller that finds the flag unset and the lock free runs its callable. -/
theorem runs_own (found : s.calls[i]? = some ⟨.loading,ended⟩) (uncalled : s.called = false) (free : s.owner = none) :
    ∃ t, run step s [.access i,.access i,.access i] = some t ∧ t.calls[i]? = some ⟨.calling,ended⟩ := by
  have missed : (s.goto i ⟨.locking,ended⟩).calls[i]? = some ⟨.locking,ended⟩ := get_self found
  have locked : ((s.goto i ⟨.locking,ended⟩).goto i ⟨.rechecking,ended⟩).calls[i]? = some ⟨.rechecking,ended⟩ := get_self missed
  have loaded := access_loading found uncalled
  have acquired := access_locking (s := s.goto i ⟨.locking,ended⟩) missed free
  have rechecked := access_rechecking
    (s := {(s.goto i ⟨.locking,ended⟩).goto i ⟨.rechecking,ended⟩ with owner := some i}) locked uncalled
  exact ⟨_,run_step loaded (run_step acquired (run_step rechecked rfl)),get_self locked⟩

end Uncalled

/-- One callable at most returns normally and none overlap; a call returns normally
only after that one; and until then the flag is unset, a caller past the recheck
goes on to its callable, and one that finds the lock free gets there. -/
theorem call_once {labels : List (Label ε)} {s : State ε} (reached : run step init labels = some s) :
    (∀ (i j : Nat) (a b : Call ε), s.calls[i]? = some a → s.calls[j]? = some b →
      a.ended = some (.ok ()) → b.ended = some (.ok ()) → i = j) ∧
    (∀ (i j : Nat) (a b : Call ε), s.calls[i]? = some a → s.calls[j]? = some b →
      a.point = .calling → b.point = .calling → i = j) ∧
    (∀ (i : Nat) (call : Call ε), s.calls[i]? = some call → call.point = .exited none →
      ∃ (j : Nat) (other : Call ε), s.calls[j]? = some other ∧ other.ended = some (.ok ())) ∧
    ((∀ (j : Nat) (call : Call ε), s.calls[j]? = some call → call.ended ≠ some (.ok ())) →
      s.called = false ∧
      (∀ (i : Nat) (ended : Option (Except ε Unit)), s.calls[i]? = some ⟨.rechecking,ended⟩ →
        step s (.access i) = some (s.goto i ⟨.calling,ended⟩)) ∧
      (s.owner = none → ∃ t, run step s [.invoke,.access s.calls.length,.access s.calls.length,.access s.calls.length] = some t ∧
        t.calls[s.calls.length]? = some ⟨.calling,none⟩)) := by
  have inv := inv_run reached
  refine ⟨fun i j a b first second returned same => ?_,fun i j a b first second calling same => ?_,
    fun i call found exited => ?_,fun thrown => ?_⟩
  · exact inv.once i j a b () first second (normal_iff.mpr returned) (normal_iff.mpr same)
  · obtain ⟨_,ended⟩ := a
    obtain ⟨_,result⟩ := b
    cases calling
    cases same
    exact Option.some.inj ((inv.facts i _ first).2.1.symm.trans (inv.facts j _ second).2.1)
  · obtain ⟨_,ended⟩ := call
    cases exited
    obtain ⟨j,other,present,owns⟩ := inv.called (inv.facts i _ found)
    exact ⟨j,other,present,normal_iff.mp owns⟩
  · have uncalled : s.called = false := by
      by_contra called
      obtain ⟨j,call,present,owns⟩ := inv.called (Bool.eq_true_of_not_eq_false called)
      exact thrown j call present (normal_iff.mp owns)
    refine ⟨uncalled,fun i ended found => ?_,fun free => ?_⟩
    · exact access_rechecking found uncalled
    · obtain ⟨t,after,calling⟩ := runs_own (s := {s with calls := s.calls ++ [⟨.loading,none⟩]})
        (i := s.calls.length) (List.getElem?_concat_length) uncalled free
      exact ⟨t,run_step rfl after,calling⟩

/-- A callable throws, the next caller's returns, and a third call returns at once. -/
theorem call_once_after_throw :
    ∃ s : State String, run step init
      [.invoke,.access 0,.access 0,.access 0,.finish 0 (.error "thrown"),.access 0,
        .invoke,.access 1,.access 1,.access 1,.finish 1 (.ok ()),.access 1,.access 1,.invoke,.access 2] = some s ∧
      s.calls[2]? = some ⟨.exited none,none⟩ ∧
      ∃ (j : Nat) (other : Call String), s.calls[j]? = some other ∧ other.ended = some (.ok ()) := by
  obtain ⟨s,reached,exited⟩ : ∃ s : State String, run step init
      [.invoke,.access 0,.access 0,.access 0,.finish 0 (.error "thrown"),.access 0,
        .invoke,.access 1,.access 1,.access 1,.finish 1 (.ok ()),.access 1,.access 1,.invoke,.access 2] = some s ∧
      s.calls[2]? = some ⟨.exited none,none⟩ := ⟨_,rfl,rfl⟩
  exact ⟨s,reached,exited,(call_once reached).2.2.1 2 _ exited rfl⟩

end Ezthread.OnceFlag
