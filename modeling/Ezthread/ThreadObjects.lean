import Ezthread.Handles
import Ezthread.Transition

/-! `Thread` objects of core.hpp and core.cpp over the kernel's handle table: who
owns which handle, across moves, the joins hidden in assignment and destruction,
and `Detach`. One step for each operation; a thread may end between any two. -/
namespace Ezthread.Thread
open Transition Activation Handles

inductive Status
  | running
  | ended
  deriving DecidableEq

abbrev Kernel := Table Status

/-- `m_handle` and `m_id`; a null handle is 0. -/
structure Object where
  handle : Nat
  id : Nat
  deriving DecidableEq

inductive WaitResult
  | object0
  | timeout
  | failed
  deriving DecidableEq

/-- `WaitForSingleObject` on a thread: a wait without end returns only when the
thread has ended, one with a limit may return before. -/
def waitForSingleObject (kernel : Kernel) (handle : Nat) (infinite : Bool) : Option (Kernel × WaitResult) :=
  match (kernel.find handle).bind fun n => kernel.handles[n]? with
  | some h =>
      match h.object with
      | .ended => some (kernel,.object0)
      | .running => if infinite then none else some (kernel,.timeout)
  | none => some ({kernel with misused := true},.failed)

def Object.joinable (thread : Object) : Bool := decide (thread.handle ≠ 0)

/-- The call's effect and what it returns or throws; `none` while it blocks. -/
def join (kernel : Kernel) (thread : Object) : Option (Kernel × Object × Except String Unit) :=
  if thread.joinable then
    (waitForSingleObject kernel thread.handle true).map fun
      | (kernel,.object0) => (kernel.close thread.handle,⟨0,0⟩,.ok ())
      | (kernel,_) => (kernel,thread,.error "WaitForSingleObject failed")
  else some (kernel,thread,.error "Thread is not joinable")

def tryJoin (kernel : Kernel) (thread : Object) (infinite : Bool) : Option (Kernel × Object × Except String Bool) :=
  if thread.joinable then
    (waitForSingleObject kernel thread.handle infinite).map fun
      | (kernel,.object0) => (kernel.close thread.handle,⟨0,0⟩,.ok true)
      | (kernel,.timeout) => (kernel,thread,.ok false)
      | (kernel,.failed) => (kernel,thread,.error "WaitForSingleObject failed")
  else some (kernel,thread,.error "Thread is not joinable")

def detach (kernel : Kernel) (thread : Object) : Kernel × Object × Except String Unit :=
  if thread.joinable then (kernel.close thread.handle,⟨0,0⟩,.ok ())
  else (kernel,thread,.error "Thread is not joinable")

def cleanup (kernel : Kernel) (thread : Object) : Option (Kernel × Object × Except String Unit) :=
  if thread.joinable then join kernel thread else some (kernel,thread,.ok ())

/-- `objects` is storage: a slot without an object is one not constructed yet or
already destroyed. `detached` is no memory of the program: it lists the threads,
by the place of their handle, that `Detach` has been called for. -/
structure State where
  objects : List (Option Object)
  kernel : Kernel
  detached : List Nat
  deriving DecidableEq

def init (slots : Nat) : State := ⟨List.replicate slots none,Table.empty,[]⟩

/-- `create` carries what `CreateThread` returns. -/
inductive Label
  | construct (i : Nat)
  | create (i : Nat) (created : Option (Nat × Nat))
  | moveConstruct (i j : Nat)
  | moveAssign (i j : Nat)
  | join (i : Nat)
  | tryJoin (i : Nat) (infinite : Bool)
  | detach (i : Nat)
  | destroy (i : Nat)
  | ends (n : Nat)

def State.object (s : State) (i : Nat) : Option Object := (s.objects[i]?).join

def State.vacant (s : State) (i : Nat) : Bool := decide (s.objects[i]? = some none)

def State.put (s : State) (i : Nat) (object : Option Object) : State := {s with objects := s.objects.set i object}

/-- `std::exchange` of both members. -/
def State.exchange (s : State) (i j : Nat) (other : Object) : State := (s.put j (some ⟨0,0⟩)).put i (some other)

/-- What an operation on one object leaves. Of `Join` in a destructor or in the
move assignment, which may not throw, a failed wait is `std::terminate`; it leaves
the record of the misuse. -/
def State.after {Value : Type} (s : State) (i : Nat) (call : Kernel × Object × Except String Value) : State :=
  {s.put i (some call.2.1) with kernel := call.1}

def step (s : State) : Label → Option State
  | .construct i => if s.vacant i then some (s.put i (some ⟨0,0⟩)) else none
  | .create i none => if s.vacant i then some s else none
  | .create i (some (handle,id)) =>
      if s.vacant i && decide (id ≠ 0) then
        (s.kernel.create handle .running).map fun kernel => {s.put i (some ⟨handle,id⟩) with kernel := kernel}
      else none
  | .moveConstruct i j => if s.vacant i then (s.object j).map fun other => s.exchange i j other else none
  | .moveAssign i j => do
      let thread ← s.object i
      let other ← s.object j
      if i = j then some s
      else
        match ← cleanup s.kernel thread with
        | (kernel,_,.ok _) => some {s.exchange i j other with kernel := kernel}
        | (kernel,_,.error _) => some {s with kernel := kernel}
  | .join i => do
      let thread ← s.object i
      return s.after i (← join s.kernel thread)
  | .tryJoin i infinite => do
      let thread ← s.object i
      return s.after i (← tryJoin s.kernel thread infinite)
  | .detach i => do
      let thread ← s.object i
      return {s.after i (Thread.detach s.kernel thread) with
        detached := s.detached ++ if thread.joinable then (s.kernel.find thread.handle).toList else []}
  | .destroy i => do
      let thread ← s.object i
      match ← cleanup s.kernel thread with
      | (kernel,_,.ok _) => some {s.put i none with kernel := kernel}
      | (kernel,_,.error _) => some {s with kernel := kernel}
  | .ends n =>
      match s.kernel.handles[n]? with
      | some h =>
          match h.object with
          | .running => some {s with kernel := {s.kernel with handles := s.kernel.handles.set n {h with object := .ended}}}
          | .ended => none
      | none => none

/-- The non-null handle an object holds. -/
def holds (slot : Option Object) : Option Nat :=
  slot.bind fun thread => if thread.handle = 0 then none else some thread.handle

def Identified (slot : Option Object) : Prop := ∀ thread, slot = some thread → (thread.handle = 0 ↔ thread.id = 0)

def Settled (detached : List Nat) (n : Nat) (h : Handle Status) : Prop :=
  h.closes ≠ 0 → n ∈ detached ∨ h.object = .ended

structure Inv (s : State) : Prop where
  ledger : Ledger holds s.objects s.kernel
  kept : Kept holds s.objects s.kernel
  identified : Every (fun _ slot => Identified slot) s.objects
  settled : Every (Settled s.detached) s.kernel.handles

/-- A call leaves the object as it was or closes its handle, the thread being over
or, for `Detach`, let go. -/
def Releases (done : Prop) (kernel : Kernel) (thread : Object) (after : Kernel × Object) : Prop :=
  after = (kernel,thread) ∨ thread.handle ≠ 0 ∧ after = (kernel.close thread.handle,⟨0,0⟩) ∧ done

def Over (kernel : Kernel) (handle : Nat) : Prop :=
  ∀ n h, kernel.find handle = some n → kernel.handles[n]? = some h → h.object = .ended

section Calls
variable {kernel after : Kernel} {thread left : Object} {result : WaitResult} {infinite : Bool}

theorem wait_open (held : kernel.Open thread.handle)
    (waited : waitForSingleObject kernel thread.handle infinite = some (after,result)) :
    after = kernel ∧ (result = .object0 ∧ Over kernel thread.handle ∨ result = .timeout) := by
  obtain ⟨n,found⟩ := find_isSome held
  obtain ⟨h,present,_⟩ := find_some found
  simp only [waitForSingleObject,found,Option.bind_some,present] at waited
  split at waited
  next ended =>
    cases waited
    refine ⟨rfl,.inl ⟨rfl,fun m other same there => ?_⟩⟩
    cases found.symm.trans same
    cases present.symm.trans there
    exact ended
  next =>
    split at waited <;> cases waited
    exact ⟨rfl,.inr rfl⟩

theorem tryJoin_releases {value : Except String Bool} (held : thread.handle ≠ 0 → kernel.Open thread.handle)
    (called : tryJoin kernel thread infinite = some (after,left,value)) :
    Releases (Over kernel thread.handle) kernel thread (after,left) := by
  unfold tryJoin at called
  split at called
  next joinable =>
    have positive : thread.handle ≠ 0 := of_decide_eq_true joinable
    obtain ⟨⟨table,result⟩,waited,same⟩ := Option.map_eq_some_iff.mp called
    obtain ⟨rfl,ended | late⟩ := wait_open (held positive) waited
    · obtain ⟨rfl,ended⟩ := ended
      cases same
      exact .inr ⟨positive,rfl,ended⟩
    · subst late
      cases same
      exact .inl rfl
  next => cases called; exact .inl rfl

theorem wait_infinite (held : kernel.Open thread.handle)
    (waited : waitForSingleObject kernel thread.handle true = some (after,result)) :
    after = kernel ∧ result = .object0 ∧ Over kernel thread.handle := by
  obtain ⟨n,found⟩ := find_isSome held
  obtain ⟨h,present,_⟩ := find_some found
  obtain ⟨same,ended | late⟩ := wait_open held waited
  · exact ⟨same,ended⟩
  · subst late
    simp only [waitForSingleObject,found,Option.bind_some,present] at waited
    split at waited <;> simp at waited

theorem join_releases {value : Except String Unit} (held : thread.handle ≠ 0 → kernel.Open thread.handle)
    (called : join kernel thread = some (after,left,value)) :
    Releases (Over kernel thread.handle) kernel thread (after,left) ∧
      (thread.handle ≠ 0 → left.handle = 0 ∧ value = .ok ()) := by
  unfold join at called
  split at called
  next joinable =>
    have positive : thread.handle ≠ 0 := of_decide_eq_true joinable
    obtain ⟨⟨table,result⟩,waited,same⟩ := Option.map_eq_some_iff.mp called
    obtain ⟨rfl,rfl,ended⟩ := wait_infinite (held positive) waited
    cases same
    exact ⟨.inr ⟨positive,rfl,ended⟩,fun _ => ⟨rfl,rfl⟩⟩
  next unjoinable =>
    cases called
    exact ⟨.inl rfl,fun positive => absurd (decide_eq_true positive) unjoinable⟩

theorem cleanup_releases {value : Except String Unit} (held : thread.handle ≠ 0 → kernel.Open thread.handle)
    (called : cleanup kernel thread = some (after,left,value)) :
    Releases (Over kernel thread.handle) kernel thread (after,left) ∧ left.handle = 0 ∧ value = .ok () := by
  unfold cleanup at called
  split at called
  next joinable =>
    obtain ⟨releases,closed⟩ := join_releases held called
    exact ⟨releases,closed (of_decide_eq_true joinable)⟩
  next unjoinable =>
    cases called
    have null : thread.handle = 0 := by simpa [Object.joinable] using unjoinable
    exact ⟨.inl rfl,null,rfl⟩

theorem detach_releases (kernel : Kernel) (thread : Object) :
    Releases True kernel thread ((detach kernel thread).1,(detach kernel thread).2.1) := by
  unfold detach
  split
  next joinable => exact .inr ⟨of_decide_eq_true joinable,rfl,trivial⟩
  next => exact .inl rfl

end Calls

section Steps
variable {s t : State} {i j : Nat} {thread left : Object} {kernel : Kernel} {done : Prop}

theorem object_some (found : s.object i = some thread) : s.objects[i]? = some (some thread) :=
  Option.join_eq_some_iff.mp found

theorem vacant_slot (vacant : s.vacant i = true) : s.objects[i]? = some none := of_decide_eq_true vacant

theorem holds_null (null : thread.handle = 0) : holds (some thread) = none := by simp [holds,null]

theorem holds_handle (positive : thread.handle ≠ 0) : holds (some thread) = some thread.handle := by simp [holds,positive]

theorem identified_null : Identified (some ⟨0,0⟩) := by
  intro thread same
  cases same
  exact Iff.rfl

theorem Inv.holds_open (inv : Inv s) (found : s.objects[i]? = some (some thread)) (positive : thread.handle ≠ 0) :
    s.kernel.Open thread.handle :=
  inv.ledger.opened _ ⟨i,some thread,found,holds_handle positive⟩

theorem Inv.keep {slot next : Option Object} (inv : Inv s) (found : s.objects[i]? = some slot)
    (empty : holds slot = none) (null : holds next = none) (identified : Identified next) : Inv (s.put i next) where
  ledger := inv.ledger.keep found (null.trans empty.symm)
  kept value held := (Held.keep_iff holds next found (null.trans empty.symm) value).mpr (inv.kept value held)
  identified := inv.identified.set identified
  settled := inv.settled

/-- An object closes its handle; `detached` is the record after. -/
theorem Inv.close {next : Option Object} {detached : List Nat} (inv : Inv s) (found : s.objects[i]? = some (some thread))
    (positive : thread.handle ≠ 0) (null : holds next = none) (identified : Identified next)
    (grows : ∀ n ∈ s.detached, n ∈ detached)
    (done : ∀ n h, s.kernel.find thread.handle = some n → s.kernel.handles[n]? = some h → n ∈ detached ∨ h.object = .ended) :
    Inv ⟨s.objects.set i next,s.kernel.close thread.handle,detached⟩ := by
  have owns := holds_handle positive
  obtain ⟨ledger,opens⟩ := inv.ledger.close found owns null
  refine ⟨ledger,fun value held => ?_,inv.identified.set identified,?_⟩
  · obtain ⟨apart,before⟩ := (opens value).mp held
    exact (Held.release_iff next inv.ledger.exclusive found owns null value).mpr ⟨apart,inv.kept value before⟩
  · refine close_every (inv.holds_open found positive) (inv.settled.imp fun n h _ settled closed => ?_) ?_
    · exact (settled closed).imp_left (grows n)
    · exact fun n h search present _ => done n h search present

theorem Inv.releases {after : Kernel × Object} {detached : List Nat} (inv : Inv s)
    (found : s.objects[i]? = some (some thread)) (releases : Releases done s.kernel thread after)
    (grows : ∀ n ∈ s.detached, n ∈ detached)
    (settles : thread.handle ≠ 0 → done → ∀ n h, s.kernel.find thread.handle = some n →
      s.kernel.handles[n]? = some h → n ∈ detached ∨ h.object = .ended) :
    Inv ⟨s.objects.set i (some after.2),after.1,detached⟩ := by
  rcases releases with rfl | ⟨positive,rfl,ended⟩
  · have unchanged : s.objects.set i (some thread) = s.objects := by
      obtain ⟨inside,same⟩ := List.getElem?_eq_some_iff.mp found
      rw [← same,List.set_getElem_self]
    rw [unchanged]
    exact {inv with settled := inv.settled.imp fun n h _ settled closed => (settled closed).imp_left (grows n)}
  · exact inv.close found positive (holds_null rfl) identified_null grows (settles positive ended)

theorem Inv.ended {after : Kernel × Object} (inv : Inv s) (found : s.objects[i]? = some (some thread))
    (releases : Releases (Over s.kernel thread.handle) s.kernel thread after) :
    Inv ⟨s.objects.set i (some after.2),after.1,s.detached⟩ :=
  inv.releases found releases (fun _ => id) fun _ ended n h search present => Or.inr (ended n h search present)

theorem Inv.exchange {slot : Option Object} {other : Object} (inv : Inv s) (apart : i ≠ j) (taking : s.objects[i]? = some slot)
    (giving : s.objects[j]? = some (some other)) (empty : holds slot = none) : Inv (s.exchange i j other) where
  ledger := inv.ledger.pass apart taking giving empty rfl (holds_null rfl)
  kept value held :=
    (Held.pass_iff inv.ledger.exclusive apart taking giving empty rfl (holds_null rfl) value).mpr (inv.kept value held)
  identified := (inv.identified.set identified_null).set (inv.identified j _ giving)
  settled := inv.settled

theorem Inv.create {handle id : Nat} (inv : Inv s) (vacant : s.objects[i]? = some none) (positive : id ≠ 0)
    (created : s.kernel.create handle .running = some kernel) :
    Inv ⟨s.objects.set i (some ⟨handle,id⟩),kernel,s.detached⟩ := by
  obtain ⟨nonnull,fresh,same⟩ := create_fresh created
  have owns : holds (some ⟨handle,id⟩) = some handle := holds_handle nonnull
  have opens := create_opens created
  refine ⟨(inv.ledger.create created).take vacant rfl owns ((opens handle).mpr (.inl rfl))
    (fun held => fresh (inv.ledger.opened handle held)),fun value held => ?_,inv.identified.set ?_,?_⟩
  · exact (Held.gain_iff holds _ vacant rfl owns value).mpr (((opens value).mp held).imp_right (inv.kept value))
  · intro thread same
    cases same
    exact ⟨fun null => absurd null nonnull,fun null => absurd null positive⟩
  · rw [same]
    exact inv.settled.append (fun closed => absurd rfl closed)

/-- The member-wise part of the move assignment, after `Cleanup`. -/
theorem Inv.assign {after : Kernel × Object} {other : Object} (inv : Inv s) (apart : i ≠ j)
    (taking : s.objects[i]? = some (some thread)) (giving : s.objects[j]? = some (some other))
    (releases : Releases (Over s.kernel thread.handle) s.kernel thread after) (null : after.2.handle = 0) :
    Inv {s.exchange i j other with kernel := after.1} := by
  have inside := get_lt taking
  have cleaned := inv.ended taking releases
  have whole := cleaned.exchange (i := i) (j := j) apart (List.getElem?_set_self inside)
    (by rw [List.getElem?_set_ne apart]; exact giving) (holds_null null)
  simpa [State.exchange,State.put,List.set_comm _ _ apart] using whole

theorem inv_step (s : State) (label : Label) (t : State) (inv : Inv s) (taken : step s label = some t) : Inv t := by
  cases label with
  | construct i =>
    simp only [step] at taken
    split at taken <;> cases taken
    next vacant => exact inv.keep (vacant_slot vacant) rfl (holds_null rfl) identified_null
  | create i created =>
    cases created with
    | none =>
      simp only [step] at taken
      split at taken <;> cases taken
      exact inv
    | some returned =>
      obtain ⟨handle,id⟩ := returned
      simp only [step] at taken
      split at taken
      next room =>
        rw [Bool.and_eq_true] at room
        obtain ⟨kernel,created,rfl⟩ := Option.map_eq_some_iff.mp taken
        exact inv.create (vacant_slot room.1) (of_decide_eq_true room.2) created
      next => contradiction
  | moveConstruct i j =>
    simp only [step] at taken
    split at taken
    next vacant =>
      obtain ⟨other,found,rfl⟩ := Option.map_eq_some_iff.mp taken
      have apart : i ≠ j := by
        intro same
        subst same
        cases (vacant_slot vacant).symm.trans (object_some found)
      exact inv.exchange apart (vacant_slot vacant) (object_some found) rfl
    next => contradiction
  | moveAssign i j =>
    obtain ⟨thread,found,taken⟩ := Option.bind_eq_some_iff.mp taken
    obtain ⟨other,present,taken⟩ := Option.bind_eq_some_iff.mp taken
    split at taken
    next => cases taken; exact inv
    next apart =>
      obtain ⟨⟨kernel,left,value⟩,cleaned,taken⟩ := Option.bind_eq_some_iff.mp taken
      obtain ⟨releases,null,rfl⟩ := cleanup_releases (inv.holds_open (object_some found)) cleaned
      cases taken
      exact inv.assign apart (object_some found) (object_some present) releases null
  | join i =>
    obtain ⟨thread,found,taken⟩ := Option.bind_eq_some_iff.mp taken
    obtain ⟨⟨kernel,left,value⟩,called,taken⟩ := Option.bind_eq_some_iff.mp taken
    cases taken
    exact inv.ended (object_some found) (join_releases (inv.holds_open (object_some found)) called).1
  | tryJoin i infinite =>
    obtain ⟨thread,found,taken⟩ := Option.bind_eq_some_iff.mp taken
    obtain ⟨⟨kernel,left,value⟩,called,taken⟩ := Option.bind_eq_some_iff.mp taken
    cases taken
    exact inv.ended (object_some found) (tryJoin_releases (inv.holds_open (object_some found)) called)
  | detach i =>
    obtain ⟨thread,found,taken⟩ := Option.bind_eq_some_iff.mp taken
    cases taken
    refine inv.releases (object_some found) (detach_releases s.kernel thread) (fun n member => List.mem_append_left _ member) ?_
    intro positive _ n h search _
    have joinable : thread.joinable = true := decide_eq_true positive
    exact Or.inl (by simp [joinable,search])
  | destroy i =>
    obtain ⟨thread,found,taken⟩ := Option.bind_eq_some_iff.mp taken
    obtain ⟨⟨kernel,left,value⟩,cleaned,taken⟩ := Option.bind_eq_some_iff.mp taken
    obtain ⟨releases,null,rfl⟩ := cleanup_releases (inv.holds_open (object_some found)) cleaned
    cases taken
    have emptied := (inv.ended (object_some found) releases).keep (get_self (object_some found)) (holds_null null)
      (rfl : holds none = none) nofun
    simpa [State.put] using emptied
  | ends n =>
    simp only [step] at taken
    split at taken
    next h present =>
      split at taken <;> cases taken
      next running =>
        have settled : Settled s.detached n {h with object := .ended} := fun _ => Or.inr rfl
        exact ⟨inv.ledger.update present rfl rfl,
          fun value held => inv.kept value ((Held.keep_iff Handle.key {h with object := Status.ended} present rfl value).mp held),inv.identified,
          inv.settled.set settled⟩
    next => contradiction

theorem inv_init (slots : Nat) : Inv (init slots) where
  ledger := Ledger.empty fun slot member => by rw [List.eq_of_mem_replicate member]; rfl
  kept value held := by
    obtain ⟨n,h,found,_⟩ := held
    simp [init,Table.empty] at found
  identified i slot found := by
    rw [List.eq_of_mem_replicate (List.mem_of_getElem? found)]
    exact nofun
  settled := Every.nil _

end Steps

/-- Over any run of constructions, moves, joins, detachments and destructions: the
objects' handles are theirs alone, a null handle goes with a null id, nothing
closed is used, and once every object is destroyed each handle `CreateThread` has
returned has been closed once and each thread not detached has ended. -/
theorem handles_owned {slots : Nat} {labels : List Label} {s : State} (reached : run step (init slots) labels = some s) :
    Exclusive holds s.objects ∧ (∀ i thread, s.object i = some thread → (thread.handle = 0 ↔ thread.id = 0)) ∧
    s.kernel.misused = false ∧
    ((∀ slot ∈ s.objects, slot = none) → ∀ n h, s.kernel.handles[n]? = some h →
      h.closes = 1 ∧ (n ∈ s.detached ∨ h.object = .ended)) := by
  have inv := run_invariant Inv inv_step (inv_init slots) reached
  refine ⟨inv.ledger.exclusive,fun i thread found => inv.identified i _ (object_some found) thread rfl,inv.ledger.sound,?_⟩
  intro destroyed n h present
  have empty : ∀ slot ∈ s.objects, holds slot = none := by
    intro slot member
    rw [destroyed slot member]
    rfl
  have once := (inv.ledger.closed_once empty).mp inv.kept h (List.mem_of_getElem? present)
  exact ⟨once,inv.settled n h present (by omega)⟩

/-- A thread joined by a move over its object, one detached after a `TryJoin` that
timed out, and a third that gets the first one's handle value again. -/
theorem handles_owned_moved :
    ∃ s, run step (init 2) [.create 0 (some (8,1)),.create 1 (some (12,2)),.tryJoin 1 false,.ends 0,.moveAssign 0 1,
        .moveAssign 0 0,.detach 0,.destroy 1,.create 1 (some (8,3)),.ends 2,.destroy 0,.destroy 1] = some s ∧
      s.detached = [1] ∧ ∀ n h, s.kernel.handles[n]? = some h → h.closes = 1 ∧ (n ∈ s.detached ∨ h.object = .ended) := by
  obtain ⟨s,reached,detached,destroyed⟩ : ∃ s, run step (init 2) [.create 0 (some (8,1)),.create 1 (some (12,2)),
      .tryJoin 1 false,.ends 0,.moveAssign 0 1,.moveAssign 0 0,.detach 0,.destroy 1,.create 1 (some (8,3)),.ends 2,
      .destroy 0,.destroy 1] = some s ∧ s.detached = [1] ∧ ∀ slot ∈ s.objects, slot = none := ⟨_,rfl,rfl,by decide⟩
  exact ⟨s,reached,detached,(handles_owned reached).2.2.2 destroyed⟩

end Ezthread.Thread
