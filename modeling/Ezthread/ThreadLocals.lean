import Ezthread.Activation
import Ezthread.Mutex
import Ezthread.Transition
import Mathlib.Logic.Function.Basic

/-! `ThreadLocal<T>` of tls.cpp over the thread-local storage of the system: for each
index and thread one slot, nulled in every thread by `TlsAlloc` and in a new thread at
its start. Neither `TlsFree` nor the exit of a thread runs any code, and nothing hands
`DestructorCallback` to the system, so no step here is a call of it. -/
namespace Ezthread.ThreadLocal
open Transition Activation
open Mutex (DWORD ThreadException)

def TLS_OUT_OF_INDEXES : DWORD := 0xFFFFFFFF

/-- An object keeps its record after its destruction. -/
structure Object where
  m_tlsIndex : DWORD
  live : Bool

/-- `heap` tells at which addresses there is a `T`; `allocated` and `deleted` record
every `new T()` and every `delete`. -/
structure State where
  indices : DWORD → Bool
  slots : DWORD → Nat → Option Nat
  threads : List Nat
  objects : List Object
  heap : Nat → Bool
  allocated : List Nat
  deleted : List Nat

def init : State := ⟨fun _ => false,fun _ _ => none,[],[],fun _ => false,[],[]⟩

inductive Thrown
  | badAlloc
  | exception (thrown : ThreadException)

/-- How the system answers the calls `Get` may make: the address of `new T()`, or none
where it throws, and whether `TlsSetValue` succeeds. -/
structure Answers where
  address : Option Nat
  stored : Bool
  lastError : DWORD

def tlsAlloc (answer : DWORD) (s : State) : State :=
  if answer = TLS_OUT_OF_INDEXES then s
  else {s with
    indices := Function.update s.indices answer true
    slots := Function.update s.slots answer fun _ => none}

def tlsFree (index : DWORD) (s : State) : State := {s with indices := Function.update s.indices index false}

def tlsGetValue (thread : Nat) (index : DWORD) (s : State) : Option Nat := s.slots index thread

def tlsSetValue (thread : Nat) (index : DWORD) (value : Nat) (s : State) : State :=
  {s with slots := Function.update s.slots index (Function.update (s.slots index) thread (some value))}

def new (address : Nat) (s : State) : State :=
  {s with heap := Function.update s.heap address true, allocated := s.allocated ++ [address]}

def delete (address : Nat) (s : State) : State :=
  {s with heap := Function.update s.heap address false, deleted := s.deleted ++ [address]}

def construct (answer lastError : DWORD) (s : State) : Except Thrown Object × State :=
  (if answer = TLS_OUT_OF_INDEXES then .error (.exception ⟨"TlsAlloc failed",lastError⟩) else .ok ⟨answer,true⟩,
    tlsAlloc answer s)

def destruct (index : DWORD) (s : State) : State :=
  if index ≠ TLS_OUT_OF_INDEXES then tlsFree index s else s

def getPointer (thread : Nat) (index : DWORD) (s : State) : Option Nat := tlsGetValue thread index s

def setPointer (thread : Nat) (index : DWORD) (ptr : Nat) (answers : Answers) (s : State) : Except Thrown Unit × State :=
  if answers.stored then (.ok (),tlsSetValue thread index ptr s)
  else (.error (.exception ⟨"TlsSetValue failed",answers.lastError⟩),delete ptr s)

/-- The result is the address of the `T` that the reference is to. -/
def get (thread : Nat) (index : DWORD) (answers : Answers) (s : State) : Except Thrown Nat × State :=
  match getPointer thread index s with
  | some ptr => (.ok ptr,s)
  | none =>
      match answers.address with
      | none => (.error .badAlloc,s)
      | some ptr =>
          let (result,t) := setPointer thread index ptr answers (new ptr s)
          (result.map fun _ => ptr,t)

def arrow (thread : Nat) (index : DWORD) (answers : Answers) (s : State) : Except Thrown Nat × State :=
  get thread index answers s

def dereference (thread : Nat) (index : DWORD) (answers : Answers) (s : State) : Except Thrown Nat × State :=
  get thread index answers s

def getConst (thread : Nat) (index lastError : DWORD) (s : State) : Except Thrown Nat :=
  match getPointer thread index s with
  | none => .error (.exception ⟨"Thread-local value not initialized",lastError⟩)
  | some ptr => .ok ptr

def arrowConst (thread : Nat) (index lastError : DWORD) (s : State) : Except Thrown Nat :=
  getConst thread index lastError s

def dereferenceConst (thread : Nat) (index lastError : DWORD) (s : State) : Except Thrown Nat :=
  getConst thread index lastError s

def hasValue (thread : Nat) (index : DWORD) (s : State) : Bool := (getPointer thread index s).isSome

inductive Method
  | get
  | arrow
  | dereference
  | getConst
  | arrowConst
  | dereferenceConst
  | hasValue
deriving DecidableEq

inductive Returned
  | reference (address : Nat)
  | answer (value : Bool)

def refer (called : Except Thrown Nat × State) : Except Thrown Returned × State := (called.1.map .reference,called.2)

def Method.call (thread : Nat) (index : DWORD) (answers : Answers) (s : State) : Method → Except Thrown Returned × State
  | .get => refer (ThreadLocal.get thread index answers s)
  | .arrow => refer (ThreadLocal.arrow thread index answers s)
  | .dereference => refer (ThreadLocal.dereference thread index answers s)
  | .getConst => refer (ThreadLocal.getConst thread index answers.lastError s,s)
  | .arrowConst => refer (ThreadLocal.arrowConst thread index answers.lastError s,s)
  | .dereferenceConst => refer (ThreadLocal.dereferenceConst thread index answers.lastError s,s)
  | .hasValue => (.ok (.answer (ThreadLocal.hasValue thread index s)),s)

inductive Label
  | construct (answer lastError : DWORD)
  | destroy (i : Nat)
  | createThread (thread : Nat)
  | exitThread (thread : Nat)
  | call (thread i : Nat) (method : Method) (answers : Answers)

/-- A live thread calls a live object, and `new T()` returns an address that is free. -/
def step (s : State) : Label → Option State
  | .construct answer lastError =>
      if s.indices answer then none
      else match construct answer lastError s with
        | (.ok object,t) => some {t with objects := t.objects ++ [object]}
        | (.error _,t) => some t
  | .destroy i =>
      match s.objects[i]? with
      | some ⟨index,true⟩ => some {destruct index s with objects := s.objects.set i ⟨index,false⟩}
      | _ => none
  | .createThread thread =>
      if thread ∈ s.threads then none
      else some {s with
        threads := thread :: s.threads
        slots := fun index => Function.update (s.slots index) thread none}
  | .exitThread thread =>
      if thread ∈ s.threads then some {s with threads := s.threads.filter (· ≠ thread)} else none
  | .call thread i method answers =>
      if thread ∈ s.threads ∧ answers.address.all (fun address => !s.heap address) then
        match s.objects[i]? with
        | some ⟨index,true⟩ => some (method.call thread index answers s).2
        | _ => none
      else none

/-- The value of the object at `i` in the thread, both being alive. -/
def State.Holds (s : State) (i thread address : Nat) : Prop :=
  ∃ index, s.objects[i]? = some ⟨index,true⟩ ∧ thread ∈ s.threads ∧ s.slots index thread = some address

def State.Value (s : State) (address : Nat) : Prop := ∃ i thread, s.Holds i thread address

/-- Every `T` not yet deleted is a value, and what is none any more has been deleted as
often as it was allocated. -/
structure State.Reclaims (s : State) : Prop where
  kept : ∀ address, s.heap address = true → s.Value address
  once : ∀ address, ¬ s.Value address → s.deleted.count address = s.allocated.count address

/-- The step ends a thread or an object that still has a value. -/
def Label.abandons (s : State) : Label → Bool
  | .destroy i =>
      match s.objects[i]? with
      | some object => s.threads.any fun thread => (s.slots object.m_tlsIndex thread).isSome
      | none => false
  | .exitThread thread => s.objects.any fun object => object.live && (s.slots object.m_tlsIndex thread).isSome
  | _ => false

/-- All a step can do: a call that stores nothing leaves the state alone, or deletes again
the `T` that `TlsSetValue` refused. -/
inductive Moves (s : State) : Label → State → Prop
  | construct (answer lastError) (free : s.indices answer = false) :
      Moves s (.construct answer lastError) {s with
        indices := Function.update s.indices answer true
        slots := Function.update s.slots answer fun _ => none
        objects := s.objects ++ [⟨answer,true⟩]}
  | refuse (lastError) : Moves s (.construct TLS_OUT_OF_INDEXES lastError) s
  | destroy (i index indices) (found : s.objects[i]? = some ⟨index,true⟩)
      (others : ∀ other, other ≠ index → indices other = s.indices other) :
      Moves s (.destroy i) {s with indices := indices, objects := s.objects.set i ⟨index,false⟩}
  | createThread (thread) (absent : thread ∉ s.threads) :
      Moves s (.createThread thread) {s with
        threads := thread :: s.threads
        slots := fun index => Function.update (s.slots index) thread none}
  | exitThread (thread) (running : thread ∈ s.threads) :
      Moves s (.exitThread thread) {s with threads := s.threads.filter (· ≠ thread)}
  | keep (thread i method answers) : Moves s (.call thread i method answers) s
  | store (thread i method answers index ptr) (found : s.objects[i]? = some ⟨index,true⟩) (running : thread ∈ s.threads)
      (null : s.slots index thread = none) (free : s.heap ptr = false) :
      Moves s (.call thread i method answers) (tlsSetValue thread index ptr (new ptr s))
  | discard (thread i method answers ptr) (free : s.heap ptr = false) :
      Moves s (.call thread i method answers) (delete ptr (new ptr s))

theorem get_moves {s : State} {thread i : Nat} {method : Method} {answers : Answers} {index : DWORD}
    (found : s.objects[i]? = some ⟨index,true⟩) (running : thread ∈ s.threads)
    (free : answers.address.all (fun address => !s.heap address) = true) :
    Moves s (.call thread i method answers) (get thread index answers s).2 := by
  unfold get
  split
  next => exact .keep ..
  next null =>
    split
    next => exact .keep ..
    next ptr address =>
      have unused : s.heap ptr = false := by simpa [address] using free
      cases stored : answers.stored with
      | true => simpa [setPointer,stored] using Moves.store thread i method answers index ptr found running null unused
      | false => simpa [setPointer,stored] using Moves.discard thread i method answers ptr unused

theorem step_moves {s t : State} {label : Label} (taken : step s label = some t) : Moves s label t := by
  cases label with
  | construct answer lastError =>
    simp only [step] at taken
    split at taken
    next => contradiction
    next unused =>
      have free : s.indices answer = false := by simpa using unused
      by_cases refused : answer = TLS_OUT_OF_INDEXES
      · subst refused
        simp only [construct,tlsAlloc,if_true] at taken
        cases taken
        exact .refuse lastError
      · simp only [construct,tlsAlloc,refused,if_false] at taken
        cases taken
        exact .construct answer lastError free
  | destroy i =>
    simp only [step] at taken
    split at taken
    next index found =>
      cases taken
      by_cases invalid : index = TLS_OUT_OF_INDEXES
      · simpa [destruct,invalid] using Moves.destroy i index s.indices found fun _ _ => rfl
      · simpa [destruct,invalid,tlsFree] using Moves.destroy i index (Function.update s.indices index false) found
          fun other different => Function.update_of_ne different false s.indices
    next => contradiction
  | createThread thread =>
    simp only [step] at taken
    split at taken
    next => contradiction
    next absent =>
      cases taken
      exact .createThread thread absent
  | exitThread thread =>
    simp only [step] at taken
    split at taken
    next running =>
      cases taken
      exact .exitThread thread running
    next => contradiction
  | call thread i method answers =>
    simp only [step] at taken
    split at taken
    next given =>
      split at taken
      next index found =>
        cases taken
        cases method with
        | get | arrow | dereference => exact get_moves found given.1 given.2
        | getConst | arrowConst | dereferenceConst | hasValue => exact .keep ..
      next => contradiction
    next => contradiction

def Object.key (object : Object) : Option DWORD := if object.live then some object.m_tlsIndex else none

/-- Each live object has a TLS index of its own. -/
structure Indexed (s : State) : Prop where
  used : ∀ (i : Nat) (index : DWORD), s.objects[i]? = some ⟨index,true⟩ → s.indices index = true
  apart : Exclusive Object.key s.objects

variable {s t : State} {label : Label}

theorem Indexed.same (indexed : Indexed s) {i j : Nat} {index : DWORD} (first : s.objects[i]? = some ⟨index,true⟩)
    (second : s.objects[j]? = some ⟨index,true⟩) : i = j :=
  indexed.apart i j _ _ index first second rfl rfl

theorem Indexed.moves (indexed : Indexed s) (moves : Moves s label t) : Indexed t := by
  cases moves with
  | construct answer lastError free =>
    refine ⟨fun i index found => ?_,indexed.apart.append_unheld fun index owns held => ?_⟩
    · rcases get_append found with kept | ⟨_,same⟩
      · have used := indexed.used i index kept
        have different : index ≠ answer := by rintro rfl; exact Bool.false_ne_true (free.symm.trans used)
        simpa [different] using used
      · cases same
        exact Function.update_self ..
    · obtain rfl : answer = index := by simpa [Object.key] using owns
      obtain ⟨i,⟨other,live⟩,found,shares⟩ := held
      cases live with
      | false => simp [Object.key] at shares
      | true =>
        obtain rfl : other = answer := by simpa [Object.key] using shares
        exact Bool.false_ne_true (free.symm.trans (indexed.used i other found))
  | destroy i index indices found others =>
    refine ⟨fun j other present => ?_,indexed.apart.set found fun index owns => by simp [Object.key] at owns⟩
    rcases get_set present with ⟨_,same⟩ | ⟨apart,kept⟩
    · simp at same
    · have different : other ≠ index := by rintro rfl; exact apart (indexed.same kept found)
      exact (others other different).trans (indexed.used j other kept)
  | _ => exact ⟨indexed.used,indexed.apart⟩

/-- What a step does to the values: nothing, perhaps after a `T` made in vain; one more; or
some dropped, and none of these deleted. -/
inductive Effect (s t : State) (label : Label) : Prop
  | quiet (heap : t.heap = s.heap) (held : ∀ i thread address, t.Holds i thread address ↔ s.Holds i thread address)
      (paid : ∀ address, s.allocated.count address + t.deleted.count address =
        t.allocated.count address + s.deleted.count address)
      (stays : label.abandons s = false)
  | store (i thread ptr : Nat) (free : s.heap ptr = false) (heap : t.heap = Function.update s.heap ptr true)
      (held : ∀ j other address, t.Holds j other address ↔
        (j = i ∧ other = thread ∧ address = ptr) ∨ s.Holds j other address)
      (allocated : t.allocated = s.allocated ++ [ptr]) (deleted : t.deleted = s.deleted)
      (stays : label.abandons s = false)
  | drop (gone : Nat → Nat → Prop) (heap : t.heap = s.heap) (allocated : t.allocated = s.allocated)
      (deleted : t.deleted = s.deleted)
      (held : ∀ i thread address, t.Holds i thread address ↔ s.Holds i thread address ∧ ¬ gone i thread)
      (abandons : label.abandons s = true ↔ ∃ i thread address, s.Holds i thread address ∧ gone i thread)

theorem construct_held (indexed : Indexed s) {answer : DWORD} (free : s.indices answer = false) (i thread address : Nat) :
    State.Holds {s with
      indices := Function.update s.indices answer true
      slots := Function.update s.slots answer fun _ => none
      objects := s.objects ++ [⟨answer,true⟩]} i thread address ↔ s.Holds i thread address := by
  have different {i : Nat} {index : DWORD} (found : s.objects[i]? = some ⟨index,true⟩) : index ≠ answer := by
    rintro rfl
    exact Bool.false_ne_true (free.symm.trans (indexed.used i index found))
  constructor
  · intro given
    obtain ⟨index,found,running,value⟩ := given
    rcases get_append found with kept | ⟨_,same⟩
    · exact ⟨index,kept,running,by simpa [different kept] using value⟩
    · cases same
      simp at value
  · intro given
    obtain ⟨index,found,running,value⟩ := given
    exact ⟨index,get_grows found,running,by simpa [different found] using value⟩

theorem destroy_held (s : State) (i : Nat) (index : DWORD) (indices : DWORD → Bool) (j thread address : Nat) :
    State.Holds {s with indices := indices, objects := s.objects.set i ⟨index,false⟩} j thread address ↔
      s.Holds j thread address ∧ ¬ j = i := by
  constructor
  · intro given
    obtain ⟨other,present,running,value⟩ := given
    rcases get_set present with ⟨_,same⟩ | ⟨apart,kept⟩
    · simp at same
    · exact ⟨⟨other,kept,running,value⟩,apart⟩
  · intro given
    obtain ⟨⟨other,present,running,value⟩,apart⟩ := given
    exact ⟨other,by rw [List.getElem?_set_ne (Ne.symm apart)]; exact present,running,value⟩

theorem createThread_held {thread : Nat} (absent : thread ∉ s.threads) (i other address : Nat) :
    State.Holds {s with
      threads := thread :: s.threads
      slots := fun index => Function.update (s.slots index) thread none} i other address ↔ s.Holds i other address := by
  constructor
  · intro given
    obtain ⟨index,found,running,value⟩ := given
    by_cases same : other = thread
    · simp [same] at value
    · exact ⟨index,found,by simpa [same] using running,by simpa [same] using value⟩
  · intro given
    obtain ⟨index,found,running,value⟩ := given
    have different : other ≠ thread := by rintro rfl; exact absent running
    exact ⟨index,found,List.mem_cons_of_mem _ running,by simpa [different] using value⟩

theorem exitThread_held (thread i other address : Nat) :
    State.Holds {s with threads := s.threads.filter (· ≠ thread)} i other address ↔
      s.Holds i other address ∧ ¬ other = thread := by
  simp only [State.Holds,List.mem_filter,decide_eq_true_eq]
  constructor
  · intro given
    obtain ⟨index,found,⟨running,different⟩,value⟩ := given
    exact ⟨⟨index,found,running,value⟩,different⟩
  · intro given
    obtain ⟨⟨index,found,running,value⟩,different⟩ := given
    exact ⟨index,found,⟨running,different⟩,value⟩

theorem store_held (indexed : Indexed s) {i thread ptr : Nat} {index : DWORD}
    (found : s.objects[i]? = some ⟨index,true⟩) (running : thread ∈ s.threads) (null : s.slots index thread = none)
    (j other address : Nat) :
    (tlsSetValue thread index ptr (new ptr s)).Holds j other address ↔
      (j = i ∧ other = thread ∧ address = ptr) ∨ s.Holds j other address := by
  constructor
  · intro given
    obtain ⟨second,present,alive,value⟩ := given
    by_cases same : second = index
    · subst same
      by_cases own : other = thread
      · refine Or.inl ⟨indexed.same present found,own,?_⟩
        simpa [tlsSetValue,new,own,eq_comm] using value
      · exact Or.inr ⟨second,present,alive,by simpa [tlsSetValue,new,own] using value⟩
    · exact Or.inr ⟨second,present,alive,by simpa [tlsSetValue,new,same] using value⟩
  · intro given
    rcases given with ⟨rfl,rfl,rfl⟩ | ⟨second,present,alive,value⟩
    · exact ⟨index,found,running,by simp [tlsSetValue,new]⟩
    · refine ⟨second,present,alive,?_⟩
      by_cases same : second = index
      · subst same
        have own : other ≠ thread := by rintro rfl; simp [null] at value
        simpa [tlsSetValue,new,own] using value
      · simpa [tlsSetValue,new,same] using value

theorem destroy_abandons {i : Nat} {index : DWORD} (found : s.objects[i]? = some ⟨index,true⟩) :
    (Label.destroy i).abandons s = true ↔ ∃ j thread address, s.Holds j thread address ∧ j = i := by
  simp only [Label.abandons,found,List.any_eq_true,Option.isSome_iff_exists]
  constructor
  · intro given
    obtain ⟨thread,running,address,value⟩ := given
    exact ⟨i,thread,address,⟨index,found,running,value⟩,rfl⟩
  · intro given
    obtain ⟨_,thread,address,⟨other,present,running,value⟩,rfl⟩ := given
    cases present.symm.trans found
    exact ⟨thread,running,address,value⟩

theorem exitThread_abandons {thread : Nat} (running : thread ∈ s.threads) :
    (Label.exitThread thread).abandons s = true ↔ ∃ i other address, s.Holds i other address ∧ other = thread := by
  simp only [Label.abandons,List.any_eq_true,Bool.and_eq_true,Option.isSome_iff_exists]
  constructor
  · intro given
    obtain ⟨⟨index,live⟩,member,alive,address,value⟩ := given
    obtain ⟨i,found⟩ := List.mem_iff_getElem?.mp member
    subst alive
    exact ⟨i,thread,address,⟨index,found,running,value⟩,rfl⟩
  · intro given
    obtain ⟨i,_,address,⟨index,found,_,value⟩,rfl⟩ := given
    exact ⟨⟨index,true⟩,List.mem_of_getElem? found,rfl,address,value⟩

theorem Moves.effect (indexed : Indexed s) (moves : Moves s label t) : Effect s t label := by
  cases moves with
  | construct answer lastError free => exact .quiet rfl (construct_held indexed free) (fun _ => rfl) rfl
  | refuse lastError => exact .quiet rfl (fun _ _ _ => Iff.rfl) (fun _ => rfl) rfl
  | destroy i index indices found others =>
    exact .drop (fun j _ => j = i) rfl rfl rfl (destroy_held s i index indices) (destroy_abandons found)
  | createThread thread absent => exact .quiet rfl (createThread_held absent) (fun _ => rfl) rfl
  | exitThread thread running =>
    exact .drop (fun _ other => other = thread) rfl rfl rfl (exitThread_held thread) (exitThread_abandons running)
  | keep thread i method answers => exact .quiet rfl (fun _ _ _ => Iff.rfl) (fun _ => rfl) rfl
  | store thread i method answers index ptr found running null free =>
    exact .store i thread ptr free rfl (store_held indexed found running null) rfl rfl rfl
  | discard thread i method answers ptr free =>
    refine .quiet ?_ (fun _ _ _ => Iff.rfl) (fun address => ?_) rfl
    · simp only [delete,new,Function.update_idem]
      rw [← free]
      exact Function.update_eq_self ptr s.heap
    · simp only [delete,new,List.count_append]
      omega

/-- What holds in every run: a value is the value of one object in one thread and is there,
and every `T` was deleted as often as it was allocated, but for the last time if it is there. -/
structure Sound (s : State) : Prop where
  indexed : Indexed s
  valued : ∀ i thread address, s.Holds i thread address → s.heap address = true
  single : ∀ i j thread other address, s.Holds i thread address → s.Holds j other address → i = j ∧ thread = other
  ledger : ∀ address, s.allocated.count address = s.deleted.count address + if s.heap address then 1 else 0

theorem Sound.moves (sound : Sound s) (moves : Moves s label t) : Sound t := by
  have indexed := sound.indexed.moves moves
  cases moves.effect sound.indexed with
  | quiet heap held paid _ =>
    refine ⟨indexed,?_,?_,?_⟩
    · simpa only [held,heap] using sound.valued
    · simpa only [held] using sound.single
    · intro address
      have before := sound.ledger address
      have change := paid address
      rw [heap]
      omega
  | store i thread ptr free heap held allocated deleted _ =>
    have absent (j other : Nat) : ¬ s.Holds j other ptr := by
      intro holds
      exact Bool.false_ne_true (free.symm.trans (sound.valued j other ptr holds))
    refine ⟨indexed,?_,?_,?_⟩
    · intro j other address holds
      rw [heap]
      rcases (held j other address).mp holds with ⟨_,_,rfl⟩ | before
      · exact Function.update_self ..
      · have different : address ≠ ptr := by rintro rfl; exact absent j other before
        simpa [different] using sound.valued j other address before
    · intro j k other second address first last
      rcases (held j other address).mp first with ⟨rfl,rfl,rfl⟩ | before
      · rcases (held k second address).mp last with ⟨rfl,rfl,_⟩ | earlier
        · exact ⟨rfl,rfl⟩
        · exact absurd earlier (absent k second)
      · rcases (held k second address).mp last with ⟨_,_,rfl⟩ | earlier
        · exact absurd before (absent j other)
        · exact sound.single j k other second address before earlier
    · intro address
      have before := sound.ledger address
      rw [heap,allocated,deleted,List.count_append]
      by_cases same : address = ptr
      · subst same
        simp only [free] at before
        simp [before]
      · simp [same,Ne.symm same,before]
  | drop gone heap allocated deleted held _ =>
    refine ⟨indexed,?_,?_,?_⟩
    · intro i thread address holds
      rw [heap]
      exact sound.valued i thread address ((held i thread address).mp holds).1
    · intro i j thread other address first last
      exact sound.single i j thread other address ((held i thread address).mp first).1 ((held j other address).mp last).1
    · simpa only [heap,allocated,deleted] using sound.ledger

def State.Kept (s : State) : Prop := ∀ address, s.heap address = true → s.Value address

theorem Sound.reclaims (sound : Sound s) (kept : s.Kept) : s.Reclaims where
  kept := kept
  once address valueless := by
    have absent : s.heap address = false := by
      by_contra there
      exact valueless (kept address (by simpa using there))
    have paid := sound.ledger address
    simp only [absent] at paid
    exact paid.symm

theorem State.Kept.moves (kept : s.Kept) (sound : Sound s) (stays : label.abandons s = false) (moves : Moves s label t) :
    t.Kept := by
  intro address there
  cases moves.effect sound.indexed with
  | quiet heap held _ _ =>
    rw [heap] at there
    obtain ⟨i,thread,holds⟩ := kept address there
    exact ⟨i,thread,(held i thread address).mpr holds⟩
  | store i thread ptr _ heap held _ _ _ =>
    by_cases same : address = ptr
    · exact ⟨i,thread,(held i thread address).mpr (Or.inl ⟨rfl,rfl,same⟩)⟩
    · rw [heap,Function.update_of_ne same] at there
      obtain ⟨j,other,holds⟩ := kept address there
      exact ⟨j,other,(held j other address).mpr (Or.inr holds)⟩
  | drop gone heap _ _ held abandons =>
    rw [heap] at there
    obtain ⟨i,thread,holds⟩ := kept address there
    refine ⟨i,thread,(held i thread address).mpr ⟨holds,fun dropped => ?_⟩⟩
    exact Bool.false_ne_true (stays.symm.trans (abandons.mpr ⟨i,thread,address,holds,dropped⟩))

/-- The `T` of a dropped value stays where it is, and it was the value of nothing else. -/
theorem Sound.abandons_leaks (sound : Sound s) (abandons : label.abandons s = true) (moves : Moves s label t) :
    ¬ t.Reclaims := by
  intro reclaims
  cases moves.effect sound.indexed with
  | quiet _ _ _ stays => exact Bool.false_ne_true (stays.symm.trans abandons)
  | store _ _ _ _ _ _ _ _ stays => exact Bool.false_ne_true (stays.symm.trans abandons)
  | drop gone heap _ _ held dropped =>
    obtain ⟨i,thread,address,holds,lost⟩ := dropped.mp abandons
    have there : t.heap address = true := heap ▸ sound.valued i thread address holds
    obtain ⟨j,other,still⟩ := reclaims.kept address there
    obtain ⟨before,stays⟩ := (held j other address).mp still
    obtain ⟨rfl,rfl⟩ := sound.single i j thread other address holds before
    exact stays lost

theorem holds_init (i thread address : Nat) : ¬ init.Holds i thread address := by
  intro given
  obtain ⟨index,found,_⟩ := given
  simp [init] at found

theorem sound_init : Sound init where
  indexed := ⟨fun i index found => by simp [init] at found,Exclusive.nil _⟩
  valued i thread address holds := absurd holds (holds_init i thread address)
  single i _ thread _ address holds := absurd holds (holds_init i thread address)
  ledger address := rfl

theorem sound_run {labels : List Label} (reached : run step init labels = some s) : Sound s :=
  run_invariant Sound (fun _ _ _ sound taken => sound.moves (step_moves taken)) sound_init reached

theorem get_refers {thread i address : Nat} {index : DWORD} {answers : Answers}
    (found : s.objects[i]? = some ⟨index,true⟩) (running : thread ∈ s.threads)
    (result : (get thread index answers s).1 = .ok address) : (get thread index answers s).2.Holds i thread address := by
  unfold get at result ⊢
  split at result
  next ptr value =>
    cases result
    exact ⟨index,found,running,value⟩
  next null =>
    split at result
    next => contradiction
    next ptr _ =>
      cases stored : answers.stored with
      | true =>
        simp only [setPointer,stored,if_true] at result ⊢
        cases result
        exact ⟨index,found,running,by simp [tlsSetValue,new]⟩
      | false =>
        simp only [setPointer,stored,Bool.false_eq_true,if_false] at result
        contradiction

theorem getConst_refers {thread i address : Nat} {index lastError : DWORD} (found : s.objects[i]? = some ⟨index,true⟩)
    (running : thread ∈ s.threads) (result : getConst thread index lastError s = .ok address) : s.Holds i thread address := by
  unfold getConst at result
  split at result
  next => contradiction
  next ptr value =>
    cases result
    exact ⟨index,found,running,value⟩

theorem refer_ok {called : Except Thrown Nat × State} {address : Nat} (result : (refer called).1 = .ok (.reference address)) :
    called.1 = .ok address := by
  obtain ⟨outcome,after⟩ := called
  cases outcome with
  | error => contradiction
  | ok ptr =>
    cases result
    rfl

theorem call_holds {thread i address : Nat} {index : DWORD} {answers : Answers} (method : Method)
    (found : s.objects[i]? = some ⟨index,true⟩) (running : thread ∈ s.threads)
    (result : (method.call thread index answers s).1 = .ok (.reference address)) :
    (method.call thread index answers s).2.Holds i thread address := by
  cases method with
  | get | arrow | dereference => exact get_refers found running (refer_ok result)
  | getConst | arrowConst | dereferenceConst => exact getConst_refers found running (refer_ok result)
  | hasValue => simp [Method.call] at result

/-- Every reference that a method returns is to a `T` that is there, the thread's own value of the object. -/
theorem call_refers {labels : List Label} {thread i address : Nat} {index : DWORD} {answers : Answers} (method : Method)
    (reached : run step init labels = some s) (found : s.objects[i]? = some ⟨index,true⟩) (running : thread ∈ s.threads)
    (free : answers.address.all (fun address => !s.heap address) = true)
    (result : (method.call thread index answers s).1 = .ok (.reference address)) :
    (method.call thread index answers s).2.Holds i thread address ∧
      (method.call thread index answers s).2.heap address = true := by
  have taken : step s (.call thread i method answers) = some (method.call thread index answers s).2 := by
    simp only [step,running,free,found,and_self,if_true]
  have holds := call_holds method found running result
  exact ⟨holds,((sound_run reached).moves (step_moves taken)).valued i thread address holds⟩

/-- A `T` that is there stays there in every run: only one that `TlsSetValue` refused is ever deleted. -/
theorem value_never_deleted {labels : List Label} (sound : Sound s) (reached : run step s labels = some t) (address : Nat)
    (there : s.heap address = true) : t.heap address = true := by
  refine (run_invariant (fun state => Sound state ∧ state.heap address = true) ?_ ⟨sound,there⟩ reached).2
  intro before label after known taken
  have moves := step_moves taken
  refine ⟨known.1.moves moves,?_⟩
  cases moves.effect known.1.indexed with
  | quiet heap _ _ _ | drop _ heap _ _ _ _ => exact heap ▸ known.2
  | store _ _ ptr free heap _ _ _ _ =>
    have different : address ≠ ptr := by rintro rfl; exact Bool.false_ne_true (free.symm.trans known.2)
    rw [heap,Function.update_of_ne different]
    exact known.2

theorem reclaims_iff_abandons_none {labels : List Label} (reached : run step init labels = some s) :
    Along step State.Reclaims init labels ↔ Obeys step (fun before label => label.abandons before = false) init labels := by
  have preserved (before : State) (label : Label) (after : State) (known : Sound before ∧ before.Kept)
      (stays : label.abandons before = false) (taken : step before label = some after) : Sound after ∧ after.Kept := by
    have moves := step_moves taken
    exact ⟨known.1.moves moves,known.2.moves known.1 stays moves⟩
  have breach (before : State) (label : Label) (after : State) (known : Sound before ∧ before.Kept)
      (abandons : ¬ label.abandons before = false) (taken : step before label = some after) : ¬ after.Reclaims :=
    known.1.abandons_leaks (by simpa using abandons) (step_moves taken)
  have kept : init.Kept := fun _ there => absurd there Bool.false_ne_true
  exact along_iff_obeys preserved (fun _ known => known.1.reclaims known.2) breach ⟨sound_init,kept⟩ reached

def uses : List Label :=
  [.createThread 0,.createThread 1,.construct 5 0,.call 0 0 .dereference ⟨some 100,true,0⟩,.call 1 0 .get ⟨some 200,false,0⟩]

theorem reclaims_of_valueless_exit : ∃ s, run step init (uses ++ [.exitThread 1]) = some s ∧
    Along step State.Reclaims init (uses ++ [.exitThread 1]) := by
  obtain ⟨s,reached⟩ : ∃ s, run step init (uses ++ [.exitThread 1]) = some s := ⟨_,rfl⟩
  exact ⟨s,reached,(reclaims_iff_abandons_none reached).mpr (by decide)⟩

/-- Both ways for a value to leak: its thread exits, or its object is destroyed. -/
theorem abandoned_values_leak :
    (∃ s, run step init (uses ++ [.exitThread 0]) = some s ∧ s.allocated = [100,200] ∧ s.deleted = [200] ∧ ¬ s.Reclaims) ∧
    ∃ s, run step init (uses ++ [.destroy 0]) = some s ∧ s.allocated = [100,200] ∧ s.deleted = [200] ∧ ¬ s.Reclaims := by
  have leaks (last : Label) {before after : State} (reached : run step init uses = some before)
      (taken : step before last = some after) (abandons : last.abandons before = true) : ¬ after.Reclaims :=
    (sound_run reached).abandons_leaks abandons (step_moves taken)
  exact ⟨⟨_,rfl,rfl,rfl,leaks (.exitThread 0) rfl rfl rfl⟩,_,rfl,rfl,rfl,leaks (.destroy 0) rfl rfl rfl⟩

end Ezthread.ThreadLocal
