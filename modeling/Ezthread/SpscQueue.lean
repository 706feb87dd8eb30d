import Ezthread.RingBuffer
import Ezthread.Transition
import Mathlib.Data.List.Basic

/-! `SPSCQueue` of atomic.hpp for one producer and one consumer thread, one step
for each load, buffer access and store. The masked index never exceeds
`Capacity`, so the addition of one cannot leave `size_t`. -/
namespace Ezthread.SpscQueue
open Transition RingBuffer

variable {α : Type*}

inductive Producer (α : Type*)
  | idle
  | loadWrite (item : α)
  | loadRead (item : α) (currentWrite : Nat)
  | writeItem (item : α) (currentWrite : Nat)
  | storeWrite (item : α) (currentWrite : Nat)
  | returned (result : Bool)

inductive Consumer (α : Type*)
  | idle
  | loadRead
  | loadWrite (currentRead : Nat)
  | readItem (currentRead : Nat)
  | storeRead (item : α) (currentRead : Nat)
  | returned (result : Option α)

/-- `pushed` and `popped` are no memory of the program: they list the items of
the calls that have returned true, in order. -/
structure State (α : Type*) where
  readPos : Nat
  writePos : Nat
  buffer : Nat → α
  producer : Producer α
  consumer : Consumer α
  pushed : List α
  popped : List α

def init (buffer : Nat → α) : State α := ⟨0,0,buffer,.idle,.idle,[],[]⟩

inductive Label (α : Type*)
  | push (item : α)
  | pop
  | producer
  | consumer

def nextIndex (capacity index : Nat) : Nat := (index + 1) &&& (capacity - 1)

/-- Both overloads of `Push`, which differ only in how the item is assigned. -/
def stepPush (capacity : Nat) (s : State α) : Option (State α) :=
  match s.producer with
  | .loadWrite item => some {s with producer := .loadRead item s.writePos}
  | .loadRead item currentWrite =>
      if nextIndex capacity currentWrite = s.readPos then some {s with producer := .returned false}
      else some {s with producer := .writeItem item currentWrite}
  | .writeItem item currentWrite => some {s with
      buffer := Function.update s.buffer currentWrite item, producer := .storeWrite item currentWrite}
  | .storeWrite item currentWrite => some {s with
      writePos := nextIndex capacity currentWrite, producer := .returned true, pushed := s.pushed ++ [item]}
  | .idle | .returned _ => none

/-- `Pop`; `moved` is what `std::move` leaves in the slot. -/
def stepPop (moved : α → α) (capacity : Nat) (s : State α) : Option (State α) :=
  match s.consumer with
  | .loadRead => some {s with consumer := .loadWrite s.readPos}
  | .loadWrite currentRead =>
      if currentRead = s.writePos then some {s with consumer := .returned none}
      else some {s with consumer := .readItem currentRead}
  | .readItem currentRead => some {s with
      buffer := Function.update s.buffer currentRead (moved (s.buffer currentRead))
      consumer := .storeRead (s.buffer currentRead) currentRead}
  | .storeRead item currentRead => some {s with
      readPos := nextIndex capacity currentRead, consumer := .returned (some item), popped := s.popped ++ [item]}
  | .idle | .returned _ => none

def Producer.ready : Producer α → Bool
  | .idle | .returned _ => true
  | _ => false

def Consumer.ready : Consumer α → Bool
  | .idle | .returned _ => true
  | _ => false

def step (moved : α → α) (capacity : Nat) (s : State α) : Label α → Option (State α)
  | .push item => if s.producer.ready then some {s with producer := .loadWrite item} else none
  | .pop => if s.consumer.ready then some {s with consumer := .loadRead} else none
  | .producer => stepPush capacity s
  | .consumer => stepPop moved capacity s

def State.stored (s : State α) : List α := s.pushed.drop s.popped.length

def Producing (capacity : Nat) (s : State α) : Producer α → Prop
  | .loadRead _ currentWrite => currentWrite = s.writePos
  | .writeItem _ currentWrite =>
      currentWrite = s.writePos ∧ s.pushed.length + 1 < s.popped.length + capacity
  | .storeWrite item currentWrite =>
      currentWrite = s.writePos ∧ s.pushed.length + 1 < s.popped.length + capacity ∧
        s.buffer currentWrite = item
  | _ => True

def Consuming (s : State α) : Consumer α → Prop
  | .loadWrite currentRead => currentRead = s.readPos
  | .readItem currentRead => currentRead = s.readPos ∧ s.popped.length < s.pushed.length
  | .storeRead item currentRead => currentRead = s.readPos ∧ s.pushed[s.popped.length]? = some item
  | _ => True

def Consumer.first (popped : Nat) : Consumer α → Nat
  | .storeRead _ _ => popped + 1
  | _ => popped

structure Inv (capacity : Nat) (s : State α) : Prop where
  writePos : s.writePos = s.pushed.length % capacity
  readPos : s.readPos = s.popped.length % capacity
  bounded : s.pushed.length < s.popped.length + capacity
  fifo : s.popped <+: s.pushed
  holds : Holds capacity s.buffer s.pushed (s.consumer.first s.popped.length)
  producing : Producing capacity s s.producer
  consuming : Consuming s s.consumer

theorem Inv.ordered {capacity : Nat} {s : State α} (inv : Inv capacity s) :
    s.popped.length ≤ s.pushed.length := inv.fifo.length_le

theorem nextIndex_mod {k index position : Nat} (same : index = position % 2 ^ k) :
    nextIndex (2 ^ k) index = (position + 1) % 2 ^ k := by
  rw [nextIndex,mask_eq,same,Nat.mod_add_mod]

/-- The producer's test: the next slot is the reader's exactly when the queue is full. -/
theorem full_iff {k : Nat} {s : State α} (inv : Inv (2 ^ k) s) {currentWrite : Nat}
    (same : currentWrite = s.writePos) :
    nextIndex (2 ^ k) currentWrite = s.readPos ↔ s.pushed.length + 1 = s.popped.length + 2 ^ k := by
  have ordered := inv.ordered
  have bounded := inv.bounded
  rw [nextIndex_mod (same.trans inv.writePos),inv.readPos]
  constructor
  · intro equal
    by_contra room
    have meets : s.popped.length = s.pushed.length + 1 :=
      slot_inj (by omega) (by omega) equal.symm
    omega
  · intro full
    rw [full,Nat.add_mod_right]

theorem empty_iff {k : Nat} {s : State α} (inv : Inv (2 ^ k) s) {currentRead : Nat}
    (same : currentRead = s.readPos) : currentRead = s.writePos ↔ s.popped.length = s.pushed.length := by
  rw [same,inv.readPos,inv.writePos]
  constructor
  · exact slot_inj inv.ordered inv.bounded
  · intro equal
    rw [equal]

/-- What the consumer knows survives a push. -/
theorem Consuming.push {s t : State α} {consumer : Consumer α} {item : α} (consuming : Consuming s consumer)
    (readPos : t.readPos = s.readPos) (popped : t.popped = s.popped) (pushed : t.pushed = s.pushed ++ [item]) :
    Consuming t consumer := by
  cases consumer with
  | loadWrite currentRead => exact Eq.trans consuming readPos.symm
  | readItem currentRead =>
    obtain ⟨same,inside⟩ := consuming
    refine ⟨same.trans readPos.symm,?_⟩
    rw [popped,pushed,List.length_append]
    exact Nat.lt_add_right _ inside
  | storeRead stored currentRead =>
    obtain ⟨same,front⟩ := consuming
    refine ⟨same.trans readPos.symm,?_⟩
    rw [popped,pushed,List.getElem?_append_left (List.getElem?_eq_some_iff.mp front).1]
    exact front
  | idle | loadRead | returned => trivial

/-- What the producer knows survives a pop that leaves its slot alone. -/
theorem Producing.pop {capacity : Nat} {s t : State α} {producer : Producer α} (producing : Producing capacity s producer)
    (writePos : t.writePos = s.writePos) (pushed : t.pushed = s.pushed) (popped : s.popped.length ≤ t.popped.length)
    (slot : s.pushed.length + 1 < s.popped.length + capacity → t.buffer s.writePos = s.buffer s.writePos) :
    Producing capacity t producer := by
  have roomier (room : s.pushed.length + 1 < s.popped.length + capacity) :
      t.pushed.length + 1 < t.popped.length + capacity := by
    rw [pushed]
    omega
  cases producer with
  | loadRead item currentWrite => exact Eq.trans producing writePos.symm
  | writeItem item currentWrite => exact ⟨producing.1.trans writePos.symm,roomier producing.2⟩
  | storeWrite item currentWrite =>
    obtain ⟨same,room,written⟩ := producing
    subst same
    exact ⟨writePos.symm,roomier room,(slot room).trans written⟩
  | idle | loadWrite | returned => trivial

theorem inv_push {k : Nat} {s t : State α} (inv : Inv (2 ^ k) s) (taken : stepPush (2 ^ k) s = some t) :
    Inv (2 ^ k) t := by
  have known := inv.producing
  unfold stepPush at taken
  split at taken
  next item point =>
    cases taken
    exact {inv with producing := rfl}
  next item currentWrite point =>
    rw [point] at known
    split at taken
    · cases taken
      exact {inv with producing := trivial}
    · next room =>
      cases taken
      have notFull := mt (full_iff inv known).mpr room
      have bounded := inv.bounded
      have vacant : s.pushed.length + 1 < s.popped.length + 2 ^ k := by omega
      exact {inv with producing := ⟨known,vacant⟩}
  next item currentWrite point =>
    rw [point] at known
    cases taken
    obtain ⟨rfl,room⟩ := known
    refine {inv with holds := ?_, producing := ⟨rfl,room,Function.update_self ..⟩}
    rw [inv.writePos]
    have first : s.popped.length ≤ s.consumer.first s.popped.length := by
      cases s.consumer <;> simp [Consumer.first]
    exact inv.holds.write_ahead item (by omega)
  next item currentWrite point =>
    rw [point] at known
    cases taken
    obtain ⟨rfl,room,written⟩ := known
    refine ⟨?_,inv.readPos,?_,inv.fifo.trans (List.prefix_append _ _),?_,trivial,?_⟩
    · simpa using nextIndex_mod inv.writePos
    · simp only [List.length_append,List.length_singleton]
      omega
    · exact inv.holds.append (by rw [← inv.writePos]; exact written)
    · exact inv.consuming.push rfl rfl rfl
  all_goals contradiction

theorem front_item {k : Nat} {s : State α} (inv : Inv (2 ^ k) s) {currentRead : Nat}
    (reading : s.consumer = .readItem currentRead) :
    s.pushed[s.popped.length]? = some (s.buffer currentRead) := by
  have known := inv.consuming
  rw [reading] at known
  obtain ⟨rfl,inside⟩ := known
  have holds := inv.holds
  rw [reading] at holds
  have found := List.getElem?_eq_getElem inside
  rw [found,inv.readPos]
  exact congrArg some (holds _ _ (Nat.le_refl _) found).symm

theorem inv_pop {k : Nat} {moved : α → α} {s t : State α} (inv : Inv (2 ^ k) s)
    (taken : stepPop moved (2 ^ k) s = some t) : Inv (2 ^ k) t := by
  have known := inv.consuming
  have holds := inv.holds
  unfold stepPop at taken
  split at taken
  next point =>
    rw [point] at holds
    cases taken
    exact {inv with holds := holds, consuming := rfl}
  next currentRead point =>
    rw [point] at known holds
    split at taken
    · cases taken
      exact {inv with holds := holds, consuming := trivial}
    · next some =>
      cases taken
      have ordered := inv.ordered
      have different := mt (empty_iff inv known).mpr some
      have occupied : s.popped.length < s.pushed.length := by omega
      exact {inv with holds := holds, consuming := ⟨known,occupied⟩}
  next currentRead point =>
    have front := front_item inv point
    rw [point] at known holds
    cases taken
    obtain ⟨rfl,inside⟩ := known
    have bounded := inv.bounded
    refine {inv with holds := ?_, producing := ?_, consuming := ⟨rfl,front⟩}
    · rw [inv.readPos]
      exact holds.write_behind _ (by simp only [Consumer.first]; omega)
    · refine inv.producing.pop rfl rfl (Nat.le_refl _) fun room => ?_
      have apart : s.writePos ≠ s.readPos := by
        rw [inv.writePos,inv.readPos]
        exact (slot_ne inside bounded).symm
      exact Function.update_of_ne apart _ _
  next item currentRead point =>
    rw [point] at known holds
    cases taken
    obtain ⟨rfl,front⟩ := known
    have inside := (List.getElem?_eq_some_iff.mp front).1
    have bounded := inv.bounded
    refine ⟨inv.writePos,?_,?_,?_,?_,?_,trivial⟩
    · simpa using nextIndex_mod inv.readPos
    · simp only [List.length_append,List.length_singleton]
      omega
    · have prior := List.prefix_iff_eq_take.mp inv.fifo
      rw [List.prefix_iff_eq_take,List.length_append,List.length_singleton,List.take_add_one,← prior,front]
      rfl
    · simpa [Consumer.first] using holds
    · exact inv.producing.pop rfl rfl (by simp) fun _ => rfl
  all_goals contradiction

theorem inv_init (k : Nat) (buffer : Nat → α) : Inv (2 ^ k) (init buffer) where
  writePos := by simp [init]
  readPos := by simp [init]
  bounded := by
    change 0 < 0 + 2 ^ k
    rw [Nat.zero_add]
    exact Nat.two_pow_pos k
  fifo := List.prefix_rfl
  holds := by
    intro position item _ found
    simp [init] at found
  producing := trivial
  consuming := trivial

theorem inv_step {k : Nat} {moved : α → α} (s : State α) (label : Label α) (t : State α)
    (inv : Inv (2 ^ k) s) (taken : step moved (2 ^ k) s label = some t) : Inv (2 ^ k) t := by
  cases label with
  | producer => exact inv_push inv taken
  | consumer => exact inv_pop inv taken
  | push item =>
    simp only [step] at taken
    split at taken
    · cases taken
      exact {inv with producing := trivial}
    · contradiction
  | pop =>
    simp only [step] at taken
    split at taken
    next ready =>
      cases taken
      have holds := inv.holds
      have first : s.consumer.first s.popped.length = s.popped.length := by
        cases shape : s.consumer <;> simp_all [Consumer.ready,Consumer.first]
      rw [first] at holds
      exact {inv with holds := holds, consuming := trivial}
    next => contradiction

theorem inv_run {k : Nat} {moved : α → α} {buffer : Nat → α} {labels : List (Label α)} {s : State α}
    (reached : run (step moved (2 ^ k)) (init buffer) labels = some s) : Inv (2 ^ k) s :=
  run_invariant (Inv (2 ^ k)) inv_step (inv_init k buffer) reached

theorem Inv.contents {capacity : Nat} {s : State α} (inv : Inv capacity s) :
    s.pushed = s.popped ++ s.stored := by
  obtain ⟨rest,split⟩ := inv.fifo
  rw [State.stored,← split,List.drop_left]

theorem stored_length (s : State α) : s.stored.length = s.pushed.length - s.popped.length :=
  List.length_drop

/-- A refused `Push` has just compared with `m_readPos`, and a refused `Pop`
with `m_writePos`. -/
theorem refused_push {k : Nat} {s t : State α} (inv : Inv (2 ^ k) s)
    (taken : stepPush (2 ^ k) s = some t) (refused : t.producer = .returned false) :
    (∃ item currentWrite, s.producer = .loadRead item currentWrite) ∧ s.stored.length = 2 ^ k - 1 := by
  have known := inv.producing
  cases point : s.producer with
  | idle | returned => simp [stepPush,point] at taken
  | loadWrite | writeItem | storeWrite =>
    simp only [stepPush,point,Option.some.injEq] at taken
    subst taken
    simp at refused
  | loadRead item currentWrite =>
    rw [point] at known
    simp only [stepPush,point] at taken
    split at taken
    next equal =>
      have full := (full_iff inv known).mp equal
      refine ⟨⟨item,currentWrite,rfl⟩,?_⟩
      rw [stored_length]
      omega
    next =>
      cases taken
      simp at refused

theorem refused_pop {k : Nat} {moved : α → α} {s t : State α} (inv : Inv (2 ^ k) s)
    (taken : stepPop moved (2 ^ k) s = some t) (refused : t.consumer = .returned none) :
    (∃ currentRead, s.consumer = .loadWrite currentRead) ∧ s.stored = [] := by
  have known := inv.consuming
  cases point : s.consumer with
  | idle | returned => simp [stepPop,point] at taken
  | loadRead | readItem | storeRead =>
    simp only [stepPop,point,Option.some.injEq] at taken
    subst taken
    simp at refused
  | loadWrite currentRead =>
    rw [point] at known
    simp only [stepPop,point] at taken
    split at taken
    next equal =>
      have none := (empty_iff inv known).mp equal
      exact ⟨⟨currentRead,rfl⟩,List.drop_eq_nil_of_le (by omega)⟩
    next =>
      cases taken
      simp at refused

/-- The queue refines a first-in first-out queue of `Capacity - 1` items. The
items popped are a prefix of those pushed and the rest are stored, each in its
slot; a slot about to be written holds no item the consumer has not returned and
is not the slot the consumer is about to read; and a refusal is right at the
load of the other side's index. -/
theorem spsc_fifo {k : Nat} {moved : α → α} {buffer : Nat → α} {s : State α} (labels : List (Label α))
    (reached : run (step moved (2 ^ k)) (init buffer) labels = some s) :
    s.popped <+: s.pushed ∧ s.pushed = s.popped ++ s.stored ∧ s.stored.length ≤ 2 ^ k - 1 ∧
    Holds (2 ^ k) s.buffer s.pushed (s.consumer.first s.popped.length) ∧
    (∀ item currentWrite, s.producer = .writeItem item currentWrite →
      (∀ position, s.popped.length ≤ position → position < s.pushed.length →
        position % 2 ^ k ≠ currentWrite) ∧
      ∀ currentRead, s.consumer = .readItem currentRead → currentRead ≠ currentWrite) ∧
    (∀ t, step moved (2 ^ k) s .producer = some t → t.producer = .returned false →
      (∃ item currentWrite, s.producer = .loadRead item currentWrite) ∧ s.stored.length = 2 ^ k - 1) ∧
    (∀ t, step moved (2 ^ k) s .consumer = some t → t.consumer = .returned none →
      (∃ currentRead, s.consumer = .loadWrite currentRead) ∧ s.stored = []) := by
  have inv := inv_run reached
  have bounded := inv.bounded
  refine ⟨inv.fifo,inv.contents,?_,inv.holds,?_,fun t taken => refused_push inv taken,
    fun t taken => refused_pop inv taken⟩
  · rw [stored_length]
    omega
  · intro item currentWrite writing
    have known := inv.producing
    rw [writing] at known
    obtain ⟨rfl,room⟩ := known
    have apart (position : Nat) (above : s.popped.length ≤ position) (below : position < s.pushed.length) :
        position % 2 ^ k ≠ s.writePos := by
      rw [inv.writePos]
      exact slot_ne below (by omega)
    refine ⟨apart,fun currentRead reading => ?_⟩
    have reader := inv.consuming
    rw [reading] at reader
    rw [reader.1,inv.readPos]
    exact apart _ (Nat.le_refl _) reader.2

/-- With two slots one item fills the queue: the second `Push` is refused until
the `Pop` has returned. -/
theorem spsc_fifo_two_slots :
    ∃ s : State Nat, run (step id (2 ^ 1)) (init fun _ => 0)
      [.push 5,.producer,.producer,.producer,.producer,.push 6,.producer,.pop,.consumer,.consumer,
        .consumer,.producer,.consumer] = some s ∧
      (s.pushed,s.popped) = ([5],[5]) ∧ s.popped <+: s.pushed := by
  obtain ⟨s,reached,logs⟩ := Option.map_eq_some_iff.mp (show (run (step id (2 ^ 1)) (init fun _ => 0)
    [.push 5,.producer,.producer,.producer,.producer,.push 6,.producer,.pop,.consumer,.consumer,
      .consumer,.producer,.consumer]).map (fun s => (s.pushed,s.popped)) = some ([5],[5]) from rfl)
  exact ⟨s,reached,logs,(spsc_fifo _ reached).1⟩

end Ezthread.SpscQueue
