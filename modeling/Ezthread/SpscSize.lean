import Ezthread.SpscQueue

/-! `SPSCQueue::Size` called by the producer or by the consumer. A thread is in one
call at a time, so its own index does not move while it is in `Size`. -/
namespace Ezthread.SpscQueue
open Transition RingBuffer

variable {α : Type*}

inductive Side
  | producer
  | consumer
  deriving DecidableEq

inductive SizeCall
  | idle
  | loadWrite
  | loadRead (writePos : Nat)
  | returned (value : Nat)
  deriving DecidableEq

structure Sized (α : Type*) where
  queue : State α
  sizes : Side → SizeCall

inductive SizedLabel (α : Type*)
  | queue (label : Label α)
  | size (side : Side)
  | load (side : Side)

def sizedInit (buffer : Nat → α) : Sized α := ⟨init buffer,fun _ => .idle⟩

/-- Neither formula leaves `size_t`: an index is below `Capacity`. -/
def size (capacity writePos readPos : Nat) : Nat :=
  if writePos ≥ readPos then writePos - readPos else capacity - readPos + writePos

def SizeCall.ready : SizeCall → Bool
  | .idle | .returned _ => true
  | _ => false

/-- The thread is in no call of `Push` or of `Pop`. -/
def State.ready (s : State α) : Side → Bool
  | .producer => s.producer.ready
  | .consumer => s.consumer.ready

def stepSize (capacity : Nat) (queue : State α) : SizeCall → Option SizeCall
  | .loadWrite => some (.loadRead queue.writePos)
  | .loadRead writePos => some (.returned (size capacity writePos queue.readPos))
  | .idle | .returned _ => none

/-- A thread begins `Push` or `Pop` only when its `Size` has returned. -/
def Sized.permits (s : Sized α) : Label α → Bool
  | .push _ => (s.sizes .producer).ready
  | .pop => (s.sizes .consumer).ready
  | .producer | .consumer => true

def sizedStep (moved : α → α) (capacity : Nat) (s : Sized α) : SizedLabel α → Option (Sized α)
  | .queue label =>
      if s.permits label then (step moved capacity s.queue label).map fun queue => {s with queue := queue} else none
  | .size side =>
      if s.queue.ready side && (s.sizes side).ready then some {s with sizes := Function.update s.sizes side .loadWrite}
      else none
  | .load side => (stepSize capacity s.queue (s.sizes side)).map fun call => {s with sizes := Function.update s.sizes side call}

/-- The two formulas agree with the difference of the unbounded positions. -/
theorem size_mod {k low high : Nat} (ordered : low ≤ high) (window : high < low + 2 ^ k) :
    size (2 ^ k) (high % 2 ^ k) (low % 2 ^ k) = high - low := by
  obtain ⟨stored,rfl⟩ := Nat.exists_eq_add_of_le ordered
  have small : stored < 2 ^ k := by omega
  have inside := Nat.mod_lt low (Nat.two_pow_pos k)
  rw [Nat.add_mod,Nat.mod_eq_of_lt small]
  unfold size
  by_cases straight : low % 2 ^ k + stored < 2 ^ k
  · rw [Nat.mod_eq_of_lt straight,if_pos (by omega)]
    omega
  · have wrapped : (low % 2 ^ k + stored) % 2 ^ k = low % 2 ^ k + stored - 2 ^ k := by
      rw [Nat.mod_eq_sub_mod (by omega),Nat.mod_eq_of_lt (by omega)]
    rw [wrapped,if_neg (by omega)]
    omega

/-- What a thread knows while it is in `Size`: the consumer's load of `m_writePos`
may have grown old, the producer's may not. -/
def Sizing (k : Nat) (queue : State α) : Side → SizeCall → Prop
  | side, .loadWrite => queue.ready side = true
  | .producer, .loadRead writePos => queue.ready .producer = true ∧ writePos = queue.writePos
  | .consumer, .loadRead writePos => queue.ready .consumer = true ∧
      ∃ high, writePos = high % 2 ^ k ∧ queue.popped.length ≤ high ∧ high ≤ queue.pushed.length
  | _, _ => True

structure SizedInv (k : Nat) (s : Sized α) : Prop where
  queue : Inv (2 ^ k) s.queue
  sizing : ∀ side, Sizing k s.queue side (s.sizes side)

/-- How many of the thread's calls have returned true, and how many could have. -/
def State.done (s : State α) : Side → Nat
  | .producer => s.pushed.length
  | .consumer => s.popped.length

def State.room (capacity : Nat) (s : State α) : Side → Nat
  | .producer => s.popped.length + (capacity - 1)
  | .consumer => s.pushed.length

def State.index (s : State α) : Side → Nat
  | .producer => s.writePos
  | .consumer => s.readPos

def State.pending (s : State α) (side : Side) : Nat := if s.ready side then 0 else 1

def State.refused (s : State α) : Side → Prop
  | .producer => s.producer = .returned false
  | .consumer => s.consumer = .returned none

def Label.begins : Side → Label α → Bool
  | .producer, .push _ => true
  | .consumer, .pop => true
  | _, _ => false

def Label.side : Label α → Side
  | .push _ | .producer => .producer
  | .pop | .consumer => .consumer

def SizedLabel.begins (side : Side) : SizedLabel α → Bool
  | .queue label => label.begins side
  | _ => false

/-- Of the calls the thread has begun since `s`, those that have returned have
returned true, the last one among them. -/
def Succeeds (s t : State α) (side : Side) (calls : Nat) : Prop :=
  t.done side + t.pending side = s.done side + calls ∧ (t.refused side → calls = 0)

section Calls
variable {moved : α → α} {k capacity : Nat} {s t : State α} {label : Label α}

theorem stepPush_frame (taken : stepPush capacity s = some t) :
    t.consumer = s.consumer ∧ t.readPos = s.readPos ∧ t.popped = s.popped ∧ s.pushed.length ≤ t.pushed.length := by
  unfold stepPush at taken
  split at taken
  next => cases taken; exact ⟨rfl,rfl,rfl,Nat.le_refl _⟩
  next => split at taken <;> (cases taken; exact ⟨rfl,rfl,rfl,Nat.le_refl _⟩)
  next => cases taken; exact ⟨rfl,rfl,rfl,Nat.le_refl _⟩
  next => cases taken; exact ⟨rfl,rfl,rfl,by simp⟩
  all_goals contradiction

theorem stepPop_frame (taken : stepPop moved capacity s = some t) :
    t.producer = s.producer ∧ t.writePos = s.writePos ∧ t.pushed = s.pushed ∧ s.popped.length ≤ t.popped.length := by
  unfold stepPop at taken
  split at taken
  next => cases taken; exact ⟨rfl,rfl,rfl,Nat.le_refl _⟩
  next => split at taken <;> (cases taken; exact ⟨rfl,rfl,rfl,Nat.le_refl _⟩)
  next => cases taken; exact ⟨rfl,rfl,rfl,Nat.le_refl _⟩
  next => cases taken; exact ⟨rfl,rfl,rfl,by simp⟩
  all_goals contradiction

theorem stepPush_pending (taken : stepPush capacity s = some t) : s.pending .producer = 1 := by
  cases point : s.producer with
  | idle | returned => simp [stepPush,point] at taken
  | loadWrite | loadRead | writeItem | storeWrite => simp [State.pending,State.ready,Producer.ready,point]

theorem stepPop_pending (taken : stepPop moved capacity s = some t) : s.pending .consumer = 1 := by
  cases point : s.consumer with
  | idle | returned => simp [stepPop,point] at taken
  | loadRead | loadWrite | readItem | storeRead => simp [State.pending,State.ready,Consumer.ready,point]

theorem stepPush_done (inv : Inv (2 ^ k) s) (taken : stepPush (2 ^ k) s = some t)
    (vacant : s.pushed.length < s.popped.length + (2 ^ k - 1)) :
    t.pushed.length + t.pending .producer = s.pushed.length + 1 ∧ ¬ t.refused .producer := by
  have accepted : t.producer ≠ .returned false := by
    intro refused
    have ordered := inv.ordered
    have full := (refused_push inv taken refused).2
    rw [stored_length] at full
    omega
  refine ⟨?_,accepted⟩
  unfold stepPush at taken
  split at taken
  next => cases taken; rfl
  next =>
    split at taken <;> cases taken
    next => exact absurd rfl accepted
    next => rfl
  next => cases taken; rfl
  next => cases taken; simp [State.pending,State.ready,Producer.ready]
  all_goals contradiction

theorem stepPop_done (inv : Inv (2 ^ k) s) (taken : stepPop moved (2 ^ k) s = some t)
    (occupied : s.popped.length < s.pushed.length) :
    t.popped.length + t.pending .consumer = s.popped.length + 1 ∧ ¬ t.refused .consumer := by
  have accepted : t.consumer ≠ .returned none := by
    intro refused
    have empty := congrArg List.length (refused_pop inv taken refused).2
    rw [stored_length,List.length_nil] at empty
    omega
  refine ⟨?_,accepted⟩
  unfold stepPop at taken
  split at taken
  next => cases taken; rfl
  next =>
    split at taken <;> cases taken
    next => exact absurd rfl accepted
    next => rfl
  next => cases taken; rfl
  next => cases taken; simp [State.pending,State.ready,Consumer.ready]
  all_goals contradiction

theorem room_step (side : Side) (taken : step moved capacity s label = some t) :
    s.room capacity side ≤ t.room capacity side := by
  cases label with
  | push | pop =>
    simp only [step] at taken
    split at taken <;> cases taken
    cases side <;> exact Nat.le_refl _
  | producer =>
    obtain ⟨_,_,popped,grows⟩ := stepPush_frame taken
    cases side with
    | producer => simp only [State.room,popped,Nat.le_refl]
    | consumer => exact grows
  | consumer =>
    obtain ⟨_,_,pushed,grows⟩ := stepPop_frame taken
    cases side with
    | producer => exact Nat.add_le_add_right grows _
    | consumer => simp only [State.room,pushed,Nat.le_refl]

theorem apart_step {side : Side} (taken : step moved capacity s label = some t) (apart : label.side ≠ side) :
    t.ready side = s.ready side ∧ t.index side = s.index side ∧ t.done side = s.done side ∧
      (t.refused side ↔ s.refused side) := by
  cases side with
  | producer =>
    cases label with
    | push | producer => exact absurd rfl apart
    | pop =>
      simp only [step] at taken
      split at taken <;> cases taken
      exact ⟨rfl,rfl,rfl,Iff.rfl⟩
    | consumer =>
      obtain ⟨control,index,pushed,_⟩ := stepPop_frame taken
      simp [State.ready,State.index,State.done,State.refused,control,index,pushed]
  | consumer =>
    cases label with
    | pop | consumer => exact absurd rfl apart
    | push =>
      simp only [step] at taken
      split at taken <;> cases taken
      exact ⟨rfl,rfl,rfl,Iff.rfl⟩
    | producer =>
      obtain ⟨control,index,popped,_⟩ := stepPush_frame taken
      simp [State.ready,State.index,State.done,State.refused,control,index,popped]

theorem begin_step {side : Side} (taken : step moved capacity s label = some t) (begins : label.begins side = true) :
    s.ready side = true ∧ t.ready side = false ∧ t.done side = s.done side ∧ ¬ t.refused side := by
  cases label with
  | push item =>
    cases side <;> simp [Label.begins] at begins
    simp only [step] at taken
    split at taken
    next ready => cases taken; exact ⟨ready,rfl,rfl,by simp [State.refused]⟩
    next => contradiction
  | pop =>
    cases side <;> simp [Label.begins] at begins
    simp only [step] at taken
    split at taken
    next ready => cases taken; exact ⟨ready,rfl,rfl,by simp [State.refused]⟩
    next => contradiction
  | producer | consumer => cases side <;> contradiction

/-- A step of the thread's own call, which goes on to return true while there is room. -/
theorem own_step {side : Side} (taken : step moved (2 ^ k) s label = some t) (own : label.side = side)
    (begun : label.begins side = false) : s.ready side = false ∧ (Inv (2 ^ k) s → s.done side < s.room (2 ^ k) side →
      t.done side + t.pending side = s.done side + 1 ∧ ¬ t.refused side) := by
  cases label with
  | push | pop => subst own; contradiction
  | producer =>
    subst own
    exact ⟨by simpa [State.pending,Label.side] using stepPush_pending taken,fun inv => stepPush_done inv taken⟩
  | consumer =>
    subst own
    exact ⟨by simpa [State.pending,Label.side] using stepPop_pending taken,fun inv => stepPop_done inv taken⟩

theorem rests_step {side : Side} (taken : step moved (2 ^ k) s label = some t) (ready : s.ready side = true)
    (begun : label.begins side = false) :
    t.ready side = true ∧ t.index side = s.index side ∧ t.done side = s.done side := by
  by_cases own : label.side = side
  · have busy := (own_step taken own begun).1
    rw [ready] at busy
    contradiction
  · obtain ⟨control,index,done,_⟩ := apart_step taken own
    exact ⟨control.trans ready,index,done⟩

theorem succeeds_step {side : Side} {start : State α} {calls : Nat} (inv : Inv (2 ^ k) s)
    (taken : step moved (2 ^ k) s label = some t) (succeeds : Succeeds start s side calls)
    (room : start.done side + (calls + if label.begins side = true then 1 else 0) ≤ s.room (2 ^ k) side) :
    Succeeds start t side (calls + if label.begins side = true then 1 else 0) := by
  obtain ⟨counted,last⟩ := succeeds
  by_cases begins : label.begins side = true
  · obtain ⟨ready,busy,done,accepted⟩ := begin_step taken begins
    refine ⟨?_,fun refused => absurd refused accepted⟩
    simp only [State.pending,ready,busy,if_true,begins] at counted ⊢
    simp only [Bool.false_eq_true,if_false]
    omega
  · have begun : label.begins side = false := by simpa using begins
    rw [if_neg begins,Nat.add_zero] at room ⊢
    by_cases own : label.side = side
    · obtain ⟨busy,goes⟩ := own_step taken own begun
      have pending : s.pending side = 1 := by simp [State.pending,busy]
      obtain ⟨done,accepted⟩ := goes inv (by omega)
      exact ⟨by omega,fun refused => absurd refused accepted⟩
    · obtain ⟨control,_,done,refused⟩ := apart_step taken own
      exact ⟨by simpa [State.pending,control,done] using counted,fun now => last (refused.mp now)⟩

end Calls

section Size
variable {moved : α → α} {k : Nat} {s t : Sized α} {side : Side}

theorem sizing_queue {queue next : State α} {label : Label α} {call : SizeCall} (sizing : Sizing k queue side call)
    (taken : step moved (2 ^ k) queue label = some next) (permitted : label.begins side = true → call.ready = true) :
    Sizing k next side call := by
  have begun (busy : call.ready = false) : label.begins side = false := by
    by_contra begins
    have ready := permitted (by simpa using begins)
    rw [busy] at ready
    contradiction
  cases call with
  | idle | returned => cases side <;> trivial
  | loadWrite =>
    cases side <;> exact (rests_step taken sizing (begun rfl)).1
  | loadRead writePos =>
    cases side with
    | producer =>
      obtain ⟨ready,rfl⟩ := sizing
      obtain ⟨control,index,_⟩ := rests_step taken ready (begun rfl)
      exact ⟨control,index.symm⟩
    | consumer =>
      obtain ⟨ready,high,same,above,below⟩ := sizing
      obtain ⟨control,_,done⟩ := rests_step taken ready (begun rfl)
      have grows := room_step .consumer taken
      simp only [State.room,State.done] at grows done
      exact ⟨control,high,same,by omega,by omega⟩

theorem permits_begins {label : Label α} (permitted : s.permits label = true) (begins : label.begins side = true) :
    (s.sizes side).ready = true := by
  cases label <;> cases side <;> first | contradiction | exact permitted

/-- What a `Size` call reads now of the queue at rest on its own side. -/
theorem sizing_load {queue : State α} {call next : SizeCall} (inv : Inv (2 ^ k) queue) (sizing : Sizing k queue side call)
    (taken : stepSize (2 ^ k) queue call = some next) : Sizing k queue side next := by
  cases call with
  | idle | returned => contradiction
  | loadRead => cases taken; cases side <;> trivial
  | loadWrite =>
    cases taken
    cases side with
    | producer => exact ⟨sizing,rfl⟩
    | consumer => exact ⟨sizing,queue.pushed.length,inv.writePos,inv.ordered,Nat.le_refl _⟩

theorem sized_step (s : Sized α) (label : SizedLabel α) (t : Sized α) (inv : SizedInv k s)
    (taken : sizedStep moved (2 ^ k) s label = some t) : SizedInv k t := by
  cases label with
  | queue label =>
    simp only [sizedStep] at taken
    split at taken
    next permitted =>
      obtain ⟨queue,stepped,rfl⟩ := Option.map_eq_some_iff.mp taken
      exact ⟨inv_step _ _ _ inv.queue stepped,fun side => sizing_queue (inv.sizing side) stepped (permits_begins permitted)⟩
    next => contradiction
  | size caller =>
    simp only [sizedStep] at taken
    split at taken
    next idle =>
      cases taken
      refine ⟨inv.queue,fun side => ?_⟩
      by_cases same : side = caller
      · subst same
        simp only [Bool.and_eq_true] at idle
        simp only [Function.update_self]
        cases side <;> exact idle.1
      · simp only [Function.update_of_ne same]
        exact inv.sizing side
    next => contradiction
  | load caller =>
    obtain ⟨call,loaded,rfl⟩ := Option.map_eq_some_iff.mp taken
    refine ⟨inv.queue,fun side => ?_⟩
    by_cases same : side = caller
    · subst same
      simp only [Function.update_self]
      exact sizing_load inv.queue (inv.sizing side) loaded
    · simp only [Function.update_of_ne same]
      exact inv.sizing side

theorem sized_init (buffer : Nat → α) : SizedInv k (sizedInit buffer) where
  queue := inv_init k buffer
  sizing side := by cases side <;> trivial

/-- The size at the consumer's load of `m_writePos` is the one its `Size` will return. -/
def Loaded (moved : α → α) (k : Nat) (start s : Sized α) (past : List (SizedLabel α)) : Prop :=
  ∀ writePos, s.sizes .consumer = .loadRead writePos → Passes (sizedStep moved (2 ^ k))
    (fun m => m.queue.stored.length = size (2 ^ k) writePos s.queue.readPos) start past

theorem size_stored {queue : State α} (inv : Inv (2 ^ k) queue) :
    size (2 ^ k) queue.writePos queue.readPos = queue.stored.length := by
  rw [stored_length,inv.writePos,inv.readPos,size_mod inv.ordered inv.bounded]

theorem begun_size {start : Sized α} {before : List (SizedLabel α)}
    (begun : run (sizedStep moved (2 ^ k)) s (before ++ [.size side]) = some start) : start.sizes side = .loadWrite := by
  rw [run_append] at begun
  obtain ⟨middle,_,remaining⟩ := Option.bind_eq_some_iff.mp begun
  obtain ⟨next,taken,ended⟩ := run_cons_some remaining
  cases ended
  simp only [sizedStep] at taken
  split at taken <;> cases taken
  exact Function.update_self ..

theorem loaded_step {start : Sized α} (s : Sized α) (past : List (SizedLabel α)) (label : SizedLabel α) (t : Sized α)
    (reached : run (sizedStep moved (2 ^ k)) start past = some s) (known : SizedInv k s ∧ Loaded moved k start s past)
    (taken : sizedStep moved (2 ^ k) s label = some t) : SizedInv k t ∧ Loaded moved k start t (past ++ [label]) := by
  obtain ⟨inv,loaded⟩ := known
  refine ⟨sized_step s label t inv taken,?_⟩
  have whole := run_snoc reached taken
  intro writePos point
  cases label with
  | queue label =>
    simp only [sizedStep] at taken
    split at taken
    next permitted =>
      obtain ⟨queue,stepped,rfl⟩ := Option.map_eq_some_iff.mp taken
      have known := inv.sizing .consumer
      rw [point] at known
      have begun : label.begins .consumer = false := by
        by_contra begins
        have ready := permits_begins permitted (by simpa using begins)
        rw [point] at ready
        contradiction
      have still : queue.readPos = s.queue.readPos := (rests_step stepped known.1 begun).2.1
      have passed := (loaded writePos point).later [.queue label]
      rw [← still] at passed
      exact passed
    next => contradiction
  | size caller =>
    simp only [sizedStep] at taken
    split at taken
    next =>
      cases taken
      cases caller with
      | producer => exact (loaded writePos point).later _
      | consumer => contradiction
    next => contradiction
  | load caller =>
    obtain ⟨call,read,rfl⟩ := Option.map_eq_some_iff.mp taken
    cases caller with
    | producer => exact (loaded writePos point).later _
    | consumer =>
      simp only [Function.update_self] at point
      subst point
      cases old : s.sizes .consumer with
      | idle | loadRead | returned => simp [old,stepSize] at read
      | loadWrite =>
        rw [old] at read
        cases read
        exact passes_now whole (size_stored inv.queue).symm

/-- The calls of its own that the value promises to the thread. -/
def promised (capacity value : Nat) : Side → Nat
  | .producer => capacity - 1 - value
  | .consumer => value

/-- When `Size` returns it has not read more than is stored, and the producer no less. -/
theorem size_returns {value : Nat} (inv : SizedInv k s) (returns : sizedStep moved (2 ^ k) s (.load side) = some t)
    (result : t.sizes side = .returned value) : t.queue = s.queue ∧ value ≤ 2 ^ k - 1 ∧
      s.queue.done side + promised (2 ^ k) value side ≤ s.queue.room (2 ^ k) side ∧ s.queue.ready side = true ∧
      ∃ writePos, s.sizes side = .loadRead writePos ∧ value = size (2 ^ k) writePos s.queue.readPos ∧
        (side = .producer → value = s.queue.stored.length) := by
  obtain ⟨call,read,rfl⟩ := Option.map_eq_some_iff.mp returns
  simp only [Function.update_self] at result
  subst result
  have known := inv.sizing side
  have bounded := inv.queue.bounded
  have ordered := inv.queue.ordered
  cases old : s.sizes side with
  | idle | loadWrite | returned => simp [old,stepSize] at read
  | loadRead writePos =>
    simp only [old,stepSize,Option.some.injEq,SizeCall.returned.injEq] at read
    rw [old] at known
    cases side with
    | producer =>
      obtain ⟨ready,rfl⟩ := known
      rw [size_stored inv.queue,stored_length] at read
      refine ⟨rfl,by omega,?_,ready,_,rfl,by rw [size_stored inv.queue,stored_length,read],fun _ => by rw [stored_length,read]⟩
      simp only [State.done,State.room,promised]
      omega
    | consumer =>
      obtain ⟨ready,high,rfl,above,below⟩ := known
      have gap := read
      rw [inv.queue.readPos,size_mod above (by omega)] at gap
      refine ⟨rfl,by omega,?_,ready,_,rfl,read.symm,nofun⟩
      simp only [State.done,State.room,promised]
      omega

theorem succeeds_run {start u : Sized α} {rest : List (SizedLabel α)} (inv : SizedInv k start)
    (ready : start.queue.ready side = true) (reached : run (sizedStep moved (2 ^ k)) start rest = some u)
    (few : start.queue.done side + rest.countP (SizedLabel.begins side) ≤ start.queue.room (2 ^ k) side) :
    Succeeds start.queue u.queue side (rest.countP (SizedLabel.begins side)) := by
  have whole := run_history (fun u past => SizedInv k u ∧ start.queue.room (2 ^ k) side ≤ u.queue.room (2 ^ k) side ∧
    (start.queue.done side + past.countP (SizedLabel.begins side) ≤ start.queue.room (2 ^ k) side →
      Succeeds start.queue u.queue side (past.countP (SizedLabel.begins side)))) ?_ []
    ⟨inv,Nat.le_refl _,fun _ => ⟨by simp [State.pending,ready],fun _ => rfl⟩⟩ reached
  · exact whole.2.2 few
  · intro s past label t known taken
    obtain ⟨kept,room,succeeds⟩ := known
    refine ⟨sized_step s label t kept taken,?_⟩
    rw [List.countP_append,List.countP_singleton]
    cases label with
    | queue label =>
      simp only [sizedStep] at taken
      split at taken
      next =>
        obtain ⟨queue,stepped,rfl⟩ := Option.map_eq_some_iff.mp taken
        exact ⟨room.trans (room_step side stepped),fun enough =>
          succeeds_step kept.queue stepped (succeeds (by omega)) (enough.trans room)⟩
      next => contradiction
    | size caller =>
      simp only [sizedStep] at taken
      split at taken <;> cases taken
      exact ⟨room,succeeds⟩
    | load caller =>
      obtain ⟨call,_,rfl⟩ := Option.map_eq_some_iff.mp taken
      exact ⟨room,succeeds⟩

/-- What `Size` returns to either thread was the number of items stored at a moment
since the call began, is below `Capacity`, and is kept: as many `Pop`s of the
consumer, or as many `Push`es of the producer as it leaves slots, succeed next,
whatever the other thread does. -/
theorem size_promised {buffer : Nat → α} {before during : List (SizedLabel α)} {start : Sized α} {value : Nat}
    (begun : run (sizedStep moved (2 ^ k)) (sizedInit buffer) (before ++ [.size side]) = some start)
    (reached : run (sizedStep moved (2 ^ k)) start during = some s)
    (returns : sizedStep moved (2 ^ k) s (.load side) = some t) (result : t.sizes side = .returned value) :
    Passes (sizedStep moved (2 ^ k)) (fun m => m.queue.stored.length = value) start during ∧ value ≤ 2 ^ k - 1 ∧
    ∀ rest u, run (sizedStep moved (2 ^ k)) t rest = some u →
      rest.countP (SizedLabel.begins side) ≤ promised (2 ^ k) value side →
      Succeeds t.queue u.queue side (rest.countP (SizedLabel.begins side)) := by
  have initial := run_invariant (SizedInv k) sized_step (sized_init buffer) begun
  have inv := run_invariant (SizedInv k) sized_step initial reached
  obtain ⟨same,below,enough,ready,writePos,point,formula,exact⟩ := size_returns inv returns result
  refine ⟨?_,below,fun rest u continued few => ?_⟩
  · cases side with
    | producer => exact passes_now reached (exact rfl).symm
    | consumer =>
      have loaded := (run_past (fun s past => SizedInv k s ∧ Loaded moved k start s past) loaded_step
        ⟨initial,fun writePos early => by simp [begun_size begun] at early⟩ reached).2
      rw [formula]
      exact loaded writePos point
  · have kept := sized_step _ _ _ inv returns
    rw [← same] at enough ready
    exact succeeds_run kept ready continued (by omega)

end Size

def pushing (item : α) : List (SizedLabel α) :=
  [.queue (.push item),.queue .producer,.queue .producer,.queue .producer,.queue .producer]

def popping : List (SizedLabel α) :=
  [.queue .pop,.queue .consumer,.queue .consumer,.queue .consumer,.queue .consumer]

/-- The consumer reads 1 while a second item goes in behind its first load, and pops one. -/
theorem size_promised_one :
    ∃ start s t u : Sized Nat,
      run (sizedStep id (2 ^ 2)) (sizedInit fun _ => 0) (pushing 5 ++ [.size .consumer]) = some start ∧
      run (sizedStep id (2 ^ 2)) start (.load .consumer :: pushing 6) = some s ∧
      sizedStep id (2 ^ 2) s (.load .consumer) = some t ∧ t.sizes .consumer = .returned 1 ∧
      run (sizedStep id (2 ^ 2)) t popping = some u ∧ Succeeds t.queue u.queue .consumer 1 := by
  obtain ⟨start,s,t,u,begun,reached,returns,result,continued⟩ : ∃ start s t u : Sized Nat,
      run (sizedStep id (2 ^ 2)) (sizedInit fun _ => 0) (pushing 5 ++ [.size .consumer]) = some start ∧
      run (sizedStep id (2 ^ 2)) start (.load .consumer :: pushing 6) = some s ∧
      sizedStep id (2 ^ 2) s (.load .consumer) = some t ∧ t.sizes .consumer = .returned 1 ∧
      run (sizedStep id (2 ^ 2)) t popping = some u := ⟨_,_,_,_,rfl,rfl,rfl,rfl,rfl⟩
  exact ⟨start,s,t,u,begun,reached,returns,result,continued,
    (size_promised begun reached returns result).2.2 popping u continued (by decide)⟩

end Ezthread.SpscQueue
