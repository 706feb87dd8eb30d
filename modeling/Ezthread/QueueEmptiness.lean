import Ezthread.MpmcSize
import Ezthread.SpscSize

/-! `Empty` of the two queues compares the position popped from with the one pushed to.
Which of the two it loads first is not specified, and either may move in between. -/
namespace Ezthread.MpmcQueue
open Transition Activation RingBuffer

variable {α : Type*} {moved : α → α} {w k : Nat}

/-- What `==` compares: `m_head` and `m_tail`. -/
inductive Operand
  | head
  | tail
  deriving DecidableEq

def Operand.other : Operand → Operand
  | .head => .tail
  | .tail => .head

def State.operand (s : State α) : Operand → Nat
  | .head => s.head
  | .tail => s.tail

/-- A call of `Empty` from its first load on, with the operand it has loaded. -/
inductive EmptyCall
  | loaded (first : Operand) (position : Nat)
  | returned (value : Bool)
  deriving DecidableEq

structure Emptied (α : Type*) where
  queue : State α
  calls : List EmptyCall

inductive EmptiedLabel (α : Type*)
  | queue (label : Label α)
  | loadFirst (first : Operand)
  | loadSecond (i : Nat)

def emptiedStep (moved : α → α) (w capacity : Nat) (s : Emptied α) : EmptiedLabel α → Option (Emptied α)
  | .queue label => (step moved w capacity s.queue label).map fun queue => {s with queue := queue}
  | .loadFirst first => some {s with calls := s.calls ++ [.loaded first (s.queue.operand first)]}
  | .loadSecond i =>
      match s.calls[i]? with
      | some (.loaded first position) =>
          some {s with calls := s.calls.set i (.returned (position == s.queue.operand first.other))}
      | _ => none

def emptiedInit (data : Nat → α) : Emptied α := ⟨init data,[]⟩

section Empty
variable {s t prior start : Emptied α} {past : List (EmptiedLabel α)} {i : Nat} {first : Operand}

/-- What is known since a call's first load: neither position goes back, and if nothing
has been in the queue neither has moved. -/
structure Seen (moved : α → α) (w k i : Nat) (first : Operand) (start s : Emptied α) (past : List (EmptiedLabel α)) :
    Prop where
  inv : Inv (2 ^ k) s.queue
  ordered : start.queue.head ≤ start.queue.tail
  begun : i < s.calls.length
  loaded : ∀ operand position, s.calls[i]? = some (.loaded operand position) →
    operand = first ∧ position = start.queue.operand first
  head : start.queue.head ≤ s.queue.head
  tail : start.queue.tail ≤ s.queue.tail
  still : Passes (emptiedStep moved w (2 ^ k)) (fun m => m.queue.head ≠ m.queue.tail) start past ∨
    s.queue.head = start.queue.head ∧ s.queue.tail = start.queue.tail ∧ s.queue.head = s.queue.tail

theorem seen_queue {queue : State α} {label : Label α} (two : 1 ≤ k) (fits : k < w)
    (reached : run (emptiedStep moved w (2 ^ k)) start past = some s) (seen : Seen moved w k i first start s past)
    (stepped : step moved w (2 ^ k) s.queue label = some queue) (few : s.queue.pushed.length < 2 ^ (w - 1)) :
    Seen moved w k i first start {s with queue := queue} (past ++ [.queue label]) := by
  have moves := step_moves moved w (2 ^ k) _ _ label stepped
  have grows := moves.head_grows seen.inv fits few
  have taken : emptiedStep moved w (2 ^ k) s (.queue label) = some {s with queue := queue} := by
    simp only [emptiedStep,stepped,Option.map_some]
  have head := seen.head
  have tail := seen.tail
  have inv := seen.inv.moves two fits few moves
  -- Either a `Push` wins a position and the head stays, or the head may move and the tail stays.
  have won : (queue.tail = s.queue.tail + 1 ∧ queue.head = s.queue.head) ∨ queue.tail = s.queue.tail := by
    have either := wins_step stepped
    split at either
    next =>
      rw [(seen.inv.no_wrap fits few (Nat.le_refl _)).1] at either
      exact Or.inl either
    next => exact Or.inr either
  refine ⟨inv,seen.ordered,seen.begun,seen.loaded,Nat.le_trans head grows,?_,?_⟩
  · change start.queue.tail ≤ queue.tail
    omega
  · by_cases empty : queue.head = queue.tail
    · refine seen.still.imp (fun passed => passed.later _) fun same => ?_
      change queue.head = start.queue.head ∧ queue.tail = start.queue.tail ∧ queue.head = queue.tail
      omega
    · exact Or.inl (passes_now (run_snoc reached taken) empty)

theorem seen_step (two : 1 ≤ k) (fits : k < w) (s : Emptied α) (past : List (EmptiedLabel α)) (label : EmptiedLabel α)
    (t : Emptied α) (reached : run (emptiedStep moved w (2 ^ k)) start past = some s)
    (known : s.queue.pushed.length < 2 ^ (w - 1) → Seen moved w k i first start s past)
    (taken : emptiedStep moved w (2 ^ k) s label = some t) (few : t.queue.pushed.length < 2 ^ (w - 1)) :
    Seen moved w k i first start t (past ++ [label]) := by
  cases label with
  | queue label =>
    obtain ⟨queue,stepped,rfl⟩ := Option.map_eq_some_iff.mp taken
    have fewer := Nat.lt_of_le_of_lt (step_moves moved w (2 ^ k) _ _ label stepped).pushed_grows few
    exact seen_queue two fits reached (known fewer) stepped fewer
  | loadFirst other =>
    cases taken
    obtain ⟨inv,ordered,begun,loaded,head,tail,still⟩ := known few
    refine ⟨inv,ordered,?_,fun operand position found => ?_,head,tail,still.imp_left fun passed => passed.later _⟩
    · rw [List.length_append]
      exact Nat.lt_add_right _ begun
    · rw [List.getElem?_append_left begun] at found
      exact loaded operand position found
  | loadSecond j =>
    simp only [emptiedStep] at taken
    split at taken
    next operand position found =>
      cases taken
      obtain ⟨inv,ordered,begun,loaded,head,tail,still⟩ := known few
      refine ⟨inv,ordered,?_,fun operand position found => ?_,head,tail,still.imp_left fun passed => passed.later _⟩
      · rwa [List.length_set]
      · rcases get_set found with ⟨_,own⟩ | ⟨_,kept⟩
        · contradiction
        · exact loaded operand position kept
    next => contradiction

theorem emptied_inv {data : Nat → α} {labels : List (EmptiedLabel α)} (two : 1 ≤ k) (fits : k < w)
    (reached : run (emptiedStep moved w (2 ^ k)) (emptiedInit data) labels = some s)
    (few : s.queue.pushed.length < 2 ^ (w - 1)) : Inv (2 ^ k) s.queue := by
  refine run_invariant (fun state : Emptied α => state.queue.pushed.length < 2 ^ (w - 1) → Inv (2 ^ k) state.queue)
    (fun state label next known taken few => ?_) (fun _ => (inv_init k data).1) reached few
  cases label with
  | queue label =>
    obtain ⟨queue,stepped,rfl⟩ := Option.map_eq_some_iff.mp taken
    have moves := step_moves moved w (2 ^ k) _ _ label stepped
    have fewer := Nat.lt_of_le_of_lt moves.pushed_grows few
    exact (known fewer).moves two fits fewer moves
  | loadFirst =>
    cases taken
    exact known few
  | loadSecond i =>
    simp only [emptiedStep] at taken
    split at taken <;> cases taken
    exact known few

theorem seen_loaded {data : Nat → α} {before : List (EmptiedLabel α)} (two : 1 ≤ k) (fits : k < w)
    (begun : run (emptiedStep moved w (2 ^ k)) (emptiedInit data) before = some prior)
    (loads : emptiedStep moved w (2 ^ k) prior (.loadFirst first) = some start)
    (few : start.queue.pushed.length < 2 ^ (w - 1)) : Seen moved w k prior.calls.length first start start [] := by
  cases loads
  have inv : Inv (2 ^ k) prior.queue := emptied_inv two fits begun few
  refine ⟨inv,inv.ordered,by simp,fun operand position found => ?_,Nat.le_refl _,Nat.le_refl _,?_⟩
  · rw [List.getElem?_concat_length] at found
    cases found
    exact ⟨rfl,rfl⟩
  · by_cases empty : prior.queue.head = prior.queue.tail
    · exact Or.inr ⟨rfl,rfl,empty⟩
    · exact Or.inl (passes_now rfl empty)

/-- Whichever operand a call loads first: a no was so at a moment between its loads, and
a yes tells that what had been pushed at the first load has been popped at the second.
A yes was so at a moment as well, unless `m_tail` was loaded first and has moved. -/
theorem empty_seen {data : Nat → α} {before during : List (EmptiedLabel α)} {value : Bool} (two : 1 ≤ k) (fits : k < w)
    (begun : run (emptiedStep moved w (2 ^ k)) (emptiedInit data) before = some prior)
    (loads : emptiedStep moved w (2 ^ k) prior (.loadFirst first) = some start)
    (reached : run (emptiedStep moved w (2 ^ k)) start during = some s) (few : s.queue.pushed.length < 2 ^ (w - 1))
    (returns : emptiedStep moved w (2 ^ k) s (.loadSecond prior.calls.length) = some t)
    (result : t.calls[prior.calls.length]? = some (.returned value)) :
    (value = false → Passes (emptiedStep moved w (2 ^ k)) (fun m => m.queue.head ≠ m.queue.tail) start during) ∧
    (value = true → start.queue.tail ≤ s.queue.head) ∧
    (value = true → first = .head ∨ s.queue.tail = start.queue.tail →
      Passes (emptiedStep moved w (2 ^ k)) (fun m => m.queue.head = m.queue.tail) start during) := by
  have seen := run_past (fun state past => state.queue.pushed.length < 2 ^ (w - 1) →
      Seen moved w k prior.calls.length first start state past) (seen_step two fits) (seen_loaded two fits begun loads)
      reached few
  have ordered := seen.ordered
  have later := seen.inv.ordered
  have head := seen.head
  have tail := seen.tail
  simp only [emptiedStep] at returns
  split at returns
  next operand position found =>
    cases returns
    rw [get_self found,Option.some.injEq,EmptyCall.returned.injEq] at result
    obtain ⟨rfl,rfl⟩ := seen.loaded operand position found
    subst result
    cases operand with
    | head =>
      simp only [State.operand,Operand.other,beq_iff_eq,beq_eq_false_iff_ne] at *
      refine ⟨fun apart => seen.still.resolve_right fun same => apart (by omega),fun level => by omega,fun level _ => ?_⟩
      exact ⟨[],during,_,rfl,rfl,by omega⟩
    | tail =>
      simp only [State.operand,Operand.other,beq_iff_eq,beq_eq_false_iff_ne] at *
      refine ⟨fun apart => seen.still.resolve_right fun same => apart (by omega),fun level => by omega,
        fun level unmoved => passes_now reached ?_⟩
      have same := unmoved.resolve_left (by simp)
      omega
  next => contradiction

/-- A call with its five accesses, none of which fails. -/
def alone (i : Nat) (operation : Operation α) : List (EmptiedLabel α) :=
  .queue (.invoke operation) :: List.replicate 5 (.queue (.access i))

/-- `m_tail` is loaded first. A `Push` before the only `Pop` leaves the queue occupied all
along, but the answer is that it is empty. -/
theorem empty_seen_tail_first : ∃ prior start s t : Emptied Nat,
    run (emptiedStep id 4 (2 ^ 1)) (emptiedInit fun _ => 0) (alone 0 (.push 7)) = some prior ∧
    emptiedStep id 4 (2 ^ 1) prior (.loadFirst .tail) = some start ∧
    run (emptiedStep id 4 (2 ^ 1)) start (alone 1 (.push 8) ++ alone 2 .pop) = some s ∧
    emptiedStep id 4 (2 ^ 1) s (.loadSecond 0) = some t ∧ t.calls[0]? = some (.returned true) ∧
    start.queue.tail ≤ s.queue.head ∧
    ¬ Passes (emptiedStep id 4 (2 ^ 1)) (fun m => m.queue.head = m.queue.tail) start (alone 1 (.push 8) ++ alone 2 .pop) := by
  obtain ⟨prior,start,s,t,begun,loads,reached,returns,result,pushed,calls,never⟩ : ∃ prior start s t : Emptied Nat,
      run (emptiedStep id 4 (2 ^ 1)) (emptiedInit fun _ => 0) (alone 0 (.push 7)) = some prior ∧
      emptiedStep id 4 (2 ^ 1) prior (.loadFirst .tail) = some start ∧
      run (emptiedStep id 4 (2 ^ 1)) start (alone 1 (.push 8) ++ alone 2 .pop) = some s ∧
      emptiedStep id 4 (2 ^ 1) s (.loadSecond 0) = some t ∧ t.calls[0]? = some (.returned true) ∧
      s.queue.pushed.length = 2 ∧ prior.calls.length = 0 ∧
      ¬ Passes (emptiedStep id 4 (2 ^ 1)) (fun m => m.queue.head = m.queue.tail) start (alone 1 (.push 8) ++ alone 2 .pop) :=
    ⟨_,_,_,_,rfl,rfl,rfl,rfl,rfl,rfl,rfl,not_passes (fun m => m.queue.head != m.queue.tail) (by simp) (by decide)⟩
  have seen := empty_seen (by decide) (by decide) begun loads reached (by rw [pushed]; decide)
    (by rw [calls]; exact returns) (by rw [calls]; exact result)
  exact ⟨prior,start,s,t,begun,loads,reached,returns,result,seen.2.1 rfl,never⟩

end Empty

end Ezthread.MpmcQueue

namespace Ezthread.SpscQueue
open Transition RingBuffer

variable {α : Type*}

def Side.other : Side → Side
  | .producer => .consumer
  | .consumer => .producer

theorem other_other (side : Side) : side.other.other = side := by cases side <;> rfl

theorem side_or_other (first side : Side) : first = side ∨ first = side.other := by
  cases first <;> cases side <;> simp [Side.other]

/-- `first` is the side whose index is loaded first. -/
inductive EmptyCall
  | idle
  | loadFirst (first : Side)
  | loadSecond (first : Side) (index : Nat)
  | compared (value : Bool)
  | returned (value : Bool)
  deriving DecidableEq

structure Emptied (α : Type*) where
  queue : State α
  calls : Side → EmptyCall

inductive EmptiedLabel (α : Type*)
  | queue (label : Label α)
  | empty (side first : Side)
  | proceed (side : Side)

def emptiedInit (buffer : Nat → α) : Emptied α := ⟨init buffer,fun _ => .idle⟩

def EmptyCall.ready : EmptyCall → Bool
  | .idle | .returned _ => true
  | _ => false

def stepEmpty (queue : State α) : EmptyCall → Option EmptyCall
  | .loadFirst first => some (.loadSecond first (queue.index first))
  | .loadSecond first index => some (.compared (index == queue.index first.other))
  | .compared value => some (.returned value)
  | .idle | .returned _ => none

/-- A thread begins `Push` or `Pop` only when its `Empty` has returned. -/
def Emptied.permits (s : Emptied α) : Label α → Bool
  | .push _ => (s.calls .producer).ready
  | .pop => (s.calls .consumer).ready
  | .producer | .consumer => true

def emptiedStep (moved : α → α) (capacity : Nat) (s : Emptied α) : EmptiedLabel α → Option (Emptied α)
  | .queue label =>
      if s.permits label then (step moved capacity s.queue label).map fun queue => {s with queue := queue} else none
  | .empty side first =>
      if s.queue.ready side && (s.calls side).ready then
        some {s with calls := Function.update s.calls side (.loadFirst first)}
      else none
  | .proceed side =>
      (stepEmpty s.queue (s.calls side)).map fun call => {s with calls := Function.update s.calls side call}

section Empty
variable {moved : α → α} {k : Nat} {s t start : Emptied α} {side first : Side} {past : List (EmptiedLabel α)}

theorem empty_level {queue : State α} (inv : Inv (2 ^ k) queue) : queue.stored = [] ↔ queue.popped.length = queue.pushed.length := by
  rw [← List.length_eq_zero_iff,stored_length]
  have ordered := inv.ordered
  omega

/-- In whichever order they are compared. -/
theorem index_level {queue : State α} (inv : Inv (2 ^ k) queue) (side : Side) :
    (queue.index side == queue.index side.other) = true ↔ queue.stored = [] := by
  have level : queue.readPos = queue.writePos ↔ queue.stored = [] := by
    rw [empty_iff inv rfl,empty_level inv]
  rw [beq_iff_eq,← level]
  cases side with
  | producer => exact eq_comm
  | consumer => exact Iff.rfl

/-- The answer was right at a moment. The producer's yes and the consumer's no only they
themselves can put out of date. -/
structure Right (moved : α → α) (k : Nat) (start : Emptied α) (side : Side) (value : Bool) (s : Emptied α)
    (past : List (EmptiedLabel α)) : Prop where
  moment : Passes (emptiedStep moved (2 ^ k)) (fun m => value = true ↔ m.queue.stored = []) start past
  producer : side = .producer → value = true → s.queue.stored = []
  consumer : side = .consumer → value = false → s.queue.stored ≠ []

theorem right_now {value : Bool} (reached : run (emptiedStep moved (2 ^ k)) start past = some s)
    (exact : value = true ↔ s.queue.stored = []) : Right moved k start side value s past where
  moment := passes_now reached exact
  producer := fun _ => exact.mp
  consumer := fun _ no empty => by simp [exact.mpr empty] at no

/-- What a thread knows while it is in `Empty`: its own index has not moved. -/
def Known (moved : α → α) (k : Nat) (start : Emptied α) (side : Side) (s : Emptied α) (past : List (EmptiedLabel α)) :
    EmptyCall → Prop
  | .loadFirst _ => s.queue.ready side = true
  | .loadSecond first index => s.queue.ready side = true ∧
      (first = side → index = s.queue.index side) ∧
      (first = side.other → Right moved k start side (index == s.queue.index side) s past)
  | .compared value => s.queue.ready side = true ∧ Right moved k start side value s past
  | .idle | .returned _ => True

/-- The queue goes on while the calling thread is in `Empty`. -/
theorem Right.queue {value : Bool} {queue : State α} {label : Label α} (right : Right moved k start side value s past)
    (inv : Inv (2 ^ k) s.queue) (taken : step moved (2 ^ k) s.queue label = some queue)
    (ready : s.queue.ready side = true) (begun : label.begins side = false) (more : List (EmptiedLabel α)) :
    Right moved k start side value {s with queue := queue} (past ++ more) := by
  have after := inv_step s.queue label queue inv taken
  have done := (rests_step taken ready begun).2.2
  have grows := room_step side taken
  have ordered := after.ordered
  refine ⟨right.moment.later more,fun own yes => ?_,fun own no => ?_⟩
  · subst own
    have level := (empty_level inv).mp (right.producer rfl yes)
    simp only [State.room,State.done] at grows done
    exact (empty_level after).mpr (by omega)
  · subst own
    have apart := mt (empty_level inv).mpr (right.consumer rfl no)
    have before := inv.ordered
    simp only [State.room,State.done] at grows done
    exact mt (empty_level after).mp (by omega)

theorem permits_empty {label : Label α} (permitted : s.permits label = true) (begins : label.begins side = true) :
    (s.calls side).ready = true := by
  cases label <;> cases side <;> first | contradiction | exact permitted

theorem known_queue {queue : State α} {label : Label α} (inv : Inv (2 ^ k) s.queue)
    (known : Known moved k start side s past (s.calls side)) (permitted : s.permits label = true)
    (taken : step moved (2 ^ k) s.queue label = some queue) (more : List (EmptiedLabel α)) :
    Known moved k start side {s with queue := queue} (past ++ more) (s.calls side) := by
  have begun (busy : (s.calls side).ready = false) : label.begins side = false := by
    by_contra begins
    have ready := permits_empty permitted (by simpa using begins)
    rw [busy] at ready
    contradiction
  cases point : s.calls side with
  | idle | returned => trivial
  | loadFirst first =>
    rw [point] at known begun
    exact (rests_step taken known (begun rfl)).1
  | loadSecond first index =>
    rw [point] at known begun
    obtain ⟨ready,own,other⟩ := known
    obtain ⟨control,still,_⟩ := rests_step taken ready (begun rfl)
    refine ⟨control,fun same => (own same).trans still.symm,fun opposite => ?_⟩
    have right := (other opposite).queue inv taken ready (begun rfl) more
    rwa [← still] at right
  | compared value =>
    rw [point] at known begun
    exact ⟨(rests_step taken known.1 (begun rfl)).1,known.2.queue inv taken known.1 (begun rfl) more⟩

theorem known_calls {calls : Side → EmptyCall} {call : EmptyCall} (known : Known moved k start side s past call)
    (more : List (EmptiedLabel α)) : Known moved k start side {s with calls := calls} (past ++ more) call := by
  have later {value : Bool} (right : Right moved k start side value s past) :
      Right moved k start side value {s with calls := calls} (past ++ more) :=
    ⟨right.moment.later more,right.producer,right.consumer⟩
  cases call with
  | idle | returned => trivial
  | loadFirst => exact known
  | loadSecond first index => exact ⟨known.1,known.2.1,fun opposite => later (known.2.2 opposite)⟩
  | compared => exact ⟨known.1,later known.2⟩

theorem known_proceed {call next : EmptyCall} {label : EmptiedLabel α} {calls : Side → EmptyCall} (inv : Inv (2 ^ k) s.queue)
    (whole : run (emptiedStep moved (2 ^ k)) start (past ++ [label]) = some {s with calls := calls})
    (known : Known moved k start side s past call) (loaded : stepEmpty s.queue call = some next) :
    Known moved k start side {s with calls := calls} (past ++ [label]) next := by
  cases call with
  | idle | returned => contradiction
  | loadFirst first =>
    cases loaded
    refine ⟨known,fun same => by rw [same],fun opposite => ?_⟩
    subst opposite
    exact right_now whole ((iff_of_eq (congrArg (· = true) (BEq.comm ..))).trans (index_level inv side))
  | loadSecond first index =>
    cases loaded
    have later : Known moved k start side {s with calls := calls} (past ++ [label]) (.loadSecond first index) :=
      known_calls known [label]
    obtain ⟨ready,own,opposite⟩ := later
    refine ⟨ready,?_⟩
    rcases side_or_other first side with rfl | rfl
    · rw [own rfl]
      exact right_now whole (index_level inv first)
    · rw [other_other]
      exact opposite rfl
  | compared value =>
    cases loaded
    trivial

theorem known_step (s : Emptied α) (past : List (EmptiedLabel α)) (label : EmptiedLabel α) (t : Emptied α)
    (reached : run (emptiedStep moved (2 ^ k)) start past = some s)
    (inv : Inv (2 ^ k) s.queue ∧ Known moved k start side s past (s.calls side))
    (taken : emptiedStep moved (2 ^ k) s label = some t) :
    Inv (2 ^ k) t.queue ∧ Known moved k start side t (past ++ [label]) (t.calls side) := by
  obtain ⟨inv,known⟩ := inv
  have whole := run_snoc reached taken
  cases label with
  | queue label =>
    simp only [emptiedStep] at taken
    split at taken
    next permitted =>
      obtain ⟨queue,stepped,rfl⟩ := Option.map_eq_some_iff.mp taken
      exact ⟨inv_step _ _ _ inv stepped,known_queue inv known permitted stepped _⟩
    next => contradiction
  | empty caller first =>
    simp only [emptiedStep] at taken
    split at taken
    next idle =>
      cases taken
      refine ⟨inv,?_⟩
      by_cases same : side = caller
      · subst same
        simp only [Bool.and_eq_true] at idle
        simp only [Function.update_self]
        exact idle.1
      · simp only [Function.update_of_ne same]
        exact known_calls known _
    next => contradiction
  | proceed caller =>
    obtain ⟨call,loaded,rfl⟩ := Option.map_eq_some_iff.mp taken
    refine ⟨inv,?_⟩
    by_cases same : side = caller
    · subst same
      simp only [Function.update_self]
      exact known_proceed inv whole known loaded
    · simp only [Function.update_of_ne same]
      exact known_calls known _

theorem emptied_inv {buffer : Nat → α} {labels : List (EmptiedLabel α)}
    (reached : run (emptiedStep moved (2 ^ k)) (emptiedInit buffer) labels = some s) : Inv (2 ^ k) s.queue := by
  refine run_invariant (fun state : Emptied α => Inv (2 ^ k) state.queue) (fun state label next inv taken => ?_)
    (inv_init k buffer) reached
  cases label with
  | queue label =>
    simp only [emptiedStep] at taken
    split at taken
    next =>
      obtain ⟨queue,stepped,rfl⟩ := Option.map_eq_some_iff.mp taken
      exact inv_step _ _ _ inv stepped
    next => contradiction
  | empty caller first =>
    simp only [emptiedStep] at taken
    split at taken <;> cases taken
    exact inv
  | proceed caller =>
    obtain ⟨call,_,rfl⟩ := Option.map_eq_some_iff.mp taken
    exact inv

theorem known_begun {before : List (EmptiedLabel α)}
    (begun : run (emptiedStep moved (2 ^ k)) s (before ++ [.empty side first]) = some start) :
    Known moved k start side start [] (start.calls side) := by
  rw [run_append] at begun
  obtain ⟨middle,_,remaining⟩ := Option.bind_eq_some_iff.mp begun
  obtain ⟨next,taken,ended⟩ := run_cons_some remaining
  cases ended
  simp only [emptiedStep] at taken
  split at taken
  next idle =>
    cases taken
    simp only [Bool.and_eq_true] at idle
    simp only [Function.update_self]
    exact idle.1
  next => contradiction

/-- Whichever thread asks and whichever index it loads first, what `Empty` answers was
so at a moment since the call began. When the call returns the producer's finding that
the queue is empty still holds, and so does the consumer's that it is not. -/
theorem empty_exact {buffer : Nat → α} {before during : List (EmptiedLabel α)} {value : Bool}
    (begun : run (emptiedStep moved (2 ^ k)) (emptiedInit buffer) (before ++ [.empty side first]) = some start)
    (reached : run (emptiedStep moved (2 ^ k)) start during = some s)
    (returns : emptiedStep moved (2 ^ k) s (.proceed side) = some t) (result : t.calls side = .returned value) :
    Passes (emptiedStep moved (2 ^ k)) (fun m => value = true ↔ m.queue.stored = []) start during ∧
    (side = .producer → value = true → t.queue.stored = []) ∧ (side = .consumer → value = false → t.queue.stored ≠ []) := by
  have known := (run_past (fun s past => Inv (2 ^ k) s.queue ∧ Known moved k start side s past (s.calls side)) known_step
    ⟨emptied_inv begun,known_begun begun⟩ reached).2
  obtain ⟨call,loaded,rfl⟩ := Option.map_eq_some_iff.mp returns
  simp only [Function.update_self] at result
  subst result
  cases point : s.calls side with
  | idle | loadFirst | loadSecond | returned => simp [point,stepEmpty] at loaded
  | compared other =>
    simp only [point,stepEmpty,Option.some.injEq,EmptyCall.returned.injEq] at loaded
    subst loaded
    rw [point] at known
    exact ⟨known.2.moment,known.2.producer,known.2.consumer⟩

def pushOne (item : α) : List (EmptiedLabel α) :=
  [.queue (.push item),.queue .producer,.queue .producer,.queue .producer,.queue .producer]

/-- The consumer loads `m_writePos` before an item is pushed and `m_readPos` after it: it
answers that the queue is empty, which was so, but no longer is. -/
theorem empty_exact_pushed : ∃ start s t : Emptied Nat,
    run (emptiedStep id (2 ^ 2)) (emptiedInit fun _ => 0) ([] ++ [.empty .consumer .producer]) = some start ∧
    run (emptiedStep id (2 ^ 2)) start (.proceed .consumer :: pushOne 5 ++ [.proceed .consumer]) = some s ∧
    emptiedStep id (2 ^ 2) s (.proceed .consumer) = some t ∧ t.calls .consumer = .returned true ∧ t.queue.stored = [5] ∧
    Passes (emptiedStep id (2 ^ 2)) (fun m => true = true ↔ m.queue.stored = []) start
      (.proceed .consumer :: pushOne 5 ++ [.proceed .consumer]) := by
  obtain ⟨start,s,t,begun,reached,returns,result,stored⟩ : ∃ start s t : Emptied Nat,
      run (emptiedStep id (2 ^ 2)) (emptiedInit fun _ => 0) ([] ++ [.empty .consumer .producer]) = some start ∧
      run (emptiedStep id (2 ^ 2)) start (.proceed .consumer :: pushOne 5 ++ [.proceed .consumer]) = some s ∧
      emptiedStep id (2 ^ 2) s (.proceed .consumer) = some t ∧ t.calls .consumer = .returned true ∧
      t.queue.stored = [5] := ⟨_,_,_,rfl,rfl,rfl,rfl,rfl⟩
  exact ⟨start,s,t,begun,reached,returns,result,stored,(empty_exact begun reached returns result).1⟩

end Empty

end Ezthread.SpscQueue
