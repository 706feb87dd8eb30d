import Ezthread.MpmcRefusals

/-! Assignments of `MPMCQueue` that throw. The position has been won by then and its
sequence is never stored, so the cell is lost to every later call. -/
namespace Ezthread.MpmcQueue
open Transition Activation RingBuffer

variable {α : Type*} {moved : α → α} {w k : Nat}

/-- `threw` lists the calls that an exception of the assignment has ended; they keep
their records, between the exchange and the store that they never make. -/
structure Throwing (α : Type*) where
  queue : State α
  threw : List Nat

inductive ThrowingLabel (α : Type*)
  | queue (label : Label α)
  | throws (i : Nat) (left : α)

def Label.mover : Label α → Option Nat
  | .invoke _ => none
  | .access i | .fail i => some i

/-- `left` is what the failed assignment leaves in the cell. -/
def assignThrows (capacity : Nat) (s : State α) (i : Nat) (left : α) : Call α → Option (State α)
  | ⟨.push item,.writeData pos⟩ =>
      some ((s.goto i ⟨.push item,.writeData pos⟩).setCell capacity pos {s.cell capacity pos with data := left})
  | ⟨.pop,.readData pos⟩ =>
      some ((s.goto i ⟨.pop,.storePopped pos (s.cell capacity pos).data⟩).setCell capacity pos
        {s.cell capacity pos with data := left})
  | _ => none

def throwingStep (moved : α → α) (w capacity : Nat) (s : Throwing α) : ThrowingLabel α → Option (Throwing α)
  | .queue label =>
      if ∃ i ∈ s.threw, label.mover = some i then none
      else (step moved w capacity s.queue label).map fun queue => {s with queue := queue}
  | .throws i left =>
      if i ∈ s.threw then none
      else (s.queue.calls[i]?.bind (assignThrows capacity s.queue i left)).map fun queue => ⟨queue,s.threw ++ [i]⟩

def throwingInit (data : Nat → α) : Throwing α := ⟨init data,[]⟩

/-- However many items it has served, the queue can still be brought to serve one
more, up to the number of pushes at which positions may be mistaken. -/
def Serviceable (moved : α → α) (w capacity : Nat) (s : Throwing α) : Prop :=
  ∀ n, n + 1 < 2 ^ (w - 1) →
    ∃ (labels : List (ThrowingLabel α)) (t : Throwing α), run (throwingStep moved w capacity) s labels = some t ∧ n < t.queue.head

def Assigned : ThrowingLabel α → Prop
  | .queue _ => True
  | .throws _ _ => False

/-- The call was ended by an exception and holds its position. -/
def Lost (i pos : Nat) (s : Throwing α) : Prop :=
  i ∈ s.threw ∧ ∃ call, s.queue.calls[i]? = some call ∧ call.busy = some pos

inductive ThrowingMoves (moved : α → α) (w capacity : Nat) (s : Throwing α) : ThrowingLabel α → Throwing α → Prop
  | queue (label queue) (free : ∀ i ∈ s.threw, label.mover ≠ some i) (stepped : step moved w capacity s.queue label = some queue) :
      ThrowingMoves moved w capacity s (.queue label) {s with queue := queue}
  | throws (i left call queue) (fresh : i ∉ s.threw) (found : s.queue.calls[i]? = some call)
      (thrown : assignThrows capacity s.queue i left call = some queue) :
      ThrowingMoves moved w capacity s (.throws i left) ⟨queue,s.threw ++ [i]⟩

section Blocked
variable {s t : Throwing α} {i pos : Nat} {label : ThrowingLabel α}

theorem throwing_moves {capacity : Nat} (taken : throwingStep moved w capacity s label = some t) :
    ThrowingMoves moved w capacity s label t := by
  cases label with
  | queue label =>
    simp only [throwingStep] at taken
    split at taken
    next => contradiction
    next free =>
      obtain ⟨after,stepped,rfl⟩ := Option.map_eq_some_iff.mp taken
      exact .queue label after (fun i threw mine => free ⟨i,threw,mine⟩) stepped
  | throws j left =>
    simp only [throwingStep] at taken
    split at taken
    next => contradiction
    next fresh =>
      obtain ⟨after,thrown,rfl⟩ := Option.map_eq_some_iff.mp taken
      obtain ⟨own,present,assigned⟩ := Option.bind_eq_some_iff.mp thrown
      exact .throws j left own after fresh present assigned

theorem assignThrows_busy {queue after : State α} {capacity : Nat} {call : Call α} {left : α}
    (thrown : assignThrows capacity queue i left call = some after) :
    after.pushed = queue.pushed ∧ ∃ next pos, after.calls = queue.calls.set i next ∧ next.busy = some pos := by
  unfold assignThrows at thrown
  split at thrown
  next item pos => cases thrown; exact ⟨rfl,_,pos,rfl,rfl⟩
  next pos => cases thrown; exact ⟨rfl,_,pos,rfl,rfl⟩
  next => contradiction

theorem Inv.assignThrows {queue after : State α} (inv : Inv (2 ^ k) queue) {call : Call α} {left : α}
    (found : queue.calls[i]? = some call) (thrown : assignThrows (2 ^ k) queue i left call = some after) :
    Inv (2 ^ k) after := by
  unfold MpmcQueue.assignThrows at thrown
  split at thrown
  next => cases thrown; exact inv.writeCell found rfl rfl rfl rfl rfl (inv.facts i _ found)
  next => cases thrown; exact inv.writeCell found rfl rfl rfl rfl rfl (inv.facts i _ found)
  next => contradiction

theorem step_other {queue after : State α} {label : Label α} {capacity : Nat} {call : Call α}
    (taken : step moved w capacity queue label = some after) (other : label.mover ≠ some i)
    (found : queue.calls[i]? = some call) : after.calls[i]? = some call := by
  cases label with
  | invoke operation =>
    cases taken
    exact get_grows found
  | fail j =>
    have apart : j ≠ i := by simpa [Label.mover] using other
    simp only [step] at taken
    split at taken <;> first | contradiction | (cases taken; exact (List.getElem?_set_ne apart).trans found)
  | access j =>
    have apart : j ≠ i := by simpa [Label.mover] using other
    obtain ⟨own,present,accessed⟩ := Option.bind_eq_some_iff.mp taken
    obtain ⟨next,calls,_⟩ := advance_refused accessed
    rw [calls]
    exact (List.getElem?_set_ne apart).trans found

theorem Lost.kept {capacity : Nat} (lost : Lost i pos s) (taken : throwingStep moved w capacity s label = some t) :
    Lost i pos t := by
  obtain ⟨threw,call,found,busy⟩ := lost
  cases throwing_moves taken with
  | queue label queue free stepped => exact ⟨threw,call,step_other stepped (free i threw) found,busy⟩
  | throws j left own queue fresh present thrown =>
    obtain ⟨_,next,_,calls,_⟩ := assignThrows_busy thrown
    have apart : j ≠ i := by
      rintro rfl
      exact fresh threw
    refine ⟨List.mem_append_left _ threw,call,?_,busy⟩
    rw [calls]
    exact (List.getElem?_set_ne apart).trans found

theorem throwing_grows (taken : throwingStep moved w (2 ^ k) s label = some t) :
    s.queue.pushed.length ≤ t.queue.pushed.length := by
  cases throwing_moves taken with
  | queue label queue free stepped => exact (step_moves moved w (2 ^ k) _ _ label stepped).pushed_grows
  | throws j left own queue fresh present thrown => exact Nat.le_of_eq (congrArg List.length (assignThrows_busy thrown).1.symm)

theorem inv_throwing (two : 1 ≤ k) (fits : k < w) (inv : Inv (2 ^ k) s.queue)
    (few : s.queue.pushed.length < 2 ^ (w - 1)) (taken : throwingStep moved w (2 ^ k) s label = some t) : Inv (2 ^ k) t.queue := by
  cases throwing_moves taken with
  | queue label queue free stepped => exact inv.moves two fits few (step_moves moved w (2 ^ k) _ _ label stepped)
  | throws j left own queue fresh present thrown => exact inv.assignThrows present thrown

/-- A position lost to an exception is in the last lap that the queue begins. -/
theorem lost_run (two : 1 ≤ k) (fits : k < w) (lost : Lost i pos s) (inv : Inv (2 ^ k) s.queue)
    (inside : pos + 2 ^ k < 2 ^ (w - 1)) {labels : List (ThrowingLabel α)}
    (reached : run (throwingStep moved w (2 ^ k)) s labels = some t) : t.queue.head ≤ pos + 2 ^ k := by
  have within {state : Throwing α} (inv : Inv (2 ^ k) state.queue) (lost : Lost i pos state) :
      state.queue.tail ≤ pos + 2 ^ k := by
    obtain ⟨_,call,found,busy⟩ := lost
    exact (inv.busy_window found busy).2
  obtain ⟨kept,still⟩ := run_invariant (fun state => Inv (2 ^ k) state.queue ∧ Lost i pos state) (fun state label next known taken => by
    have bound := within known.1 known.2
    have tail := known.1.tail
    exact ⟨inv_throwing two fits known.1 (by omega) taken,known.2.kept taken⟩) ⟨inv,lost⟩ reached
  exact Nat.le_trans kept.ordered (within kept still)

def AllLost (s : Throwing α) : Prop := ∀ i ∈ s.threw, ∃ pos, Lost i pos s

theorem allLost_step {capacity : Nat} (lost : AllLost s) (taken : throwingStep moved w capacity s label = some t) : AllLost t := by
  intro i threw
  by_cases before : i ∈ s.threw
  · obtain ⟨pos,own⟩ := lost i before
    exact ⟨pos,own.kept taken⟩
  · cases throwing_moves taken with
    | queue label queue free stepped => exact absurd threw before
    | throws j left own queue fresh present thrown =>
      obtain ⟨_,next,pos,calls,busy⟩ := assignThrows_busy thrown
      obtain rfl : i = j := by simpa [before] using threw
      exact ⟨pos,threw,next,by rw [calls]; exact get_self present,busy⟩

theorem throwing_run {data : Nat → α} {labels : List (ThrowingLabel α)} (two : 1 ≤ k) (fits : k < w)
    (reached : run (throwingStep moved w (2 ^ k)) (throwingInit data) labels = some s)
    (few : s.queue.pushed.length < 2 ^ (w - 1)) : Inv (2 ^ k) s.queue ∧ AllLost s := by
  refine run_invariant (fun state => state.queue.pushed.length < 2 ^ (w - 1) → Inv (2 ^ k) state.queue ∧ AllLost state)
    ?_ (fun _ => ⟨(inv_init k data).1,fun i threw => by contradiction⟩) reached few
  intro before label after holds taken small
  have fewer := Nat.lt_of_le_of_lt (throwing_grows taken) small
  obtain ⟨inv,lost⟩ := holds fewer
  exact ⟨inv_throwing two fits inv fewer taken,allLost_step lost taken⟩

theorem threw_iff {capacity : Nat} {start : Throwing α} {labels : List (ThrowingLabel α)} (fresh : start.threw = [])
    (reached : run (throwingStep moved w capacity) start labels = some s) :
    s.threw = [] ↔ Obeys (throwingStep moved w capacity) (fun _ label => Assigned label) start labels := by
  refine @last_iff_obeys _ _ _ (fun _ => True) (fun state => state.threw = []) _ (fun _ _ _ _ _ => trivial) ?_ ?_ ?_
    _ _ _ trivial fresh reached
  · intro state label next _ empty assigned taken
    cases throwing_moves taken with
    | queue => exact empty
    | throws => exact assigned.elim
  · intro state label next _ threw taken
    cases throwing_moves taken with
    | queue => exact absurd trivial threw
    | throws => simp
  · intro state label next _ some taken
    cases throwing_moves taken with
    | queue => exact some
    | throws => simp

end Blocked

section Service
variable {s t : State α}

theorem Inv.run (two : 1 ≤ k) (fits : k < w) (inv : Inv (2 ^ k) s) {labels : List (Label α)}
    (reached : Transition.run (step moved w (2 ^ k)) s labels = some t) (few : t.pushed.length < 2 ^ (w - 1)) : Inv (2 ^ k) t := by
  refine run_invariant (fun state => state.pushed.length < 2 ^ (w - 1) → Inv (2 ^ k) state) ?_ (fun _ => inv) reached few
  intro before label after holds taken small
  have moves := step_moves moved w (2 ^ k) before after label taken
  have fewer := Nat.lt_of_le_of_lt moves.pushed_grows small
  exact (holds fewer).moves two fits fewer moves

/-- What the calls between exchange and store still have to do. -/
def Call.pending (call : Call α) : Nat :=
  match call.point with
  | .writeData _ | .readData _ => 2
  | .storePushed _ | .storePopped _ _ => 1
  | _ => 0

variable (moved w k) in
theorem busy_access {i pos : Nat} {call : Call α} (found : s.calls[i]? = some call) (busy : call.busy = some pos) :
    ∃ next t, step moved w (2 ^ k) s (.access i) = some t ∧ t.calls = s.calls.set i next ∧ next.pending < call.pending ∧
      t.head = s.head ∧ t.pushed = s.pushed := by
  obtain ⟨operation,point⟩ := call
  cases operation with
  | push item =>
    cases point with
    | writeData | storePushed => exact ⟨_,_,Option.bind_eq_some_iff.mpr ⟨_,found,rfl⟩,rfl,Nat.lt_succ_self _,rfl,rfl⟩
    | _ => contradiction
  | pop =>
    cases point with
    | readData | storePopped => exact ⟨_,_,Option.bind_eq_some_iff.mpr ⟨_,found,rfl⟩,rfl,Nat.lt_succ_self _,rfl,rfl⟩
    | _ => contradiction

theorem quiet_or_busy (s : State α) :
    Quiet s ∨ ∃ (i pos : Nat) (call : Call α), s.calls[i]? = some call ∧ call.busy = some pos := by
  by_cases busy : ∃ (i pos : Nat) (call : Call α), s.calls[i]? = some call ∧ call.busy = some pos
  · exact Or.inr busy
  · refine Or.inl ⟨fun pos held => busy ?_,fun pos held => busy ?_⟩
    · obtain ⟨i,call,found,owns⟩ := held
      exact ⟨i,pos,call,found,by simp [Call.busy,owns]⟩
    · obtain ⟨i,call,found,owns⟩ := held
      have other : call.producing = none := by
        obtain ⟨operation,point⟩ := call
        cases operation <;> cases point <;> first | contradiction | rfl
      exact ⟨i,pos,call,found,by simp [Call.busy,owns,other]⟩

variable (moved) in
/-- Every call between its exchange and its store can be run to its store. -/
theorem quiet_reachable (two : 1 ≤ k) (fits : k < w) (inv : Inv (2 ^ k) s) (few : s.pushed.length < 2 ^ (w - 1)) :
    ∃ labels t, Transition.run (step moved w (2 ^ k)) s labels = some t ∧ Inv (2 ^ k) t ∧ Quiet t ∧
      t.head = s.head ∧ t.pushed = s.pushed := by
  obtain ⟨labels,t,_,reached,⟨kept,head,pushed⟩,quiet⟩ := run_to_goal_obeying
    (fun state => Inv (2 ^ k) state ∧ state.head = s.head ∧ state.pushed = s.pushed) (fun _ _ => True)
    (fun state => (state.calls.map Call.pending).sum) (fun state known (unmet : ¬ Quiet state) => by
      obtain ⟨kept,head,pushed⟩ := known
      obtain ⟨i,pos,call,found,busy⟩ := (quiet_or_busy state).resolve_left unmet
      obtain ⟨next,t,taken,calls,nearer,sameHead,samePushed⟩ := busy_access moved w k found busy
      have moves := step_moves moved w (2 ^ k) state t _ taken
      refine ⟨Label.access i,t,trivial,taken,⟨kept.moves two fits (by rw [pushed]; exact few) moves,sameHead.trans head,
        samePushed.trans pushed⟩,?_⟩
      have summed := sum_set Call.pending next found
      simp only [calls]
      omega) s ⟨inv,rfl,rfl⟩
  exact ⟨labels,t,reached,kept,quiet,head,pushed⟩

theorem Quiet.append (quiet : Quiet s) {call : Call α} (calls : t.calls = s.calls ++ [call])
    (idle : call.producing = none ∧ call.consuming = none) : Quiet t := by
  constructor
  · intro pos
    rw [calls,Held.append_iff idle.1]
    exact quiet.unwritten pos
  · intro pos
    rw [calls,Held.append_iff idle.2]
    exact quiet.unread pos

variable (moved) in
/-- From a state with no call between exchange and store, `Push` and `Pop` in turn
serve any number of items. -/
theorem serves_more (two : 1 ≤ k) (fits : k < w) (item : α) {n : Nat} (small : n + 1 < 2 ^ (w - 1)) (inv : Inv (2 ^ k) s)
    (quiet : Quiet s) (few : s.pushed.length < 2 ^ (w - 1)) :
    ∃ labels t, Transition.run (step moved w (2 ^ k)) s labels = some t ∧ n < t.head := by
  induction missing : n + 1 - s.head generalizing s with
  | zero => exact ⟨[],s,rfl,by omega⟩
  | succ rest ih =>
    have size := Nat.two_pow_pos k
    have tail := inv.tail
    have ordered := inv.ordered
    have pops {state : State α} (inv : Inv (2 ^ k) state) (quiet : Quiet state) (few : state.pushed.length < 2 ^ (w - 1))
        (head : state.head = s.head) (waiting : state.head < state.tail) :
        ∃ labels t, Transition.run (step moved w (2 ^ k)) state labels = some t ∧ n < t.head := by
      obtain ⟨next,popped,reached,calls,moves,pushed⟩ := pop_alone moved inv quiet fits few waiting
      have fewer : next.pushed.length < 2 ^ (w - 1) := by
        rw [pushed]
        exact few
      obtain ⟨others,t,after,goal⟩ := ih (inv.run two fits reached fewer) (quiet.append calls ⟨rfl,rfl⟩) fewer (by omega)
      exact ⟨_ ++ others,t,run_trans reached after,goal⟩
    rcases Nat.lt_or_ge s.head s.tail with waiting | empty
    · exact pops inv quiet few rfl waiting
    · obtain ⟨next,reached,calls,head,pushed⟩ := push_alone moved inv quiet (by omega) few (by omega) item
      have length : next.pushed.length = s.pushed.length + 1 := by simp [pushed]
      have fewer : next.pushed.length < 2 ^ (w - 1) := by omega
      have kept := inv.run two fits reached fewer
      have waiting : next.head < next.tail := by
        rw [kept.tail]
        omega
      obtain ⟨others,t,after,goal⟩ := pops kept (quiet.append calls ⟨rfl,rfl⟩) fewer head waiting
      exact ⟨_ ++ others,t,run_trans reached after,goal⟩

end Service

theorem run_unthrown {capacity : Nat} {queue after : State α} {labels : List (Label α)}
    (reached : run (step moved w capacity) queue labels = some after) :
    run (throwingStep moved w capacity) ⟨queue,[]⟩ (labels.map .queue) = some ⟨after,[]⟩ := by
  induction labels generalizing queue with
  | nil =>
    cases reached
    rfl
  | cons label rest ih =>
    obtain ⟨next,taken,remaining⟩ := run_cons_some reached
    have stepped : throwingStep moved w capacity ⟨queue,[]⟩ (.queue label) = some ⟨next,[]⟩ := by
      simp only [throwingStep,List.not_mem_nil,false_and,exists_false,if_false,taken,Option.map_some]
    exact run_step stepped (ih remaining)

/-- No call is ever blocked for good if and only if no assignment has thrown. -/
theorem serviceable_iff {data : Nat → α} {labels : List (ThrowingLabel α)} {s : Throwing α} (two : 1 ≤ k)
    (reached : run (throwingStep moved w (2 ^ k)) (throwingInit data) labels = some s)
    (few : s.queue.pushed.length + 2 ^ k < 2 ^ (w - 1)) :
    Serviceable moved w (2 ^ k) s ↔
      Obeys (throwingStep moved w (2 ^ k)) (fun _ label => Assigned label) (throwingInit data) labels := by
  have fits := fits_of_room two (Nat.le_of_lt few)
  have fewer : s.queue.pushed.length < 2 ^ (w - 1) := Nat.lt_of_le_of_lt (Nat.le_add_right _ _) few
  obtain ⟨inv,lost⟩ := throwing_run two fits reached fewer
  rw [← threw_iff (show (throwingInit data).threw = [] from rfl) reached]
  constructor
  · intro serviceable
    by_contra threw
    obtain ⟨i,member⟩ := List.exists_mem_of_ne_nil s.threw threw
    obtain ⟨pos,own⟩ := lost i member
    have below : pos < s.queue.tail := by
      obtain ⟨_,call,found,busy⟩ := own
      exact (inv.busy_window found busy).1
    have tail := inv.tail
    obtain ⟨others,t,after,more⟩ := serviceable (pos + 2 ^ k) (by omega)
    exact absurd (lost_run two fits own inv (by omega) after) (Nat.not_le_of_lt more)
  · intro none n small
    obtain ⟨queue,threw⟩ := s
    subst none
    obtain ⟨first,middle,settled,kept,quiet,_,pushed⟩ := quiet_reachable moved two fits inv fewer
    obtain ⟨second,last,served,more⟩ := serves_more moved two fits (data 0) small kept quiet (by rw [pushed]; exact fewer)
    exact ⟨_,_,run_unthrown (run_trans settled served),more⟩

theorem serviceable_iff_stored :
    ∃ s : Throwing Nat, run (throwingStep id 64 (2 ^ 1)) (throwingInit fun _ => 0)
      (.queue (.invoke (.push 1)) :: List.replicate 5 (.queue (.access 0))) = some s ∧
      (Serviceable id 64 (2 ^ 1) s ↔ Obeys (throwingStep id 64 (2 ^ 1)) (fun _ label => Assigned label)
        (throwingInit fun _ => 0) (.queue (.invoke (.push 1)) :: List.replicate 5 (.queue (.access 0)))) := by
  obtain ⟨s,reached,pushed⟩ := Option.map_eq_some_iff.mp (show (run (throwingStep id 64 (2 ^ 1)) (throwingInit fun _ => 0)
    (.queue (.invoke (.push 1)) :: List.replicate 5 (.queue (.access 0)))).map (fun s => s.queue.pushed) = some [1] by
      decide +kernel)
  exact ⟨s,reached,serviceable_iff (by decide) reached (by rw [pushed]; decide)⟩

/-- Two cells, and the assignment of the first `Push` throws: its item counts as
queued, the next `Push` returns true, and the queue never serves three items. -/
theorem throw_blocks :
    ∃ s : Throwing Nat, run (throwingStep id 64 (2 ^ 1)) (throwingInit fun _ => 0)
      ([.queue (.invoke (.push 1)),.queue (.access 0),.queue (.access 0),.queue (.access 0),.throws 0 0] ++
        .queue (.invoke (.push 2)) :: List.replicate 5 (.queue (.access 1))) = some s ∧
      s.threw = [0] ∧ s.queue.items = [1,2] ∧ ¬ Serviceable id 64 (2 ^ 1) s := by
  obtain ⟨s,reached,ends⟩ := Option.map_eq_some_iff.mp (show (run (throwingStep id 64 (2 ^ 1)) (throwingInit fun _ => 0)
      ([.queue (.invoke (.push 1)),.queue (.access 0),.queue (.access 0),.queue (.access 0),.throws 0 0] ++
        .queue (.invoke (.push 2)) :: List.replicate 5 (.queue (.access 1)))).map
      (fun s => (s.threw,s.queue.pushed,s.queue.head,s.queue.calls[0]?)) =
    some ([0],[1,2],0,some (⟨.push 1,.writeData 0⟩ : Call Nat)) by decide +kernel)
  obtain ⟨threw,rest⟩ := Prod.mk.inj ends
  obtain ⟨pushed,others⟩ := Prod.mk.inj rest
  obtain ⟨head,call⟩ := Prod.mk.inj others
  have inv := (throwing_run (by decide) (by decide) reached (by rw [pushed]; decide)).1
  have lost : Lost 0 0 s := ⟨by simp [threw],_,call,rfl⟩
  refine ⟨s,reached,threw,by rw [State.items,pushed,head]; rfl,fun serviceable => ?_⟩
  obtain ⟨labels,t,after,more⟩ := serviceable 2 (by decide)
  exact absurd (lost_run (by decide) (by decide) lost inv (by decide) after) (Nat.not_le_of_lt more)

end Ezthread.MpmcQueue
