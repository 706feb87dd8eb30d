import Ezthread.Barrier

/-! The rounds of a `Barrier` used through `Wait` only. The arrivals, in the order
in which they acquire the lock, fill one generation after the other. -/
namespace Ezthread.Barrier
open Transition Activation Monitor

variable {w count : Nat} {s t : State}

/-- The generation a call arrived in. -/
def arrival (call : Call) : Option Nat :=
  match call.point with
  | .entering => none
  | .asleep frame _ | .woken frame _ => some frame.arrived
  | .announcing result | .returned result => some result.arrived

def arrivals (s : State) : List (Option Nat) := s.calls.map arrival

/-- The call that acquires the lock to arrive. -/
def entered : Label Operation → Option Nat
  | .enter i => some i
  | _ => none

/-- Only the current generation has sleepers that nobody has notified, and only
earlier ones have calls that returned. -/
def Settled (completed : Nat) (call : Call) : Prop :=
  match call.point with
  | .asleep frame false => frame.arrived = completed
  | .returned result => result.arrived < completed
  | _ => True

structure Rounds (w count : Nat) (s : State) (past : List (Label Operation)) : Prop where
  inv : Inv w count s
  waits : Every (fun _ call => call.operation = .wait) s.calls
  groups : ∀ g, (arrivals s).count (some g) =
    if g < s.data.completed then count else if g = s.data.completed then s.data.waiting else 0
  settled : Every (fun _ call => Settled s.data.completed call) s.calls
  length : (past.filterMap entered).length = s.data.completed * count + s.data.waiting
  order : ∀ n i, (past.filterMap entered)[n]? = some i → (arrivals s)[i]? = some (some (n / count))

theorem arrival_deaf : Deaf arrival := by
  intro given
  obtain ⟨operation,point⟩ := given
  cases point <;> rfl

theorem operation_deaf : Deaf fun call : Call => call.operation = .wait := by
  intro given
  obtain ⟨operation,point⟩ := given
  cases point <;> rfl

theorem arrivals_notifyIf (notifies : Bool) (calls : List Call) : (notifyIf notifies calls).map arrival = calls.map arrival := by
  unfold notifyIf
  split
  · rw [List.map_map]
    exact List.map_congr_left fun call _ => arrival_deaf call
  · rfl

theorem arrivals_perform (i : Nat) (operation : Operation) (block : Block) :
    arrivals (s.perform i operation block) = (arrivals s).set i (arrival ⟨operation,block.exit.point⟩) := by
  rw [arrivals,State.perform,List.map_set,arrivals_notifyIf,arrivals]

theorem arrivals_found {i : Nat} {call : Call} (found : s.calls[i]? = some call) :
    (arrivals s)[i]? = some (arrival call) := by
  rw [arrivals,List.getElem?_map,found]
  rfl

theorem arrivals_same {i : Nat} {call next : Call} (found : s.calls[i]? = some call) (same : arrival next = arrival call) :
    (arrivals s).set i (arrival next) = arrivals s := by
  obtain ⟨inside,holds⟩ := List.getElem?_eq_some_iff.mp (arrivals_found found)
  rw [same,← holds,List.set_getElem_self]

theorem completed_grows {label : Label Operation} (taken : step (program w count) s label = some t) :
    s.data.completed ≤ t.data.completed := by
  have same (frame : Frame) (fields : Fields) : (whileSame frame fields).data = fields := by
    unfold whileSame
    split <;> rfl
  cases step_moves (program w count) s t label taken with
  | enter i operation found =>
    change s.data.completed ≤ (arrive w count s.data).data.completed
    unfold arrive
    simp only
    split
    · exact Nat.le_succ _
    · rw [same]
  | resume i operation frame result found =>
    cases operation with
    | wait => exact Nat.le_of_eq (congrArg Fields.completed (same frame s.data)).symm
    | waitFor =>
      cases result with
      | true => exact Nat.le_of_eq (congrArg Fields.completed (same frame s.data)).symm
      | false => exact Nat.le_refl _
  | _ => exact Nat.le_refl _

/-- A step that neither arrives nor completes a generation. -/
theorem Rounds.keep {past : List (Label Operation)} (rounds : Rounds w count s past) {label : Label Operation}
    (silent : entered label = none) {i : Nat} {call next : Call} (found : s.calls[i]? = some call) (inv : Inv w count t)
    (data : t.data = s.data) (calls : t.calls = s.calls.set i next) (same : arrival next = arrival call)
    (waits : next.operation = .wait) (settled : Settled s.data.completed next) :
    Rounds w count t (past ++ [label]) := by
  have kept : arrivals t = arrivals s := by
    rw [arrivals,calls,List.map_set]
    exact arrivals_same found same
  have silence : (past ++ [label]).filterMap entered = past.filterMap entered := by
    simp [List.filterMap_append,silent]
  refine ⟨inv,?_,?_,?_,?_,?_⟩
  · rw [calls]
    exact rounds.waits.set waits
  · rw [kept,data]
    exact rounds.groups
  · rw [calls,data]
    exact rounds.settled.set settled
  · rw [silence,data]
    exact rounds.length
  · rw [silence,kept]
    exact rounds.order

theorem Rounds.invoke {past : List (Label Operation)} (rounds : Rounds w count s past)
    (inv : Inv w count {s with calls := s.calls ++ [⟨.wait,.entering⟩]}) :
    Rounds w count {s with calls := s.calls ++ [⟨.wait,.entering⟩]} (past ++ [.invoke .wait]) := by
  have grown : arrivals {s with calls := s.calls ++ [⟨.wait,.entering⟩]} = arrivals s ++ [none] := List.map_append
  have silence : (past ++ [Label.invoke Operation.wait]).filterMap entered = past.filterMap entered := by
    simp [List.filterMap_append,entered]
  refine ⟨inv,rounds.waits.append rfl,fun g => ?_,rounds.settled.append trivial,?_,fun n i present => ?_⟩
  · rw [grown,List.count_append]
    exact rounds.groups g
  · rw [silence]
    exact rounds.length
  · rw [silence] at present
    rw [grown]
    exact get_grows (rounds.order n i present)

theorem Rounds.resume {past : List (Label Operation)} (rounds : Rounds w count s past) (few : s.data.completed < 2 ^ w)
    {i : Nat} {frame : Frame} {result : Bool} (found : s.calls[i]? = some ⟨.wait,.woken frame result⟩) :
    Rounds w count (s.perform i .wait (whileSame frame s.data)) (past ++ [.resume i]) := by
  have inv := inv_whileSame rounds.inv found
  obtain ⟨arrived,current,_⟩ := rounds.inv.facts i _ found
  have generation := rounds.inv.generation
  rw [Nat.mod_eq_of_lt few] at generation
  rw [Nat.mod_eq_of_lt (Nat.lt_of_le_of_lt arrived few)] at current
  by_cases same : s.data.generation = frame.currentGeneration
  · have shape : whileSame frame s.data = ⟨s.data,false,.sleep frame⟩ := if_pos same
    rw [shape] at inv ⊢
    exact rounds.keep rfl found inv rfl rfl rfl rfl (current.symm.trans (same.symm.trans generation))
  · have shape : whileSame frame s.data = ⟨s.data,false,.leave ⟨true,frame.arrived,s.data.completed⟩⟩ := if_neg same
    rw [shape] at inv ⊢
    refine rounds.keep rfl found inv rfl rfl rfl rfl ?_
    change frame.arrived < s.data.completed
    omega

/-- An arrival takes the next place of the current generation. -/
theorem Rounds.arrival {past : List (Label Operation)} (rounds : Rounds w count s past) {i : Nat} {block : Block}
    (found : s.calls[i]? = some ⟨.wait,.entering⟩)
    (inv : Inv w count (s.perform i .wait block))
    (arrived : arrival ⟨.wait,block.exit.point⟩ = some s.data.completed)
    (filled : block.data.completed = s.data.completed ∧ block.data.waiting = s.data.waiting + 1 ∨
      block.data.completed = s.data.completed + 1 ∧ block.data.waiting = 0 ∧ s.data.waiting + 1 = count)
    (settled : Every (fun _ call => Settled block.data.completed call) (s.perform i .wait block).calls) :
    Rounds w count (s.perform i .wait block) (past ++ [.enter i]) := by
  have below := rounds.inv.sound.2.1
  have listed : (past ++ [Label.enter i]).filterMap entered = past.filterMap entered ++ [i] := by
    rw [List.filterMap_append]
    rfl
  have before := arrivals_found found
  refine ⟨inv,(every_notifyIf operation_deaf block.notifyAll rounds.waits).set rfl,fun g => ?_,settled,?_,?_⟩
  · have counted := count_set (· == some g) (some s.data.completed) before
    have groups := rounds.groups g
    rw [arrivals_perform,arrived]
    change ((arrivals s).set i (some s.data.completed)).countP (· == some g) =
      if g < block.data.completed then count else if g = block.data.completed then block.data.waiting else 0
    change (arrivals s).countP (· == some g) = _ at groups
    rw [groups] at counted
    simp only [Barrier.arrival,beq_iff_eq,reduceCtorEq,if_false,Option.some.injEq] at counted
    rcases filled with ⟨completed,waiting⟩ | ⟨completed,waiting,last⟩
    · rw [completed,waiting]
      split_ifs at counted ⊢ <;> omega
    · rw [completed,waiting]
      split_ifs at counted ⊢ <;> omega
  · rw [listed,List.length_append,List.length_singleton,rounds.length]
    change _ = block.data.completed * count + block.data.waiting
    rcases filled with ⟨completed,waiting⟩ | ⟨completed,waiting,last⟩
    · rw [completed,waiting,Nat.add_assoc]
    · rw [completed,waiting,Nat.succ_mul,Nat.add_assoc,last]
      rfl
  · intro n j present
    rw [listed] at present
    rw [arrivals_perform,arrived]
    rcases get_append present with earlier | ⟨rfl,rfl⟩
    · have known := rounds.order n j earlier
      rw [List.getElem?_set_ne]
      · exact known
      · intro same
        subst same
        cases before.symm.trans known
    · rw [get_self before,rounds.length,Nat.mul_comm,Nat.mul_add_div (by omega),Nat.div_eq_of_lt below,Nat.add_zero]

theorem settled_notified (completed : Nat) {call : Call} (inside : Settled completed call) :
    Settled (completed + 1) call.notify := by
  obtain ⟨operation,point⟩ := call
  cases point with
  | returned result => exact Nat.lt_succ_of_lt inside
  | _ => trivial

theorem Rounds.enter {past : List (Label Operation)} (rounds : Rounds w count s past) (fits : count < 2 ^ w) {i : Nat}
    (found : s.calls[i]? = some ⟨.wait,.entering⟩) :
    Rounds w count (s.perform i .wait (arrive w count s.data)) (past ++ [.enter i]) := by
  have inv := inv_arrive fits rounds.inv found
  rcases arrive_spec rounds.inv fits with ⟨last,shape⟩ | ⟨more,shape⟩
  · rw [shape] at inv ⊢
    refine rounds.arrival found inv rfl (Or.inr ⟨rfl,rfl,last⟩) (Every.set ?_ (Nat.lt_succ_self _))
    intro j call present
    rw [notifyIf,if_pos rfl,List.getElem?_map] at present
    obtain ⟨before,kept,rfl⟩ := Option.map_eq_some_iff.mp present
    exact settled_notified _ (rounds.settled j before kept)
  · rw [shape] at inv ⊢
    exact rounds.arrival found inv rfl (Or.inl ⟨rfl,rfl⟩) (rounds.settled.set rfl)

theorem rounds_step (fits : count < 2 ^ w) (s : State) (past : List (Label Operation)) (label : Label Operation) (t : State)
    (rounds : Rounds w count s past) (few : s.data.completed < 2 ^ w) (waits : label ≠ .invoke .waitFor)
    (taken : step (program w count) s label = some t) : Rounds w count t (past ++ [label]) := by
  have timely : Timely s label := by
    intro i frame _ found
    exact absurd (rounds.waits i _ found) (by simp)
  have inv := inv_step fits s label t rounds.inv timely taken
  cases step_moves (program w count) s t label taken with
  | invoke operation =>
    cases operation with
    | wait => exact rounds.invoke inv
    | waitFor => exact absurd rfl waits
  | enter i operation found =>
    obtain rfl := rounds.waits i _ found
    exact rounds.enter fits found
  | wake i operation frame notified found =>
    obtain rfl : operation = .wait := rounds.waits i _ found
    exact rounds.keep rfl found inv rfl rfl rfl rfl trivial
  | timeout i operation frame notified found timed =>
    obtain rfl : operation = .wait := rounds.waits i _ found
    contradiction
  | resume i operation frame result found =>
    obtain rfl := rounds.waits i _ found
    exact rounds.resume few found
  | announce i operation result found => exact (rounds.inv.facts i _ found).elim

theorem rounds_run {fields : Fields} {labels : List (Label Operation)} (built : construct count = .ok fields)
    (fits : count < 2 ^ w) (reached : run (step (program w count)) (init fields) labels = some s)
    (waits : .invoke .waitFor ∉ labels) (few : s.data.completed < 2 ^ w) : Rounds w count s labels := by
  have first : Rounds w count (init fields) [] := by
    have inv := inv_init (w := w) built
    unfold construct at built
    split at built
    next => contradiction
    next =>
      cases built
      refine ⟨inv,Every.nil _,fun g => ?_,Every.nil _,by simp [init],fun n i present => by simp at present⟩
      change 0 = if g < 0 then count else if g = 0 then 0 else 0
      split_ifs <;> omega
  refine run_history (fun state past => .invoke .waitFor ∉ past → state.data.completed < 2 ^ w → Rounds w count state past)
    ?_ [] (fun _ _ => first) reached waits few
  intro state past label next known taken absent small
  have before := Nat.lt_of_le_of_lt (completed_grows taken) small
  have earlier := known (fun member => absent (List.mem_append_left _ member)) before
  refine rounds_step fits state past label next earlier before ?_ taken
  intro same
  exact absent (List.mem_append_right _ (by rw [same]; exact List.mem_singleton_self _))

/-- A call returns only once its generation is full; the arrivals, in the order
in which they acquire the lock, fill one generation after the other; and no call
sleeps through the end of its generation without being notified. -/
theorem barrier_rounds {fields : Fields} {labels : List (Label Operation)} (built : construct count = .ok fields)
    (fits : count < 2 ^ w) (reached : run (step (program w count)) (init fields) labels = some s)
    (waits : .invoke .waitFor ∉ labels) (few : s.data.completed < 2 ^ w) :
    (∀ (i : Nat) (result : Result), s.calls[i]? = some ⟨.wait,.returned result⟩ →
      (arrivals s).count (some result.arrived) = count) ∧
    (∀ n i, (labels.filterMap entered)[n]? = some i → (arrivals s)[i]? = some (some (n / count))) ∧
    (∀ (i : Nat) (frame : Frame) (notified : Bool), s.calls[i]? = some ⟨.wait,.asleep frame notified⟩ →
      frame.arrived < s.data.completed → notified = true) := by
  have rounds := rounds_run built fits reached waits few
  refine ⟨fun i result found => ?_,rounds.order,fun i frame notified found past => ?_⟩
  · have full : result.arrived < s.data.completed := rounds.settled i _ found
    rw [rounds.groups,if_pos full]
  · have settled := rounds.settled i _ found
    cases notified with
    | true => rfl
    | false => exact absurd settled (Nat.ne_of_lt past)

/-- Three threads at a barrier for two: the third waits for the next generation
while the first has not woken yet. -/
theorem barrier_rounds_overlap :
    ∃ s, run (step (program 64 2)) (init ⟨0,0,0⟩)
      [.invoke .wait,.invoke .wait,.invoke .wait,.enter 0,.enter 2,.enter 1,.wake 0,.resume 0] = some s ∧
      s.calls[0]? = some ⟨.wait,.returned ⟨true,0,1⟩⟩ ∧ (arrivals s).count (some 0) = 2 := by
  obtain ⟨s,reached,data,returned⟩ : ∃ s, run (step (program 64 2)) (init ⟨0,0,0⟩)
      [.invoke .wait,.invoke .wait,.invoke .wait,.enter 0,.enter 2,.enter 1,.wake 0,.resume 0] = some s ∧
      s.data.completed = 1 ∧ s.calls[0]? = some ⟨.wait,.returned ⟨true,0,1⟩⟩ := ⟨_,rfl,rfl,rfl⟩
  exact ⟨s,reached,returned,
    (barrier_rounds rfl (by decide) reached (by simp) (by rw [data]; decide)).1 0 _ returned⟩

end Ezthread.Barrier
