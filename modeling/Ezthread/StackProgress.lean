import Ezthread.Contention
import Ezthread.LockFreeStackHistory

/-! How long `Push` and `Pop` of `LockFreeStack` can keep one another from returning.
An exchange fails only because another succeeded in between, or spuriously; the
exchange that succeeds has saved up for all the accesses it makes others repeat. -/
namespace Ezthread.LockFreeStack
open Transition Activation Contention Lifo

variable {α : Type*} {moved : α → α} {s t : State α} {crowd i : Nat} {old next : Call α}

def Label.starts : Label α → Bool
  | .invoke _ => true
  | _ => false

def Label.slips : Label α → Bool
  | .fail _ => true
  | _ => false

def Label.caller : Label α → Option Nat
  | .invoke _ => none
  | .alloc i _ | .access i | .fail i => some i

def Call.running (call : Call α) : Bool := !call.point.finished

def State.running (s : State α) : Nat := s.calls.countP Call.running

def State.finished (s : State α) : Nat := s.calls.countP (fun call => !call.running)

/-- The two accesses that a call repeats whose head is not the head any more. -/
def stale (head remembered : Option Nat) : Nat := if remembered = head then 0 else 2

def Call.price (crowd : Nat) (head : Option Nat) (call : Call α) : Nat :=
  match call.point with
  | .start => 4 + 2 * crowd
  | .loadHead _ => 3 + 2 * crowd
  | .linkNext _ oldHead => 2 + 2 * crowd + stale head oldHead
  | .publish _ oldHead => 1 + 2 * crowd + stale head oldHead
  | .readNext current => 3 + 2 * crowd + stale head (some current)
  | .unlink current _ => 2 + 2 * crowd + stale head (some current)
  | .takeData _ => 1
  | .pushed | .popped _ | .empty => 0

def State.owes (crowd : Nat) (s : State α) : Nat := owed (Call.price crowd s.head) s.calls

theorem stale_le (head remembered : Option Nat) : stale head remembered ≤ 2 := by
  unfold stale
  split <;> omega

theorem stale_self (head : Option Nat) : stale head head = 0 := if_pos rfl

theorem stale_other {head remembered : Option Nat} (other : remembered ≠ head) : stale head remembered = 2 :=
  if_neg other

theorem price_le (crowd : Nat) (head : Option Nat) (call : Call α) :
    call.price crowd head ≤ if call.running then 2 * crowd + 5 else 0 := by
  obtain ⟨operation,point⟩ := call
  cases point with
  | linkNext newNode remembered | publish newNode remembered =>
    have repeated := stale_le head remembered
    simp only [Call.price,Call.running,Point.finished,Bool.not_false,if_true]
    omega
  | readNext current | unlink current next =>
    have repeated := stale_le head (some current)
    simp only [Call.price,Call.running,Point.finished,Bool.not_false,if_true]
    omega
  | _ => simp [Call.price,Call.running,Point.finished] <;> omega

theorem price_setback (crowd : Nat) (before after : Option Nat) (call : Call α) :
    call.price crowd after ≤ call.price crowd before + if call.running then 2 else 0 := by
  obtain ⟨operation,point⟩ := call
  cases point with
  | linkNext newNode remembered | publish newNode remembered =>
    have repeated := stale_le after remembered
    simp only [Call.price,Call.running,Point.finished,Bool.not_false,if_true]
    omega
  | readNext current | unlink current next =>
    have repeated := stale_le after (some current)
    simp only [Call.price,Call.running,Point.finished,Bool.not_false,if_true]
    omega
  | _ => simp [Call.price,Call.running,Point.finished]

theorem price_current (crowd : Nat) (head : Option Nat) :
    Call.price crowd head (⟨.pop,whileCurrent head⟩ : Call α) ≤ 3 + 2 * crowd := by
  cases head with
  | none => exact Nat.zero_le _
  | some current =>
    simp [whileCurrent,Call.price,stale_self]

/-- A step that leaves the head alone sets nobody back. -/
theorem keeps_pays (gain : Nat) (found : s.calls[i]? = some old) (head : t.head = s.head)
    (calls : t.calls = s.calls.set i next)
    (cheaper : 1 + next.price crowd s.head ≤ old.price crowd s.head + gain) :
    1 + t.owes crowd ≤ s.owes crowd + gain := by
  rw [State.owes,State.owes,head,calls]
  refine owed_step Call.running 0 s.running gain found ?_ (Nat.le_refl _) ?_
  · intro call
    simp
  · simpa using cheaper

theorem wins_pays (found : s.calls[i]? = some old) (few : s.running ≤ crowd)
    (calls : t.calls = s.calls.set i next)
    (cheaper : 1 + next.price crowd t.head + 2 * crowd ≤ old.price crowd s.head) :
    1 + t.owes crowd ≤ s.owes crowd := by
  rw [State.owes,State.owes,calls]
  exact owed_step Call.running 2 crowd 0 found (price_setback crowd s.head t.head) few cheaper

theorem access_pays (found : s.calls[i]? = some old) (few : s.running ≤ crowd)
    (accessed : advance moved s i old = some t) : 1 + t.owes crowd ≤ s.owes crowd := by
  unfold advance at accessed
  split at accessed
  next value newNode =>
    cases accessed
    refine keeps_pays 0 found rfl rfl ?_
    simp only [Call.price,stale_self]
    omega
  next value newNode oldHead =>
    obtain ⟨node,present,rfl⟩ := Option.map_eq_some_iff.mp accessed
    refine keeps_pays 0 found rfl rfl ?_
    simp only [Call.price]
    omega
  next value newNode oldHead =>
    split at accessed
    · cases accessed
      refine wins_pays found few rfl ?_
      simp only [Call.price]
      omega
    · next other =>
      cases accessed
      refine keeps_pays 0 found rfl rfl ?_
      simp only [Call.price,stale_self,stale_other (Ne.symm other)]
      omega
  next =>
    cases accessed
    refine keeps_pays 0 found rfl rfl ?_
    have current := price_current (α := α) crowd s.head
    simp only [Call.price] at current ⊢
    omega
  next current =>
    obtain ⟨node,present,rfl⟩ := Option.map_eq_some_iff.mp accessed
    refine keeps_pays 0 found rfl rfl ?_
    simp only [Call.price]
    omega
  next current next =>
    split at accessed
    · obtain ⟨node,present,rfl⟩ := Option.map_eq_some_iff.mp accessed
      refine wins_pays found few rfl ?_
      simp only [Call.price]
      omega
    · next other =>
      cases accessed
      refine keeps_pays 0 found rfl rfl ?_
      have current := price_current (α := α) crowd s.head
      simp only [Call.price,stale_other (Ne.symm other)] at current ⊢
      omega
  next current =>
    obtain ⟨node,present,rfl⟩ := Option.map_eq_some_iff.mp accessed
    refine keeps_pays 0 found rfl rfl ?_
    simp [Call.price]
  next => contradiction

theorem slip_pays (found : s.calls[i]? = some old) (slipped : step moved s (.fail i) = some t) :
    1 + t.owes crowd ≤ s.owes crowd + 2 := by
  simp only [step,found] at slipped
  split at slipped
  next value newNode oldHead same =>
    cases same
    cases slipped
    refine keeps_pays 2 found rfl rfl ?_
    simp only [Call.price,stale_self]
    omega
  next current next same =>
    cases same
    cases slipped
    refine keeps_pays 2 found rfl rfl ?_
    have current := price_current (α := α) crowd s.head
    simp only [Call.price] at current ⊢
    omega
  next => contradiction

theorem step_pays (label : Label α) (few : s.running ≤ crowd) (taken : step moved s label = some t) :
    1 + t.owes crowd ≤ s.owes crowd +
      ((if label.starts then 2 * crowd + 5 else 0) + if label.slips then 2 else 0) := by
  cases label with
  | invoke operation =>
    cases taken
    simp only [State.owes,owed_append,Call.price,Label.starts,Label.slips,if_true]
    omega
  | alloc i address =>
    simp only [step] at taken
    split at taken
    next value found =>
      split at taken
      · cases taken
        refine keeps_pays 0 found rfl rfl ?_
        simp only [Call.price]
        omega
      · contradiction
    next => contradiction
  | access i =>
    obtain ⟨call,found,accessed⟩ := Option.bind_eq_some_iff.mp taken
    exact access_pays found few accessed
  | fail i =>
    cases found : s.calls[i]? with
    | none => simp [step,found] at taken
    | some call => exact slip_pays found taken

theorem advance_length {call : Call α} (accessed : advance moved s i call = some t) :
    t.calls.length = s.calls.length := by
  unfold advance at accessed
  repeat' split at accessed
  all_goals first
    | contradiction
    | cases accessed
      simp [State.goto]
    | obtain ⟨node,present,rfl⟩ := Option.map_eq_some_iff.mp accessed
      simp [State.goto]

theorem step_length {label : Label α} (taken : step moved s label = some t) :
    t.calls.length = s.calls.length + if label.starts then 1 else 0 := by
  cases label with
  | invoke operation =>
    cases taken
    simp [Label.starts]
  | access i =>
    obtain ⟨call,found,accessed⟩ := Option.bind_eq_some_iff.mp taken
    exact advance_length accessed
  | alloc i address | fail i =>
    simp only [step] at taken
    repeat' split at taken
    all_goals first
      | contradiction
      | cases taken
        simp [State.goto,Label.starts]

/-- Every address from some bound on is free, since each run has allocated only so
often; this is why `new Node` always has an address to return. -/
def Finite (s : State α) : Prop := ∃ bound, ∀ address, bound ≤ address → s.heap address = none

theorem Finite.write {heap : Nat → Option (Node α)}
    (finite : ∃ bound, ∀ address, bound ≤ address → heap address = none) (written : Nat) (node : Node α) :
    ∃ bound, ∀ address, bound ≤ address → Function.update heap written (some node) address = none := by
  obtain ⟨bound,free⟩ := finite
  refine ⟨max bound (written + 1),fun address beyond => ?_⟩
  rw [Function.update_of_ne (by omega)]
  exact free address (by omega)

theorem Finite.moves (finite : Finite s) (moves : Moves moved s t) : Finite t := by
  cases moves with
  | alloc | link | takeData => exact Finite.write finite _ _
  | _ => exact finite

theorem finite_run {labels : List (Label α)} (reached : run (step moved) init labels = some s) : Finite s :=
  run_invariant Finite (fun before label after finite taken => finite.moves (step_moves moved before after label taken))
    ⟨0,fun _ _ => rfl⟩ reached

theorem access_goes {heap : Nat → Option (Node α)} {events : List (Event Nat α)} {call : Call α}
    (same : s.heap = heap) (fact : Fact heap events i call) (running : call.point.finished = false)
    (begun : ∀ value, call ≠ ⟨.push value,.start⟩) : (advance moved s i call).isSome = true := by
  subst same
  obtain ⟨operation,point⟩ := call
  cases operation with
  | push value =>
    cases point with
    | start => exact absurd rfl (begun value)
    | loadHead newNode => rfl
    | linkNext newNode oldHead =>
      obtain ⟨_,next,present⟩ := fact
      simp [advance,present]
    | publish newNode oldHead =>
      simp only [advance]
      split <;> rfl
    | pushed => contradiction
    | _ => exact fact.elim
  | pop =>
    cases point with
    | start => rfl
    | readNext current =>
      obtain ⟨_,node,present⟩ := fact
      simp [advance,present]
    | unlink current next =>
      obtain ⟨_,value,present⟩ := fact
      simp only [advance,present]
      split <;> rfl
    | takeData current =>
      obtain ⟨value,next,present,_⟩ := fact
      simp [advance,present]
    | popped value | empty => contradiction
    | _ => exact fact.elim

/-- No call waits for another: each has a step of its own until it returns. -/
theorem Inv.goes_on (inv : Inv s) (finite : Finite s) {call : Call α} (found : s.calls[i]? = some call)
    (running : call.point.finished = false) :
    ∃ label, label.caller = some i ∧ label.slips = false ∧ (step moved s label).isSome = true := by
  by_cases begins : ∃ value, call = ⟨.push value,.start⟩
  · obtain ⟨value,rfl⟩ := begins
    obtain ⟨bound,free⟩ := finite
    refine ⟨.alloc i bound,rfl,rfl,?_⟩
    simp [step,found,free bound (Nat.le_refl _)]
  · have goes : (advance moved s i call).isSome = true :=
      access_goes rfl (inv.facts i call found) running (fun value same => begins ⟨value,same⟩)
    refine ⟨.access i,rfl,rfl,?_⟩
    simpa [step,found] using goes

/-- `LockFreeStack` is lock-free. In any stretch of a run in which at most `crowd`
calls are running at a time, the calls make no more than `2 * crowd + 5` steps for
each of them and two for each spurious failure; any longer stretch has brought
some call to its end; and no call that is running ever has to wait for another. -/
theorem stack_lock_free (crowd : Nat) {labels more : List (Label α)} (reached : run (step moved) init labels = some s)
    (onward : run (step moved) s more = some t) (few : Along (step moved) (fun u => u.running ≤ crowd) s more) :
    more.length ≤ (2 * crowd + 5) * (s.running + more.countP Label.starts) + 2 * more.countP Label.slips ∧
    ((2 * crowd + 5) * crowd + 2 * more.countP Label.slips < more.length → s.finished < t.finished) ∧
    ∀ (i : Nat) (call : Call α), t.calls[i]? = some call → call.point.finished = false →
      ∃ label, label.caller = some i ∧ label.slips = false ∧ (step moved t label).isSome = true := by
  have bounded := run_length (fun _ => True) (fun (u : State α) _ => u.running ≤ crowd) (State.owes crowd) Label.starts
    Label.slips (2 * crowd + 5) 2 (fun _ _ _ _ _ _ => trivial) (fun u label v _ fits taken => step_pays label fits taken)
    trivial (owed_le (Call.price crowd s.head) Call.running s.calls (price_le crowd s.head))
    (obeys_of_along (fun _ _ fits => fits) few) onward
  have grown := calls_grow State.calls Label.starts (fun u label v taken => step_length taken) onward
  have last := along_last few onward
  have whole := run_trans reached onward
  exact ⟨bounded,fun long => finishes grown bounded last long,
    fun i call found running => (inv_run whole).goes_on (finite_run whole) found running⟩

/-- A push whose first exchange fails because another push came first: twelve
steps, and a bound of eighteen for the two of them. -/
theorem stack_lock_free_two_pushes :
    ∃ t : State Nat, run (step id) init
      [.invoke (.push 7),.invoke (.push 8),.alloc 0 100,.alloc 1 200,.access 0,.access 1,.access 0,
        .access 1,.access 0,.access 1,.access 1,.access 1] = some t ∧ t.running = 0 ∧
      12 ≤ (2 * 2 + 5) * (0 + 2) + 2 * 0 := by
  obtain ⟨t,onward,rest⟩ := Option.map_eq_some_iff.mp (show (run (step id) (init : State Nat)
    [.invoke (.push 7),.invoke (.push 8),.alloc 0 100,.alloc 1 200,.access 0,.access 1,.access 0,
      .access 1,.access 0,.access 1,.access 1,.access 1]).map State.running = some 0 from rfl)
  have few : Along (step id) (fun u : State Nat => u.running ≤ 2) init _ :=
    along_of_obeys (by decide) onward (by simp [rest])
  exact ⟨t,onward,rest,(stack_lock_free 2 (show run (step id) (init : State Nat) [] = some init from rfl) onward few).1⟩

end Ezthread.LockFreeStack
