import Ezthread.Monitor

/-! `Latch` of sync.cpp as a monitor. `size_t` has `w` bits. -/
namespace Ezthread.Latch
open Transition Activation Monitor

variable {w : Nat}

structure Fields (w : Nat) where
  count : BitVec w

inductive Operation (w : Nat)
  | countDown (count : BitVec w)
  | wait
  | waitFor
  | isReady

inductive Result
  | done
  | answered (value : Bool)

abbrev Block (w : Nat) := Monitor.Block (Fields w) Unit Result
abbrev State (w : Nat) := Monitor.State (Operation w) (Fields w) Unit Result
abbrev Call (w : Nat) := Monitor.Call (Operation w) Unit Result

def countDown (count : BitVec w) (fields : Fields w) : Block w :=
  let left := if count > fields.count then 0 else fields.count - count
  ⟨⟨left⟩,left == 0,.leave .done⟩

/-- `while (m_count > 0)` around the sleep. -/
def whilePositive (result : Result) (fields : Fields w) : Block w :=
  if fields.count > 0 then ⟨fields,false,.sleep ()⟩ else ⟨fields,false,.leave result⟩

def resumeWaitFor (result : Bool) (fields : Fields w) : Block w :=
  if result then whilePositive (.answered true) fields else ⟨fields,false,.leave (.answered false)⟩

def program (w : Nat) : Program (Operation w) (Fields w) Unit Result where
  enter
    | .countDown count,fields => countDown count fields
    | .wait,fields => whilePositive .done fields
    | .waitFor,fields => whilePositive (.answered true) fields
    | .isReady,fields => ⟨fields,false,.leave (.answered (fields.count == 0))⟩
  resume
    | .waitFor,_,result,fields => resumeWaitFor result fields
    | _,_,_,fields => whilePositive .done fields
  timed
    | .waitFor => true
    | _ => false

/-- What a call of `CountDown` has counted down. -/
def counted (call : Call w) : Nat :=
  match call with
  | ⟨.countDown count,.returned _⟩ => count.toNat
  | _ => 0

def total (s : State w) : Nat := (s.calls.map counted).sum

theorem counted_deaf : Deaf (counted : Call w → Nat) := by
  intro given
  obtain ⟨operation,point⟩ := given
  cases operation <;> cases point <;> rfl

/-- A call that has seen the latch open. -/
def Passed (call : Call w) : Prop :=
  (call.operation = .wait ∧ ∃ result, call.point = .returned result) ∨
    (call.operation = .waitFor ∧ call.point = .returned (.answered true))

theorem passed_deaf : Deaf (Passed : Call w → Prop) := by
  intro given
  obtain ⟨operation,point⟩ := given
  cases point <;> simp [Passed,Call.notify]

/-- Only `Wait` and `WaitFor` sleep. -/
def Sleeper (call : Call w) : Prop :=
  match call.point with
  | .asleep _ _ | .woken _ _ => ∀ count, call.operation ≠ .countDown count
  | .announcing _ => False
  | _ => True

theorem sleeper_deaf : Deaf (Sleeper : Call w → Prop) := by
  intro given
  obtain ⟨operation,point⟩ := given
  cases point <;> rfl

theorem counted_open {operation : Operation w} {point : Point Unit Result} (unreturned : ∀ result, point ≠ .returned result) :
    counted ⟨operation,point⟩ = 0 := by
  cases operation <;> cases point <;> first | rfl | exact absurd rfl (unreturned _)

structure Inv (initial : BitVec w) (s : State w) : Prop where
  count : s.data.count.toNat = initial.toNat - total s
  passed : Every (fun _ call => Passed call → initial.toNat ≤ total s) s.calls
  notified : s.data.count = 0 → Every (fun _ call => ¬ Unnotified call) s.calls
  sleepers : Every (fun _ call => Sleeper call) s.calls

/-- The subtraction of `CountDown` is that of numbers, truncated at zero. -/
theorem countDown_toNat (count : BitVec w) (fields : Fields w) :
    (countDown count fields).data.count.toNat = fields.count.toNat - count.toNat := by
  unfold countDown
  by_cases more : count > fields.count
  · have above : fields.count.toNat < count.toNat := BitVec.lt_def.mp more
    simp only [if_pos more]
    exact (Nat.sub_eq_zero_of_le (Nat.le_of_lt above)).symm
  · have below : count ≤ fields.count := BitVec.not_lt.mp more
    simp only [if_neg more]
    exact BitVec.toNat_sub_of_le below

/-- All a block can do: count down, sleep before a closed latch, or leave. -/
inductive Acts (fields : Fields w) (operation : Operation w) : Block w → Prop
  | countDown (count) (own : operation = .countDown count) : Acts fields operation (countDown count fields)
  | sleep (closed : fields.count ≠ 0) (own : ∀ count, operation ≠ .countDown count) :
      Acts fields operation ⟨fields,false,.sleep ()⟩
  | leave (result) (own : ∀ count, operation ≠ .countDown count)
      (passed : Passed ⟨operation,.returned result⟩ → fields.count = 0) : Acts fields operation ⟨fields,false,.leave result⟩

theorem whilePositive_acts {fields : Fields w} {operation : Operation w} {result : Result}
    (own : ∀ count, operation ≠ .countDown count) : Acts fields operation (whilePositive result fields) := by
  unfold whilePositive
  split
  next closed => exact .sleep ((BitVec.pos_iff_ne_zero _).mp closed) own
  next opened => exact .leave result own fun _ => Classical.not_not.mp (mt (BitVec.pos_iff_ne_zero _).mpr opened)

theorem enter_acts (fields : Fields w) (operation : Operation w) :
    Acts fields operation ((program w).enter operation fields) := by
  cases operation with
  | countDown count => exact .countDown count rfl
  | wait | waitFor => exact whilePositive_acts (by simp)
  | isReady => exact .leave _ (by simp) (by simp [Passed])

theorem resume_acts (fields : Fields w) {operation : Operation w} (own : ∀ count, operation ≠ .countDown count)
    (result : Bool) : Acts fields operation ((program w).resume operation () result fields) := by
  cases operation with
  | countDown count => exact absurd rfl (own count)
  | wait | isReady => exact whilePositive_acts (by simp)
  | waitFor =>
    cases result with
    | true => exact whilePositive_acts (by simp)
    | false => exact .leave _ (by simp) (by simp [Passed])

def Reported (initial : BitVec w) (total : Nat) (call : Call w) : Prop := Passed call → initial.toNat ≤ total

theorem reported_deaf (initial : BitVec w) (total : Nat) : Deaf (Reported initial total) := by
  intro call
  unfold Reported
  rw [passed_deaf call]

/-- A block takes what it counts down from the count, and lets a call pass on zero
only. -/
theorem inv_perform {initial : BitVec w} {s : State w} {i : Nat} {old : Call w} {operation : Operation w} {block : Block w}
    (inv : Inv initial s) (found : s.calls[i]? = some old)
    (awake : ∀ frame notified, old.point ≠ .asleep frame notified) (uncounted : counted old = 0)
    (acts : Acts s.data operation block) :
    Inv initial (s.perform i operation block) ∧ total s ≤ total (s.perform i operation block) := by
  have grown := sum_perform counted_deaf operation block found awake
  rw [uncounted,Nat.add_zero] at grown
  change total (s.perform i operation block) = total s + counted ⟨operation,block.exit.point⟩ at grown
  refine ⟨?_,by omega⟩
  have count := inv.count
  have opened : s.data.count = 0 → initial.toNat ≤ total s := by
    intro zero
    have none : s.data.count.toNat = 0 := by simp [zero]
    omega
  have reported (holds : Passed ⟨operation,block.exit.point⟩ → s.data.count = 0) :
      Every (fun _ call => Reported initial (total (s.perform i operation block)) call) (s.perform i operation block).calls := by
    refine every_perform (reported_deaf initial _) (inv.passed.imp fun _ _ _ known passed => ?_) fun passed => ?_
    · exact Nat.le_trans (known passed) (by omega)
    · exact Nat.le_trans (opened (holds passed)) (by omega)
  cases acts with
  | countDown count own =>
    subst own
    refine ⟨?_,reported (by simp [Passed]),fun zero => ?_,every_perform sleeper_deaf inv.sleepers trivial⟩
    · have left := countDown_toNat count s.data
      change (countDown count s.data).data.count.toNat = initial.toNat - total (s.perform i _ _)
      rw [grown]
      change (countDown count s.data).data.count.toNat = initial.toNat - (total s + count.toNat)
      omega
    · have notifies : (countDown count s.data).notifyAll = true := beq_iff_eq.mpr zero
      unfold State.perform
      rw [notifies]
      exact (notified_all s.calls).set (by simp [Unnotified,countDown,Exit.point])
  | sleep closed own =>
    refine ⟨?_,reported (by simp [Passed,Exit.point]),fun zero => absurd zero closed,
      every_perform sleeper_deaf inv.sleepers own⟩
    rw [grown,counted_open (by simp [Exit.point])]
    exact count
  | leave result own passes =>
    refine ⟨?_,reported passes,fun zero => (inv.notified zero).set (by simp [Unnotified,Exit.point]),
      every_perform sleeper_deaf inv.sleepers trivial⟩
    have none : counted ⟨operation,.returned result⟩ = 0 := by
      cases operation with
      | countDown count => exact absurd rfl (own count)
      | wait | waitFor | isReady => rfl
    rw [grown]
    change s.data.count.toNat = initial.toNat - (total s + counted ⟨operation,.returned result⟩)
    rw [none]
    exact count

theorem inv_wake {initial : BitVec w} {s : State w} {i : Nat} {operation : Operation w} {frame : Unit}
    {notified : Bool} (inv : Inv initial s) (found : s.calls[i]? = some ⟨operation,.asleep frame notified⟩) (result : Bool) :
    Inv initial (s.goto i ⟨operation,.woken frame result⟩) ∧ total s ≤ total (s.goto i ⟨operation,.woken frame result⟩) := by
  have summed := sum_set counted ⟨operation,.woken frame result⟩ found
  rw [counted_open (by simp),counted_open (by simp)] at summed
  have same : total (s.goto i ⟨operation,.woken frame result⟩) = total s := summed
  have sleeps : Sleeper ⟨operation,.asleep frame notified⟩ := inv.sleepers i _ found
  refine ⟨⟨?_,?_,fun zero => (inv.notified zero).set (by simp [Unnotified]),inv.sleepers.set sleeps⟩,
    Nat.le_of_eq same.symm⟩
  · rw [same]
    exact inv.count
  · rw [same]
    exact inv.passed.set (by simp [Passed])

theorem inv_init (initial : BitVec w) : Inv initial (init ⟨initial⟩) :=
  ⟨rfl,Every.nil _,fun _ => Every.nil _,Every.nil _⟩

theorem inv_step {initial : BitVec w} (s : State w) (label : Label (Operation w)) (t : State w) (inv : Inv initial s)
    (taken : step (program w) s label = some t) : Inv initial t ∧ total s ≤ total t := by
  cases step_moves (program w) s t label taken with
  | invoke operation =>
    have same : total {s with calls := s.calls ++ [⟨operation,.entering⟩]} = total s := by
      simp [total,counted_open]
    refine ⟨⟨?_,?_,fun zero => (inv.notified zero).append (by simp [Unnotified]),inv.sleepers.append trivial⟩,
      Nat.le_of_eq same.symm⟩
    · rw [same]
      exact inv.count
    · rw [same]
      exact inv.passed.append (by simp [Passed])
  | enter i operation found =>
    exact inv_perform inv found (by simp) (counted_open (by simp)) (enter_acts s.data operation)
  | wake i operation frame notified found => exact inv_wake inv found true
  | timeout i operation frame notified found timed => exact inv_wake inv found false
  | resume i operation frame result found =>
    exact inv_perform inv found (by simp) (counted_open (by simp)) (resume_acts s.data (inv.sleepers i _ found) result)
  | announce i operation result found => exact (inv.sleepers i _ found).elim

/-- The count is what the calls of `CountDown` have left of the initial one, never
below zero and never growing; `Wait` and `WaitFor` pass once they have left nothing,
and then no call sleeps that was not notified. -/
theorem latch_counts {initial : BitVec w} {labels : List (Label (Operation w))} {s : State w}
    (reached : run (step (program w)) (init ⟨initial⟩) labels = some s) :
    s.data.count.toNat = initial.toNat - total s ∧
    (∀ (label : Label (Operation w)) (t : State w), step (program w) s label = some t →
      t.data.count.toNat ≤ s.data.count.toNat ∧ total s ≤ total t) ∧
    (∀ (j : Nat) (result : Result), s.calls[j]? = some ⟨.wait,.returned result⟩ → initial.toNat ≤ total s) ∧
    (∀ j : Nat, s.calls[j]? = some ⟨.waitFor,.returned (.answered true)⟩ → initial.toNat ≤ total s) ∧
    (s.data.count = 0 → ∀ (j : Nat) (operation : Operation w) (notified : Bool),
      s.calls[j]? = some ⟨operation,.asleep () notified⟩ → notified = true) := by
  have inv := run_invariant (Inv initial) (fun s label t inv taken => (inv_step s label t inv taken).1) (inv_init initial) reached
  refine ⟨inv.count,fun label t taken => ?_,fun j result found => ?_,fun j found => ?_,fun zero j operation notified found => ?_⟩
  · obtain ⟨after,grows⟩ := inv_step s label t inv taken
    have before := inv.count
    have later := after.count
    omega
  · exact inv.passed j _ found (Or.inl ⟨rfl,result,rfl⟩)
  · exact inv.passed j _ found (Or.inr ⟨rfl,rfl⟩)
  · cases notified with
    | true => rfl
    | false => exact absurd ⟨(),rfl⟩ (inv.notified zero j _ found)

/-- A `CountDown` of more than is left wakes the `Wait` that came before it. -/
theorem latch_counts_past_zero :
    ∃ s : State 64, run (step (program 64)) (init ⟨3⟩)
      [.invoke .wait,.enter 0,.invoke (.countDown 2),.enter 1,.invoke (.countDown 5),.enter 2,.wake 0,.resume 0] = some s ∧
      s.calls[0]? = some ⟨.wait,.returned .done⟩ ∧ s.data.count.toNat = 3 - total s ∧ 3 ≤ total s := by
  obtain ⟨s,reached,returned⟩ : ∃ s : State 64, run (step (program 64)) (init ⟨3⟩)
      [.invoke .wait,.enter 0,.invoke (.countDown 2),.enter 1,.invoke (.countDown 5),.enter 2,.wake 0,.resume 0] = some s ∧
      s.calls[0]? = some ⟨.wait,.returned .done⟩ := ⟨_,rfl,rfl⟩
  obtain ⟨count,_,passed,_⟩ := latch_counts reached
  exact ⟨s,reached,returned,count,passed 0 .done returned⟩

end Ezthread.Latch
