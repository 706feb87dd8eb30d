import Ezthread.Monitor

/-! `Barrier` of sync.cpp as a monitor. Generations and waiting calls are counted
in `size_t` of `w` bits. -/
namespace Ezthread.Barrier
open Transition Activation Monitor

/-- `completed` is no memory of the program: it counts the generations completed
without wrapping. -/
structure Fields where
  generation : Nat
  waiting : Nat
  completed : Nat

inductive Operation
  | wait
  | waitFor

structure Frame where
  currentGeneration : Nat
  arrived : Nat

structure Result where
  value : Bool
  arrived : Nat
  completed : Nat

abbrev Block := Monitor.Block Fields Frame Result
abbrev State := Monitor.State Operation Fields Frame Result
abbrev Call := Monitor.Call Operation Frame Result

def construct (count : Nat) : Except String Fields :=
  if count = 0 then .error "Barrier count must be greater than 0" else .ok ⟨0,0,0⟩

/-- `while (m_generation == currentGeneration)` around the sleep. -/
def whileSame (frame : Frame) (fields : Fields) : Block :=
  if fields.generation = frame.currentGeneration then ⟨fields,false,.sleep frame⟩
  else ⟨fields,false,.leave ⟨true,frame.arrived,fields.completed⟩⟩

/-- The part `Wait` and `WaitFor` share: the last to arrive opens the barrier. -/
def arrive (w count : Nat) (fields : Fields) : Block :=
  let waiting := (fields.waiting + 1) % 2 ^ w
  if waiting = count then
    ⟨⟨(fields.generation + 1) % 2 ^ w,0,fields.completed + 1⟩,true,
      .leave ⟨true,fields.completed,fields.completed + 1⟩⟩
  else whileSame ⟨fields.generation,fields.completed⟩ {fields with waiting := waiting}

/-- `m_cv.WaitFor` returned: a timeout takes the call out of the count. -/
def resumeWaitFor (w : Nat) (frame : Frame) (result : Bool) (fields : Fields) : Block :=
  if result then whileSame frame fields
  else ⟨{fields with waiting := (fields.waiting + (2 ^ w - 1)) % 2 ^ w},false,
    .leave ⟨false,frame.arrived,fields.completed⟩⟩

def program (w count : Nat) : Program Operation Fields Frame Result where
  enter _ fields := arrive w count fields
  resume
    | .wait,frame,_,fields => whileSame frame fields
    | .waitFor,frame,result,fields => resumeWaitFor w frame result fields
  timed
    | .wait => false
    | .waitFor => true

/-- Arrived in the generation now current, and not returned. -/
def pending (completed : Nat) (call : Call) : Bool :=
  match call.point with
  | .asleep frame _ | .woken frame _ => frame.arrived == completed
  | _ => false

/-- A call gave up only on a generation that had not completed. -/
def Honest (call : Call) : Prop :=
  ∀ result, call.point = .returned result → result.value = false → result.completed ≤ result.arrived

/-- The barrier's law: the count is that of the pending calls and below the
threshold. -/
def Sound (count : Nat) (s : State) : Prop :=
  s.data.waiting = s.calls.countP (pending s.data.completed) ∧ s.data.waiting < count ∧
    Every (fun _ call => Honest call) s.calls

/-- A call that timed out reacquires the lock while its generation is current. -/
def Timely (s : State) (label : Label Operation) : Prop :=
  ∀ (i : Nat) (frame : Frame), label = .resume i →
    s.calls[i]? = some ⟨.waitFor,.woken frame false⟩ → frame.arrived = s.data.completed

def Fact (w completed : Nat) (call : Call) : Prop :=
  match call.point with
  | .asleep frame _ => frame.arrived ≤ completed ∧ frame.currentGeneration = frame.arrived % 2 ^ w
  | .woken frame result => frame.arrived ≤ completed ∧ frame.currentGeneration = frame.arrived % 2 ^ w ∧
      (result = false → call.operation = .waitFor)
  | .announcing _ => False
  | .entering | .returned _ => True

structure Inv (w count : Nat) (s : State) : Prop where
  sound : Sound count s
  generation : s.data.generation = s.data.completed % 2 ^ w
  facts : Every (fun _ call => Fact w s.data.completed call) s.calls

theorem pending_deaf (completed : Nat) : Deaf (pending completed) := by
  intro given
  obtain ⟨operation,point⟩ := given
  cases point <;> rfl

theorem honest_deaf : Deaf Honest := by
  intro given
  obtain ⟨operation,point⟩ := given
  cases point <;> simp [Honest,Call.notify]

theorem fact_deaf (w completed : Nat) : Deaf (Fact w completed) := by
  intro given
  obtain ⟨operation,point⟩ := given
  cases point <;> rfl

theorem Fact.later {w completed : Nat} {call : Call} (fact : Fact w completed call) :
    Fact w (completed + 1) call := by
  obtain ⟨operation,point⟩ := call
  cases point with
  | asleep => exact ⟨Nat.le_succ_of_le fact.1,fact.2⟩
  | woken => exact ⟨Nat.le_succ_of_le fact.1,fact.2⟩
  | announcing => exact fact
  | entering | returned => trivial

theorem Fact.unborn {w completed : Nat} {call : Call} (fact : Fact w completed call) :
    pending (completed + 1) call = false := by
  obtain ⟨operation,point⟩ := call
  cases point with
  | asleep frame =>
    have arrived := fact.1
    simp only [pending,beq_eq_false_iff_ne,ne_eq]
    omega
  | woken frame =>
    have arrived := fact.1
    simp only [pending,beq_eq_false_iff_ne,ne_eq]
    omega
  | announcing | entering | returned => rfl

theorem arrive_spec {w count : Nat} {s : State} (inv : Inv w count s) (fits : count < 2 ^ w) :
    (s.data.waiting + 1 = count ∧ arrive w count s.data =
      ⟨⟨(s.data.generation + 1) % 2 ^ w,0,s.data.completed + 1⟩,true,
        .leave ⟨true,s.data.completed,s.data.completed + 1⟩⟩) ∨
    (s.data.waiting + 1 < count ∧ arrive w count s.data =
      ⟨{s.data with waiting := s.data.waiting + 1},false,.sleep ⟨s.data.generation,s.data.completed⟩⟩) := by
  have below := inv.sound.2.1
  have whole : (s.data.waiting + 1) % 2 ^ w = s.data.waiting + 1 := Nat.mod_eq_of_lt (by omega)
  unfold arrive
  simp only [whole]
  split
  next last => exact Or.inl ⟨last,rfl⟩
  next more => exact Or.inr ⟨by omega,by simp [whileSame]⟩

/-- A block that completes no generation keeps the law if the count follows the
call it moves. -/
theorem inv_perform {w count : Nat} {s : State} {i : Nat} {old : Call} {operation : Operation} {block : Block}
    (inv : Inv w count s) (found : s.calls[i]? = some old)
    (awake : ∀ frame notified, old.point ≠ .asleep frame notified)
    (completed : block.data.completed = s.data.completed) (generation : block.data.generation = s.data.generation)
    (counted : block.data.waiting + (if pending s.data.completed old then 1 else 0) =
      s.data.waiting + (if pending s.data.completed ⟨operation,block.exit.point⟩ then 1 else 0))
    (below : block.data.waiting < count) (honest : Honest ⟨operation,block.exit.point⟩)
    (fact : Fact w s.data.completed ⟨operation,block.exit.point⟩) : Inv w count (s.perform i operation block) where
  sound := by
    obtain ⟨waiting,_,truthful⟩ := inv.sound
    refine ⟨?_,below,every_perform honest_deaf truthful honest⟩
    have moved := count_perform (pending_deaf s.data.completed) operation block found awake
    change block.data.waiting = (s.perform i operation block).calls.countP (pending block.data.completed)
    rw [completed]
    omega
  generation := by
    change block.data.generation = block.data.completed % 2 ^ w
    rw [generation,completed]
    exact inv.generation
  facts := by
    change Every (fun _ call => Fact w block.data.completed call) _
    rw [completed]
    exact every_perform (fact_deaf w s.data.completed) inv.facts fact

theorem inv_arrive {w count : Nat} {s : State} {i : Nat} {operation : Operation} (fits : count < 2 ^ w)
    (inv : Inv w count s) (found : s.calls[i]? = some ⟨operation,.entering⟩) :
    Inv w count (s.perform i operation (arrive w count s.data)) := by
  rcases arrive_spec inv fits with ⟨last,shape⟩ | ⟨more,shape⟩
  · rw [shape]
    have unborn : Every (fun _ call => pending (s.data.completed + 1) call = false)
        (s.perform i operation ⟨⟨(s.data.generation + 1) % 2 ^ w,0,s.data.completed + 1⟩,true,
          .leave ⟨true,s.data.completed,s.data.completed + 1⟩⟩).calls :=
      every_perform (fun call => by rw [pending_deaf]) (inv.facts.imp fun _ _ _ fact => fact.unborn) rfl
    refine ⟨⟨?_,?_,every_perform honest_deaf inv.sound.2.2 ?_⟩,?_,?_⟩
    · exact (count_none unborn).symm
    · exact Nat.lt_of_le_of_lt (Nat.zero_le _) inv.sound.2.1
    · intro result returned refused
      cases returned
      contradiction
    · change (s.data.generation + 1) % 2 ^ w = (s.data.completed + 1) % 2 ^ w
      rw [inv.generation,Nat.mod_add_mod]
    · exact every_perform (fact_deaf w _) (inv.facts.imp fun _ _ _ fact => fact.later) trivial
  · rw [shape]
    refine inv_perform inv found (by simp) rfl rfl ?_ more ?_ ⟨Nat.le_refl _,inv.generation⟩
    · simp [pending,Exit.point]
    · intro result returned
      cases returned

theorem inv_whileSame {w count : Nat} {s : State} {i : Nat} {operation : Operation} {frame : Frame}
    {result : Bool} (inv : Inv w count s) (found : s.calls[i]? = some ⟨operation,.woken frame result⟩) :
    Inv w count (s.perform i operation (whileSame frame s.data)) := by
  have fact := inv.facts i _ found
  unfold whileSame
  split
  next same =>
    refine inv_perform inv found (by simp) rfl rfl ?_ inv.sound.2.1 ?_ ⟨fact.1,fact.2.1⟩
    · simp [pending,Exit.point]
    · intro result returned
      cases returned
  next passed =>
    refine inv_perform inv found (by simp) rfl rfl ?_ inv.sound.2.1 ?_ trivial
    · have left : frame.arrived ≠ s.data.completed := by
        intro equal
        rw [inv.generation,fact.2.1,equal] at passed
        exact passed rfl
      simp [pending,Exit.point,left]
    · intro result returned refused
      cases returned
      contradiction

theorem inv_giveUp {w count : Nat} {s : State} {i : Nat} {frame : Frame} (fits : count < 2 ^ w)
    (inv : Inv w count s) (found : s.calls[i]? = some ⟨.waitFor,.woken frame false⟩)
    (timely : frame.arrived = s.data.completed) :
    Inv w count (s.perform i .waitFor (resumeWaitFor w frame false s.data)) := by
  obtain ⟨waiting,below,_⟩ := inv.sound
  have own : pending s.data.completed ⟨.waitFor,.woken frame false⟩ = true := by simp [pending,timely]
  have some : 0 < s.data.waiting := waiting ▸ count_pos _ found own
  have down : (s.data.waiting + (2 ^ w - 1)) % 2 ^ w = s.data.waiting - 1 := by
    rw [show s.data.waiting + (2 ^ w - 1) = s.data.waiting - 1 + 2 ^ w by omega,Nat.add_mod_right,
      Nat.mod_eq_of_lt (by omega)]
  simp only [resumeWaitFor,Bool.false_eq_true,if_false,down]
  refine inv_perform inv found (by simp) rfl rfl ?_ ?_ ?_ trivial
  · rw [own]
    simp only [pending,Exit.point]
    change s.data.waiting - 1 + 1 = s.data.waiting + 0
    omega
  · change s.data.waiting - 1 < count
    omega
  · intro result returned _
    cases returned
    exact Nat.le_of_eq timely.symm

theorem inv_wake {w count : Nat} {s : State} {i : Nat} {operation : Operation} {frame : Frame}
    {notified result : Bool} (inv : Inv w count s) (found : s.calls[i]? = some ⟨operation,.asleep frame notified⟩)
    (only : result = false → operation = .waitFor) :
    Inv w count (s.goto i ⟨operation,.woken frame result⟩) := by
  obtain ⟨waiting,below,honest⟩ := inv.sound
  have fact := inv.facts i _ found
  refine ⟨⟨?_,below,honest.set ?_⟩,inv.generation,inv.facts.set ⟨fact.1,fact.2,only⟩⟩
  · have moved := count_set (pending s.data.completed) ⟨operation,.woken frame result⟩ found
    exact waiting.trans (Nat.add_right_cancel moved).symm
  · intro result returned
    cases returned

theorem inv_init {w count : Nat} {fields : Fields} (built : construct count = .ok fields) :
    Inv w count (init fields) := by
  unfold construct at built
  split at built
  next => contradiction
  next positive =>
    cases built
    exact ⟨⟨rfl,Nat.pos_of_ne_zero positive,Every.nil _⟩,(Nat.zero_mod _).symm,Every.nil _⟩

theorem inv_step {w count : Nat} (fits : count < 2 ^ w) (s : State) (label : Label Operation) (t : State)
    (inv : Inv w count s) (timely : Timely s label) (taken : step (program w count) s label = some t) :
    Inv w count t := by
  cases step_moves (program w count) s t label taken with
  | invoke operation =>
    obtain ⟨waiting,below,honest⟩ := inv.sound
    refine ⟨⟨?_,below,honest.append ?_⟩,inv.generation,inv.facts.append trivial⟩
    · simpa [pending] using waiting
    · intro result returned
      cases returned
  | enter i operation found => exact inv_arrive fits inv found
  | wake i operation frame notified found => exact inv_wake inv found nofun
  | timeout i operation frame notified found timed =>
    apply inv_wake inv found
    intro _
    cases operation with
    | wait => contradiction
    | waitFor => rfl
  | resume i operation frame result found =>
    cases operation with
    | wait => exact inv_whileSame inv found
    | waitFor =>
      cases result with
      | true => exact inv_whileSame inv found
      | false => exact inv_giveUp fits inv found (timely i frame rfl found)
  | announce i operation result found => exact (inv.facts i _ found).elim

/-- A call that gives up late counts itself out of a generation it is not in, and
reports a completed generation as one that had not completed. -/
theorem breach {w count : Nat} (s : State) (label : Label Operation) (t : State)
    (inv : Inv w count s) (late : ¬ Timely s label) (taken : step (program w count) s label = some t) :
    ¬ Sound count t := by
  unfold Timely at late
  push Not at late
  obtain ⟨i,frame,rfl,found,missed⟩ := late
  simp only [step,found,Option.some.injEq] at taken
  subst taken
  intro given
  obtain ⟨_,_,honest⟩ := given
  have before : frame.arrived ≤ s.data.completed := (inv.facts i _ found).1
  have after : s.data.completed ≤ frame.arrived := honest i _ (get_self found) _ rfl rfl
  exact missed (Nat.le_antisymm before after)

/-- The barrier's law holds all along a run if and only if no call of it gave up
late. -/
theorem sound_iff_timely {w count : Nat} {fields : Fields} {labels : List (Label Operation)} {s : State}
    (built : construct count = .ok fields) (fits : count < 2 ^ w)
    (reached : run (step (program w count)) (init fields) labels = some s) :
    Along (step (program w count)) (Sound count) (init fields) labels ↔
      Obeys (step (program w count)) Timely (init fields) labels :=
  along_iff_obeys (inv_step fits) (fun _ inv => inv.sound) breach (inv_init built) reached

/-- Of two calls the first times out, and the second completes the generation
before the first has the lock back. -/
theorem sound_iff_timely_late :
    ∃ s, run (step (program 64 2)) (init ⟨0,0,0⟩)
      [.invoke .waitFor,.invoke .wait,.enter 0,.timeout 0,.enter 1,.resume 0] = some s ∧
      (Along (step (program 64 2)) (Sound 2) (init ⟨0,0,0⟩)
          [.invoke .waitFor,.invoke .wait,.enter 0,.timeout 0,.enter 1,.resume 0] ↔
        Obeys (step (program 64 2)) Timely (init ⟨0,0,0⟩)
          [.invoke .waitFor,.invoke .wait,.enter 0,.timeout 0,.enter 1,.resume 0]) := by
  obtain ⟨s,reached,_⟩ := Option.map_eq_some_iff.mp (show (run (step (program 64 2)) (init ⟨0,0,0⟩)
    [.invoke .waitFor,.invoke .wait,.enter 0,.timeout 0,.enter 1,.resume 0]).map
      (fun s => s.data.completed) = some 1 from rfl)
  exact ⟨s,reached,sound_iff_timely rfl (by decide) reached⟩

/-- The count of waiting calls then falls below zero, and the call reports false
for a generation that had completed. -/
theorem gives_up_late :
    ∃ s, run (step (program 64 2)) (init ⟨0,0,0⟩)
      [.invoke .waitFor,.invoke .wait,.enter 0,.timeout 0,.enter 1,.resume 0] = some s ∧
      s.data.waiting = 2 ^ 64 - 1 ∧ s.calls[0]? = some ⟨.waitFor,.returned ⟨false,0,1⟩⟩ ∧ ¬ Sound 2 s := by
  refine ⟨_,rfl,rfl,rfl,?_⟩
  intro given
  obtain ⟨_,below,_⟩ := given
  exact absurd below (by decide)

end Ezthread.Barrier
