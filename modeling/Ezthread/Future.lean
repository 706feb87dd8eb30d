import Ezthread.Monitor

/-! `Promise` and `Future` of future.cpp over one shared state, as a monitor. The
void specializations have no value, which is `Unit` for `T`. -/
namespace Ezthread.Future
open Transition Activation Monitor

variable {α ε : Type*}

/-- `exception` holds a `std::exception_ptr`, the default one being null. -/
structure SharedState (α ε : Type*) where
  ready : Bool
  hasException : Bool
  value : α
  exception : ε

def SharedState.new [Inhabited α] [Inhabited ε] : SharedState α ε := ⟨false,false,default,default⟩

/-- `m_state->value = value`: a throwing assignment may have changed the target. -/
inductive Assignment (α ε : Type*)
  | stores (value : α)
  | throws (left : α) (ex : ε)

inductive Failure (ε : Type*)
  | threadException (text : String)
  | raised (ex : ε)

inductive Method (α ε : Type*)
  | setValue (assignment : Assignment α ε)
  | setException (ex : ε)
  | get
  | tryGet
  | isReady
  | wait
  | waitFor

/-- A call on an object that has its `m_state` or, as after a move, has none. -/
structure Operation (α ε : Type*) where
  hasState : Bool
  method : Method α ε

inductive Result (α ε : Type*)
  | done
  | got (value : α)
  | tried (result : Option α)
  | answered (value : Bool)
  | threw (failure : Failure ε)

inductive Sleep
  | get
  | tryGet
  | wait
  | waitFor

abbrev Block (α ε : Type*) := Monitor.Block (SharedState α ε) Sleep (Result α ε)
abbrev State (α ε : Type*) := Monitor.State (Operation α ε) (SharedState α ε) Sleep (Result α ε)
abbrev Call (α ε : Type*) := Monitor.Call (Operation α ε) Sleep (Result α ε)

/-- The locked block of `SetValue`, with its normal or exceptional end. -/
def setValue (assignment : Assignment α ε) (state : SharedState α ε) :
    SharedState α ε × Except (Failure ε) Unit :=
  if state.ready then (state,.error (.threadException "Promise already satisfied"))
  else match assignment with
    | .stores value => ({state with value := value, ready := true},.ok ())
    | .throws left ex => ({state with value := left},.error (.raised ex))

def setException (ex : ε) (state : SharedState α ε) : SharedState α ε × Except (Failure ε) Unit :=
  if state.ready then (state,.error (.threadException "Promise already satisfied"))
  else ({state with exception := ex, hasException := true, ready := true},.ok ())

/-- A setter notifies after its block, if it got that far. -/
def finish : SharedState α ε × Except (Failure ε) Unit → Block α ε
  | (state,.ok _) => ⟨state,false,.announce .done⟩
  | (state,.error failure) => ⟨state,false,.leave (.threw failure)⟩

def getResult (state : SharedState α ε) : Result α ε :=
  if state.hasException then .threw (.raised state.exception) else .got state.value

def tryGetResult (state : SharedState α ε) : Result α ε :=
  if state.hasException then .threw (.raised state.exception) else .tried (some state.value)

def unlessReady (state : SharedState α ε) (sleep : Sleep) (result : Result α ε) : Block α ε :=
  if state.ready then ⟨state,false,.leave result⟩ else ⟨state,false,.sleep sleep⟩

def enter (state : SharedState α ε) : Method α ε → Block α ε
  | .setValue assignment => finish (setValue assignment state)
  | .setException ex => finish (setException ex state)
  | .get => unlessReady state .get (getResult state)
  | .tryGet => unlessReady state .tryGet (tryGetResult state)
  | .isReady => ⟨state,false,.leave (.answered state.ready)⟩
  | .wait => unlessReady state .wait .done
  | .waitFor => unlessReady state .waitFor (.answered true)

/-- `Get` and `Wait` sleep in a loop, `TryGet` and `WaitFor` under an `if`. -/
def resume (result : Bool) (state : SharedState α ε) : Sleep → Block α ε
  | .get => unlessReady state .get (getResult state)
  | .tryGet => ⟨state,false,.leave (if result then tryGetResult state else .tried none)⟩
  | .wait => unlessReady state .wait .done
  | .waitFor => ⟨state,false,.leave (.answered result)⟩

def stateless : Method α ε → Result α ε
  | .setValue _ | .setException _ => .threw (.threadException "Promise has no state")
  | .isReady => .answered false
  | .get | .tryGet | .wait | .waitFor => .threw (.threadException "Future has no state")

def program : Program (Operation α ε) (SharedState α ε) Sleep (Result α ε) where
  enter operation state :=
    if operation.hasState then enter state operation.method
    else ⟨state,false,.leave (stateless operation.method)⟩
  resume _ sleep result state := resume result state sleep
  timed operation :=
    match operation.method with
    | .tryGet | .waitFor => true
    | _ => false

def SharedState.outcome (state : SharedState α ε) : Except ε α :=
  if state.hasException then .error state.exception else .ok state.value

def Method.outcome : Method α ε → Option (Except ε α)
  | .setValue (.stores value) => some (.ok value)
  | .setException ex => some (.error ex)
  | _ => none

def Method.setter : Method α ε → Bool
  | .setValue _ | .setException _ => true
  | _ => false

def Method.sleep : Method α ε → Option Sleep
  | .get => some .get
  | .tryGet => some .tryGet
  | .wait => some .wait
  | .waitFor => some .waitFor
  | .setValue _ | .setException _ | .isReady => none

/-- The outcome set by a setter that has left its block normally. -/
def settles (call : Call α ε) : Option (Except ε α) :=
  match call.point with
  | .announcing _ | .returned .done => call.operation.method.outcome
  | _ => none

def announces (call : Call α ε) : Option Unit :=
  match call.point with
  | .announcing _ => some ()
  | _ => none

def deliver : Except ε α → Result α ε
  | .ok value => .got value
  | .error ex => .threw (.raised ex)

theorem getResult_eq (state : SharedState α ε) : getResult state = deliver state.outcome := by
  unfold getResult SharedState.outcome
  split <;> rfl

/-- All a block can do: satisfy the promise, fall asleep on an unsatisfied one, or
end with the flags as they were. -/
inductive Acts (state : SharedState α ε) (operation : Operation α ε) : Block α ε → Prop
  | settle (after outcome) (unset : state.ready = false) (set : after.ready = true)
      (own : operation.method.outcome = some outcome) (holds : after.outcome = outcome) :
      Acts state operation ⟨after,false,.announce .done⟩
  | sleep (sleep) (unset : state.ready = false) (own : operation.method.sleep = some sleep) :
      Acts state operation ⟨state,false,.sleep sleep⟩
  | leave (after result) (frozen : state.ready = true → after = state) (ready : after.ready = state.ready)
      (hasException : after.hasException = state.hasException)
      (failed : operation.method.setter = true → result ≠ .done)
      (answer : operation = ⟨true,.get⟩ → state.ready = true ∧ result = deliver state.outcome) :
      Acts state operation ⟨after,false,.leave result⟩

theorem Acts.quiet {state : SharedState α ε} {operation : Operation α ε} {block : Block α ε}
    (acts : Acts state operation block) : block.notifyAll = false := by
  cases acts <;> rfl

theorem Acts.frozen {state : SharedState α ε} {operation : Operation α ε} {block : Block α ε}
    (acts : Acts state operation block) (ready : state.ready = true) : block.data = state := by
  cases acts with
  | settle after outcome unset => exact absurd (ready.symm.trans unset) (by decide)
  | sleep => rfl
  | leave after result frozen => exact frozen ready

theorem sleeper_failed {method : Method α ε} {sleep : Sleep} {result : Result α ε}
    (own : method.sleep = some sleep) (setter : method.setter = true) : result ≠ .done := by
  cases method <;> contradiction

theorem unlessReady_acts {state : SharedState α ε} {operation : Operation α ε} {sleep : Sleep}
    {result : Result α ε} (own : operation.method.sleep = some sleep)
    (answer : operation = ⟨true,.get⟩ → state.ready = true → result = deliver state.outcome) :
    Acts state operation (unlessReady state sleep result) := by
  unfold unlessReady
  split
  next ready => exact .leave _ _ (fun _ => rfl) rfl rfl (sleeper_failed own) fun get => ⟨ready,answer get ready⟩
  next unset => exact .sleep sleep (by simpa using unset) own

theorem leave_acts {state : SharedState α ε} {operation : Operation α ε} {result : Result α ε}
    (failed : operation.method.setter = true → result ≠ .done) (other : operation ≠ ⟨true,.get⟩) :
    Acts state operation ⟨state,false,.leave result⟩ :=
  .leave _ _ (fun _ => rfl) rfl rfl failed fun get => absurd get other

theorem stateless_acts (state : SharedState α ε) (method : Method α ε) :
    Acts state ⟨false,method⟩ ⟨state,false,.leave (stateless method)⟩ := by
  refine leave_acts ?_ (by simp)
  cases method <;> simp [stateless]

theorem enter_acts {state : SharedState α ε} (fresh : state.ready = false → state.hasException = false)
    (operation : Operation α ε) : Acts state operation (program.enter operation state) := by
  obtain ⟨hasState,method⟩ := operation
  cases hasState with
  | false => exact stateless_acts state method
  | true =>
    cases method with
    | setValue assignment =>
      simp only [program,if_true,enter,setValue]
      split
      next ready => exact leave_acts (by simp [Method.setter]) (by simp)
      next unset =>
        have unsatisfied : state.ready = false := by simpa using unset
        cases assignment with
        | stores value => exact .settle _ (.ok value) unsatisfied rfl rfl (by simp [SharedState.outcome,fresh unsatisfied])
        | throws left ex =>
          exact .leave _ _ (fun ready => absurd ready unset) rfl rfl (by simp) (by simp)
    | setException ex =>
      simp only [program,if_true,enter,setException]
      split
      next ready => exact leave_acts (by simp [Method.setter]) (by simp)
      next unset => exact .settle _ (.error ex) (by simpa using unset) rfl rfl rfl
    | get => exact unlessReady_acts rfl fun _ _ => getResult_eq state
    | tryGet => exact unlessReady_acts rfl (by simp)
    | isReady => exact leave_acts (by simp [Method.setter]) (by simp)
    | wait => exact unlessReady_acts rfl (by simp)
    | waitFor => exact unlessReady_acts rfl (by simp)

theorem resume_acts {state : SharedState α ε} {operation : Operation α ε} {sleep : Sleep}
    (own : operation.method.sleep = some sleep) (result : Bool) :
    Acts state operation (program.resume operation sleep result state) := by
  obtain ⟨hasState,method⟩ := operation
  cases method with
  | setValue | setException | isReady => contradiction
  | get =>
    cases own
    exact unlessReady_acts rfl fun _ _ => getResult_eq state
  | tryGet =>
    cases own
    exact leave_acts (by simp [Method.setter]) (by simp)
  | wait =>
    cases own
    exact unlessReady_acts rfl (by simp)
  | waitFor =>
    cases own
    exact leave_acts (by simp [Method.setter]) (by simp)

/-- What a call knows of the state, which a satisfied state keeps true. -/
def Fact (state : SharedState α ε) (call : Call α ε) : Prop :=
  match call.point with
  | .entering => True
  | .asleep sleep _ | .woken sleep _ => call.operation.method.sleep = some sleep
  | .announcing result =>
      result = .done ∧ state.ready = true ∧ call.operation.method.outcome = some state.outcome
  | .returned result =>
      (call.operation.method.setter = true → result = .done →
        state.ready = true ∧ call.operation.method.outcome = some state.outcome) ∧
      (call.operation = ⟨true,.get⟩ → state.ready = true ∧ result = deliver state.outcome)

def Drowsy (call : Call α ε) : Prop := ∃ sleep, call.point = .asleep sleep false

structure Inv (s : State α ε) : Prop where
  fresh : s.data.ready = false → s.data.hasException = false
  single : Exclusive (fun call => (settles call).map fun _ => ()) s.calls
  settled : s.data.ready = true → Held settles s.calls s.data.outcome
  facts : Every (fun _ call => Fact s.data call) s.calls
  wakeful : s.data.ready = true → Held announces s.calls () ∨ Every (fun _ call => ¬ Drowsy call) s.calls

theorem fact_deaf (state : SharedState α ε) : Deaf (Fact state) := by
  intro given
  obtain ⟨operation,point⟩ := given
  cases point <;> rfl

theorem settles_deaf : Deaf (settles : Call α ε → Option (Except ε α)) := by
  intro given
  obtain ⟨operation,point⟩ := given
  cases point <;> rfl

theorem notify_rested (call : Call α ε) : ¬ Drowsy call.notify := by
  obtain ⟨operation,point⟩ := call
  cases point <;> simp [Drowsy,Call.notify]

theorem Fact.later {before after : SharedState α ε} {call : Call α ε}
    (frozen : before.ready = true → after = before) (fact : Fact before call) : Fact after call := by
  obtain ⟨operation,point⟩ := call
  cases point with
  | entering => trivial
  | asleep | woken => exact fact
  | announcing result =>
    rw [frozen fact.2.1]
    exact fact
  | returned result =>
    refine ⟨fun setter normal => ?_,fun get => ?_⟩
    · have known := fact.1 setter normal
      rw [frozen known.1]
      exact known
    · have known := fact.2 get
      rw [frozen known.1]
      exact known

theorem Acts.fact {state : SharedState α ε} {operation : Operation α ε} {block : Block α ε}
    (acts : Acts state operation block) : Fact block.data ⟨operation,block.exit.point⟩ := by
  cases acts with
  | settle after outcome unset set own holds => exact ⟨rfl,set,own.trans (congrArg some holds.symm)⟩
  | sleep sleep unset own => exact own
  | leave after result frozen ready hasException failed answer =>
    refine ⟨fun setter normal => absurd normal (failed setter),fun get => ?_⟩
    · obtain ⟨now,delivered⟩ := answer get
      rw [frozen now]
      exact ⟨now,delivered⟩

theorem settles_returned {operation : Operation α ε} {result : Result α ε} {outcome : Except ε α}
    (set : settles ⟨operation,.returned result⟩ = some outcome) :
    operation.method.setter = true ∧ result = .done ∧ operation.method.outcome = some outcome := by
  obtain ⟨hasState,method⟩ := operation
  cases result with
  | done =>
    refine ⟨?_,rfl,set⟩
    cases method <;> trivial
  | got | tried | answered | threw => contradiction

theorem Inv.unsettled {s : State α ε} (inv : Inv s) (unset : s.data.ready = false) {j : Nat}
    {call : Call α ε} (found : s.calls[j]? = some call) : settles call = none := by
  have fact := inv.facts j call found
  obtain ⟨operation,point⟩ := call
  cases point with
  | entering | asleep | woken => rfl
  | announcing result => exact absurd (fact.2.1.symm.trans unset) (by decide)
  | returned result =>
    cases shape : settles ⟨operation,_⟩ with
    | none => rfl
    | some outcome =>
      obtain ⟨setter,normal,_⟩ := settles_returned shape
      exact absurd ((fact.1 setter normal).1.symm.trans unset) (by decide)

theorem inv_perform {s : State α ε} {i : Nat} {old : Call α ε} {operation : Operation α ε} {block : Block α ε}
    (inv : Inv s) (found : s.calls[i]? = some old) (idle : settles old = none) (silent : announces old = none)
    (acts : Acts s.data operation block) : Inv (s.perform i operation block) := by
  have facts : Every (fun _ call => Fact block.data call) (s.calls.set i ⟨operation,block.exit.point⟩) :=
    (inv.facts.imp fun _ _ _ fact => fact.later acts.frozen).set acts.fact
  unfold State.perform notifyIf
  rw [acts.quiet]
  cases acts with
  | settle after outcome unset set own holds =>
    have settled : settles ⟨operation,.announcing .done⟩ = some outcome := own
    refine ⟨?_,inv.single.set found ?_,fun _ => ?_,facts,fun _ => Or.inl ⟨i,_,get_self found,rfl⟩⟩
    · intro unsatisfied
      exact absurd (set.symm.trans unsatisfied) (by decide)
    · intro _ _
      apply Or.inr
      intro j call present
      simp [inv.unsettled unset present]
    · exact ⟨i,_,get_self found,settled.trans (congrArg some holds.symm)⟩
  | sleep sleep unset own =>
    have unsatisfied (ready : s.data.ready = true) : False := by simp [unset] at ready
    refine ⟨inv.fresh,inv.single.set found ?_,fun ready => (unsatisfied ready).elim,facts,fun ready => (unsatisfied ready).elim⟩
    intro _ owns
    simp [settles,Exit.point] at owns
  | leave after result frozen ready hasException failed answer =>
    refine ⟨?_,inv.single.set found ?_,fun now => ?_,facts,fun now => ?_⟩
    · intro unset
      exact hasException.trans (inv.fresh (ready.symm.trans unset))
    · intro _ owns
      obtain ⟨outcome,set,_⟩ := Option.map_eq_some_iff.mp owns
      obtain ⟨setter,normal,_⟩ := settles_returned set
      exact absurd normal (failed setter)
    · change after.ready = true at now
      change Held settles _ after.outcome
      rw [frozen (ready.symm.trans now)]
      exact (inv.settled (ready.symm.trans now)).set found (.inl idle)
    · rcases inv.wakeful (ready.symm.trans now) with ringing | rested
      · exact Or.inl (ringing.set found (.inl silent))
      · refine Or.inr (rested.set ?_)
        intro given
        obtain ⟨sleep,point⟩ := given
        contradiction

theorem inv_wake {s : State α ε} {i : Nat} {operation : Operation α ε} {sleep : Sleep} {notified : Bool}
    (inv : Inv s) (found : s.calls[i]? = some ⟨operation,.asleep sleep notified⟩) (result : Bool) :
    Inv (s.goto i ⟨operation,.woken sleep result⟩) := by
  have own : operation.method.sleep = some sleep := inv.facts i _ found
  refine ⟨inv.fresh,inv.single.set found fun _ owns => by simp [settles] at owns,
    fun ready => (inv.settled ready).set found (.inl rfl),inv.facts.set own,fun ready => ?_⟩
  rcases inv.wakeful ready with ringing | rested
  · exact Or.inl (ringing.set found (.inl rfl))
  · refine Or.inr (rested.set ?_)
    intro given
    obtain ⟨other,point⟩ := given
    contradiction

theorem inv_announce {s : State α ε} {i : Nat} {operation : Operation α ε} {result : Result α ε}
    (inv : Inv s) (found : s.calls[i]? = some ⟨operation,.announcing result⟩) :
    Inv {s with calls := (notifyIf true s.calls).set i ⟨operation,.returned result⟩} := by
  obtain ⟨rfl,ready,own⟩ := inv.facts i _ found
  have kept := get_notifyIf_awake true found (by simp)
  refine ⟨inv.fresh,(exclusive_notifyIf ?_ true inv.single).set kept fun _ owns => Or.inl owns,fun now => ?_,
    (every_notifyIf (fact_deaf s.data) true inv.facts).set ?_,fun _ => Or.inr ?_⟩
  · exact fun call => congrArg _ (settles_deaf call)
  · exact (held_notifyIf settles_deaf true (inv.settled now)).set kept (.inr rfl)
  · refine ⟨fun _ _ => ⟨ready,own⟩,?_⟩
    intro same
    subst same
    contradiction
  · refine Every.set ?_ ?_
    · intro j call present
      simp only [notifyIf,if_true,List.getElem?_map] at present
      obtain ⟨before,_,rfl⟩ := Option.map_eq_some_iff.mp present
      exact notify_rested before
    · intro given
      obtain ⟨sleep,point⟩ := given
      contradiction

theorem inv_init [Inhabited α] [Inhabited ε] : Inv (init SharedState.new : State α ε) where
  fresh _ := rfl
  single := Exclusive.nil _
  settled ready := by contradiction
  facts := Every.nil _
  wakeful ready := by contradiction

theorem inv_step (s : State α ε) (label : Label (Operation α ε)) (t : State α ε) (inv : Inv s)
    (taken : step program s label = some t) : Inv t := by
  cases step_moves program s t label taken with
  | invoke operation =>
    refine ⟨inv.fresh,inv.single.append rfl,fun ready => (inv.settled ready).append _,
      inv.facts.append trivial,fun ready => ?_⟩
    rcases inv.wakeful ready with ringing | rested
    · exact Or.inl (ringing.append _)
    · refine Or.inr (rested.append ?_)
      intro given
      obtain ⟨sleep,point⟩ := given
      contradiction
  | enter i operation found => exact inv_perform inv found rfl rfl (enter_acts inv.fresh operation)
  | wake i operation sleep notified found => exact inv_wake inv found true
  | timeout i operation sleep notified found => exact inv_wake inv found false
  | resume i operation sleep result found =>
    exact inv_perform inv found rfl rfl (resume_acts (inv.facts i _ found) result)
  | announce i operation result found => exact inv_announce inv found

theorem inv_run [Inhabited α] [Inhabited ε] {labels : List (Label (Operation α ε))} {s : State α ε}
    (reached : run (step program) (init SharedState.new) labels = some s) : Inv s :=
  run_invariant Inv inv_step inv_init reached

theorem Acts.failed {state : SharedState α ε} {operation : Operation α ε} {block : Block α ε} {failure : Failure ε}
    (acts : Acts state operation block) (threw : block.exit.point = .returned (.threw failure)) :
    block.data.ready = state.ready ∧ block.data.hasException = state.hasException := by
  cases acts with
  | settle => contradiction
  | sleep => contradiction
  | leave after result frozen ready hasException => exact ⟨ready,hasException⟩

theorem failed_setter {s t : State α ε} {i : Nat} {operation : Operation α ε} {failure : Failure ε} (inv : Inv s)
    (found : s.calls[i]? = some ⟨operation,.entering⟩) (taken : step program s (.enter i) = some t)
    (threw : t.calls[i]? = some ⟨operation,.returned (.threw failure)⟩) :
    t.data.ready = s.data.ready ∧ t.data.hasException = s.data.hasException := by
  simp only [step,found,Option.some.injEq] at taken
  subst taken
  have kept := get_notifyIf_awake (program.enter operation s.data).notifyAll found (by simp)
  have ended := Option.some.inj ((get_self kept).symm.trans threw)
  exact (enter_acts inv.fresh operation).failed (congrArg Monitor.Call.point ended)

/-- One setter at most returns normally; one that throws changes no flag; every
finished `Get` gives what that setter set; and once the promise is satisfied and
its setter has notified, no call sleeps that was not notified. -/
theorem promise_once [Inhabited α] [Inhabited ε] {s : State α ε} (labels : List (Label (Operation α ε)))
    (reached : run (step program) (init SharedState.new) labels = some s) :
    (∀ (i j : Nat) (first second : Operation α ε), first.method.setter = true → second.method.setter = true →
      s.calls[i]? = some ⟨first,.returned .done⟩ → s.calls[j]? = some ⟨second,.returned .done⟩ → i = j) ∧
    (∀ (i : Nat) (operation : Operation α ε) (failure : Failure ε) (t : State α ε),
      s.calls[i]? = some ⟨operation,.entering⟩ → step program s (.enter i) = some t →
      t.calls[i]? = some ⟨operation,.returned (.threw failure)⟩ →
      t.data.ready = s.data.ready ∧ t.data.hasException = s.data.hasException) ∧
    (∀ (j : Nat) (result : Result α ε), s.calls[j]? = some ⟨⟨true,.get⟩,.returned result⟩ →
      ∃ outcome, Held settles s.calls outcome ∧ result = deliver outcome) ∧
    (s.data.ready = true → (∀ (i : Nat) (operation : Operation α ε) (result : Result α ε),
        s.calls[i]? ≠ some ⟨operation,.announcing result⟩) →
      ∀ (j : Nat) (operation : Operation α ε) (sleep : Sleep) (notified : Bool),
        s.calls[j]? = some ⟨operation,.asleep sleep notified⟩ → notified = true) := by
  have inv := inv_run reached
  refine ⟨?_,fun i operation failure t => failed_setter inv,?_,?_⟩
  · intro i j first second setter other one two
    have settled (k : Nat) (operation : Operation α ε) (found : s.calls[k]? = some ⟨operation,.returned .done⟩)
        (setter : operation.method.setter = true) :
        (settles ⟨operation,.returned .done⟩).map (fun _ => ()) = some () := by
      have set : settles ⟨operation,.returned .done⟩ = some s.data.outcome :=
        ((inv.facts k _ found).1 setter rfl).2
      rw [set]
      rfl
    exact inv.single i j _ _ () one two (settled i first one setter) (settled j second two other)
  · intro j result found
    obtain ⟨ready,delivered⟩ := (inv.facts j _ found).2 rfl
    exact ⟨s.data.outcome,inv.settled ready,delivered⟩
  · intro ready quiet j operation sleep notified found
    rcases inv.wakeful ready with ⟨i,⟨other,point⟩,present,rings⟩ | rested
    · cases point with
      | announcing result => exact absurd present (quiet i other result)
      | entering | asleep | woken | returned => contradiction
    · cases notified with
      | true => rfl
      | false => exact (rested j _ found ⟨sleep,rfl⟩).elim

/-- Of two setters the first assignment throws and the second succeeds; the `Get`
asleep since before either is notified and gives the second's value. -/
theorem promise_once_second_setter :
    ∃ s : State Nat Nat, run (step program) (init SharedState.new)
      [.invoke ⟨true,.get⟩,.enter 0,.invoke ⟨true,.setValue (.throws 7 1)⟩,.enter 1,
        .invoke ⟨true,.setValue (.stores 5)⟩,.enter 2,.announce 2,.wake 0,.resume 0] = some s ∧
      s.calls[0]? = some ⟨⟨true,.get⟩,.returned (.got 5)⟩ ∧
      ∃ outcome, Held settles s.calls outcome ∧ .got 5 = deliver outcome := by
  obtain ⟨s,reached,got⟩ : ∃ s : State Nat Nat, run (step program) (init SharedState.new)
      [.invoke ⟨true,.get⟩,.enter 0,.invoke ⟨true,.setValue (.throws 7 1)⟩,.enter 1,
        .invoke ⟨true,.setValue (.stores 5)⟩,.enter 2,.announce 2,.wake 0,.resume 0] = some s ∧
      s.calls[0]? = some ⟨⟨true,.get⟩,.returned (.got 5)⟩ := ⟨_,rfl,rfl⟩
  exact ⟨s,reached,got,(promise_once _ reached).2.2.1 0 (.got 5) got⟩

def Reported (state : SharedState α ε) (call : Call α ε) : Prop :=
  match call.point with
  | .returned result =>
      (∀ value, call.operation.method = .tryGet → result = .tried (some value) →
        state.ready = true ∧ state.outcome = .ok value) ∧
      (call.operation.method = .waitFor → result = .answered true → state.ready = true)
  | _ => True

/-- `TryGet` and `WaitFor` return true only on a satisfied promise, `TryGet` with
the value that was set. -/
def Sound (s : State α ε) : Prop :=
  ∀ (j : Nat) (hasState : Bool),
    (∀ value, s.calls[j]? = some ⟨⟨hasState,.tryGet⟩,.returned (.tried (some value))⟩ →
      Held settles s.calls (.ok value)) ∧
    (s.calls[j]? = some ⟨⟨hasState,.waitFor⟩,.returned (.answered true)⟩ →
      ∃ outcome, Held settles s.calls outcome)

/-- A timed sleeper that was woken has the lock back only with the promise
satisfied. -/
def Warranted (s : State α ε) (label : Label (Operation α ε)) : Prop :=
  ∀ (i : Nat) (operation : Operation α ε) (sleep : Sleep), label = .resume i →
    s.calls[i]? = some ⟨operation,.woken sleep true⟩ → program.timed operation = true → s.data.ready = true

theorem reported_deaf (state : SharedState α ε) : Deaf (Reported state) := by
  intro given
  obtain ⟨operation,point⟩ := given
  cases point <;> rfl

theorem Reported.later {before after : SharedState α ε} {call : Call α ε}
    (frozen : before.ready = true → after = before) (reported : Reported before call) : Reported after call := by
  obtain ⟨operation,point⟩ := call
  cases point with
  | entering | asleep | woken | announcing => trivial
  | returned result =>
    refine ⟨fun value tryGet tried => ?_,fun waitFor answered => ?_⟩
    · have known := reported.1 value tryGet tried
      rw [frozen known.1]
      exact known
    · have known := reported.2 waitFor answered
      rw [frozen known]
      exact known

theorem reported_untimed (state : SharedState α ε) {operation : Operation α ε} {point : Point Sleep (Result α ε)}
    (untimed : program.timed operation = false) : Reported state ⟨operation,point⟩ := by
  obtain ⟨hasState,method⟩ := operation
  cases point with
  | entering | asleep | woken | announcing => trivial
  | returned result =>
    constructor
    · rintro value rfl
      contradiction
    · intro same
      subst same
      contradiction

theorem tryGet_reported {state : SharedState α ε} (hasState : Bool) (ready : state.ready = true) :
    Reported state ⟨⟨hasState,.tryGet⟩,.returned (tryGetResult state)⟩ := by
  refine ⟨fun value _ tried => ⟨ready,?_⟩,fun waitFor => by contradiction⟩
  unfold tryGetResult at tried
  split at tried
  next => contradiction
  next normal =>
    cases tried
    simp [SharedState.outcome,normal]

theorem waitFor_reported {state : SharedState α ε} (hasState result : Bool) (ready : result = true → state.ready = true) :
    Reported state ⟨⟨hasState,.waitFor⟩,.returned (.answered result)⟩ := by
  refine ⟨fun _ tryGet => by contradiction,fun _ answered => ?_⟩
  cases answered
  exact ready rfl

theorem silent_reported (state : SharedState α ε) (operation : Operation α ε) {failure : Failure ε} :
    Reported state ⟨operation,.returned (.threw failure)⟩ :=
  ⟨fun _ _ tried => by contradiction,fun _ answered => by contradiction⟩

theorem enter_reported (state : SharedState α ε) (operation : Operation α ε) :
    Reported (program.enter operation state).data ⟨operation,(program.enter operation state).exit.point⟩ := by
  obtain ⟨hasState,method⟩ := operation
  cases method with
  | setValue | setException | get | isReady | wait => exact reported_untimed _ rfl
  | tryGet =>
    cases hasState with
    | false => exact silent_reported state _
    | true =>
      simp only [program,if_true,enter,unlessReady]
      split
      next ready => exact tryGet_reported true ready
      next => exact trivial
  | waitFor =>
    cases hasState with
    | false => exact silent_reported state _
    | true =>
      simp only [program,if_true,enter,unlessReady]
      split
      next ready => exact waitFor_reported true true fun _ => ready
      next => exact trivial

theorem resume_reported {state : SharedState α ε} {operation : Operation α ε} {sleep : Sleep} {result : Bool}
    (own : operation.method.sleep = some sleep)
    (warranted : result = true → program.timed operation = true → state.ready = true) :
    Reported (program.resume operation sleep result state).data
      ⟨operation,(program.resume operation sleep result state).exit.point⟩ := by
  obtain ⟨hasState,method⟩ := operation
  cases method with
  | setValue | setException | isReady => contradiction
  | get | wait => exact reported_untimed _ rfl
  | tryGet =>
    cases own
    cases result with
    | false => exact ⟨fun _ _ tried => by simp at tried,fun waitFor => by contradiction⟩
    | true => exact tryGet_reported hasState (warranted rfl rfl)
  | waitFor =>
    cases own
    exact waitFor_reported hasState result fun woken => warranted woken rfl

theorem reported_perform {s : State α ε} {i : Nat} {operation : Operation α ε} {block : Block α ε}
    (acts : Acts s.data operation block) (every : Every (fun _ call => Reported s.data call) s.calls)
    (reported : Reported block.data ⟨operation,block.exit.point⟩) :
    Every (fun _ call => Reported block.data call) (s.perform i operation block).calls :=
  every_perform (reported_deaf block.data) (every.imp fun _ _ _ known => known.later acts.frozen) reported

/-- The invariant of the runs in which no timed sleeper takes a spurious wakeup
for the promise. -/
def Timed (s : State α ε) : Prop := Inv s ∧ Every (fun _ call => Reported s.data call) s.calls

theorem timed_step (s : State α ε) (label : Label (Operation α ε)) (t : State α ε) (timed : Timed s)
    (warranted : Warranted s label) (taken : step program s label = some t) : Timed t := by
  obtain ⟨inv,every⟩ := timed
  refine ⟨inv_step s label t inv taken,?_⟩
  cases step_moves program s t label taken with
  | invoke operation => exact every.append trivial
  | enter i operation found =>
    exact reported_perform (enter_acts inv.fresh operation) every (enter_reported s.data operation)
  | wake i operation sleep notified found => exact every.set trivial
  | timeout i operation sleep notified found => exact every.set trivial
  | resume i operation sleep result found =>
    have own : operation.method.sleep = some sleep := inv.facts i _ found
    refine reported_perform (resume_acts own result) every (resume_reported own ?_)
    rintro rfl timed
    exact warranted i operation sleep rfl found timed
  | announce i operation result found =>
    obtain ⟨rfl,ready,own⟩ := inv.facts i _ found
    exact (every_notifyIf (reported_deaf s.data) true every).set
      ⟨fun _ _ tried => by contradiction,fun _ answered => by contradiction⟩

theorem Timed.sound {s : State α ε} (timed : Timed s) : Sound s := by
  obtain ⟨inv,every⟩ := timed
  intro j hasState
  constructor
  · intro value found
    obtain ⟨ready,outcome⟩ := (every j _ found).1 value rfl rfl
    exact outcome ▸ inv.settled ready
  · intro found
    exact ⟨_,inv.settled ((every j _ found).2 rfl rfl)⟩

/-- A spurious wakeup taken for the promise: the call reports success where no
setter has succeeded. -/
theorem unwarranted (s : State α ε) (label : Label (Operation α ε)) (t : State α ε) (timed : Timed s)
    (broken : ¬ Warranted s label) (taken : step program s label = some t) : ¬ Sound t := by
  unfold Warranted at broken
  push Not at broken
  obtain ⟨i,⟨hasState,method⟩,sleep,rfl,found,isTimed,unready⟩ := broken
  have unset : s.data.ready = false := by simpa using unready
  have own : method.sleep = some sleep := timed.1.facts i _ found
  have after := inv_step s _ t timed.1 taken
  simp only [step,found,Option.some.injEq] at taken
  subst taken
  intro sound
  cases method with
  | setValue | setException | get | isReady | wait => contradiction
  | tryGet =>
    cases own
    have normal : tryGetResult s.data = .tried (some s.data.value) := by
      simp [tryGetResult,timed.1.fresh unset]
    obtain ⟨j,setter,present,settled⟩ := (sound i hasState).1 s.data.value
      ((get_self found).trans (by rw [← normal]; rfl))
    have none := after.unsettled unset present
    simp [none] at settled
  | waitFor =>
    cases own
    obtain ⟨outcome,j,setter,present,settled⟩ := (sound i hasState).2 (get_self found)
    have none := after.unsettled unset present
    simp [none] at settled

/-- The timed calls report success rightly all along a run if and only if none of
them was woken to an unsatisfied promise. -/
theorem sound_iff_warranted [Inhabited α] [Inhabited ε] {labels : List (Label (Operation α ε))} {s : State α ε}
    (reached : run (step program) (init SharedState.new) labels = some s) :
    Along (step program) Sound (init SharedState.new : State α ε) labels ↔
      Obeys (step program) Warranted (init SharedState.new) labels :=
  along_iff_obeys timed_step (fun _ timed => timed.sound) unwarranted ⟨inv_init,Every.nil _⟩ reached

theorem sound_iff_warranted_spurious :
    ∃ s : State Nat Nat, run (step program) (init SharedState.new)
      [.invoke ⟨true,.tryGet⟩,.enter 0,.wake 0,.resume 0] = some s ∧
      (Along (step program) Sound (init SharedState.new : State Nat Nat)
          [.invoke ⟨true,.tryGet⟩,.enter 0,.wake 0,.resume 0] ↔
        Obeys (step program) Warranted (init SharedState.new : State Nat Nat)
          [.invoke ⟨true,.tryGet⟩,.enter 0,.wake 0,.resume 0]) := by
  obtain ⟨s,reached,_⟩ := Option.map_eq_some_iff.mp (show (run (step program)
    (init SharedState.new : State Nat Nat) [.invoke ⟨true,.tryGet⟩,.enter 0,.wake 0,.resume 0]).map
      (fun s => s.data.ready) = some false from rfl)
  exact ⟨s,reached,sound_iff_warranted reached⟩

/-- One call and no setter: a wakeup without any notification makes `TryGet`
return true with the default value, and `WaitFor` return true. -/
theorem woken_for_nothing :
    ∃ s : State Nat Nat, run (step program) (init SharedState.new)
      [.invoke ⟨true,.tryGet⟩,.enter 0,.wake 0,.resume 0,
        .invoke ⟨true,.waitFor⟩,.enter 1,.wake 1,.resume 1] = some s ∧
      s.data.ready = false ∧ s.calls[0]? = some ⟨⟨true,.tryGet⟩,.returned (.tried (some 0))⟩ ∧
      s.calls[1]? = some ⟨⟨true,.waitFor⟩,.returned (.answered true)⟩ ∧ ¬ Sound s := by
  obtain ⟨s,reached,unset,first,second⟩ : ∃ s : State Nat Nat, run (step program) (init SharedState.new)
      [.invoke ⟨true,.tryGet⟩,.enter 0,.wake 0,.resume 0,
        .invoke ⟨true,.waitFor⟩,.enter 1,.wake 1,.resume 1] = some s ∧
      s.data.ready = false ∧ s.calls[0]? = some ⟨⟨true,.tryGet⟩,.returned (.tried (some 0))⟩ ∧
      s.calls[1]? = some ⟨⟨true,.waitFor⟩,.returned (.answered true)⟩ := ⟨_,rfl,rfl,rfl,rfl⟩
  refine ⟨s,reached,unset,first,second,fun sound => ?_⟩
  obtain ⟨outcome,j,setter,present,settled⟩ := (sound 1 true).2 second
  have none := (inv_run reached).unsettled unset present
  simp [none] at settled

end Ezthread.Future
