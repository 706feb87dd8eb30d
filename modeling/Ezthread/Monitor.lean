import Ezthread.Activation
import Ezthread.Transition

/-! Monitors: data read and written only under one critical section, with one
condition variable. A block runs from the acquisition of the lock to its release
or to the sleep that releases it, so it is one step, and between steps no call
holds the lock. A sleeper may wake at any time, notified or not; a timed sleeper
may time out at any time; and either way it reacquires the lock only later. -/
namespace Ezthread.Monitor
open Transition Activation

variable {Operation Data Frame Result : Type*}

/-- How a block gives the lock up: asleep on the condition variable with its
local variables, returning, or returning after a `NotifyAll` outside the lock. -/
inductive Exit (Frame Result : Type*)
  | sleep (frame : Frame)
  | leave (result : Result)
  | announce (result : Result)

structure Block (Data Frame Result : Type*) where
  data : Data
  notifyAll : Bool
  exit : Exit Frame Result

/-- The blocks of a monitor: from the entry of an operation, and from the return
of its sleep with true for a wakeup and false for a timeout. -/
structure Program (Operation Data Frame Result : Type*) where
  enter : Operation → Data → Block Data Frame Result
  resume : Operation → Frame → Bool → Data → Block Data Frame Result
  timed : Operation → Bool

inductive Point (Frame Result : Type*)
  | entering
  | asleep (frame : Frame) (notified : Bool)
  | woken (frame : Frame) (result : Bool)
  | announcing (result : Result)
  | returned (result : Result)

structure Call (Operation Frame Result : Type*) where
  operation : Operation
  point : Point Frame Result

structure State (Operation Data Frame Result : Type*) where
  data : Data
  calls : List (Call Operation Frame Result)

inductive Label (Operation : Type*)
  | invoke (operation : Operation)
  | enter (i : Nat)
  | wake (i : Nat)
  | timeout (i : Nat)
  | resume (i : Nat)
  | announce (i : Nat)

def Exit.point : Exit Frame Result → Point Frame Result
  | .sleep frame => .asleep frame false
  | .leave result => .returned result
  | .announce result => .announcing result

def Call.notify (call : Call Operation Frame Result) : Call Operation Frame Result :=
  match call.point with
  | .asleep frame _ => {call with point := .asleep frame true}
  | _ => call

def notifyIf (notifies : Bool) (calls : List (Call Operation Frame Result)) :
    List (Call Operation Frame Result) :=
  if notifies then calls.map Call.notify else calls

def State.perform (s : State Operation Data Frame Result) (i : Nat) (operation : Operation)
    (block : Block Data Frame Result) : State Operation Data Frame Result :=
  ⟨block.data,(notifyIf block.notifyAll s.calls).set i ⟨operation,block.exit.point⟩⟩

def State.goto (s : State Operation Data Frame Result) (i : Nat)
    (call : Call Operation Frame Result) : State Operation Data Frame Result :=
  {s with calls := s.calls.set i call}

def init (data : Data) : State Operation Data Frame Result := ⟨data,[]⟩

def step (program : Program Operation Data Frame Result) (s : State Operation Data Frame Result) :
    Label Operation → Option (State Operation Data Frame Result)
  | .invoke operation => some {s with calls := s.calls ++ [⟨operation,.entering⟩]}
  | .enter i =>
      match s.calls[i]? with
      | some ⟨operation,.entering⟩ => some (s.perform i operation (program.enter operation s.data))
      | _ => none
  | .wake i =>
      match s.calls[i]? with
      | some ⟨operation,.asleep frame _⟩ => some (s.goto i ⟨operation,.woken frame true⟩)
      | _ => none
  | .timeout i =>
      match s.calls[i]? with
      | some ⟨operation,.asleep frame _⟩ =>
          if program.timed operation then some (s.goto i ⟨operation,.woken frame false⟩) else none
      | _ => none
  | .resume i =>
      match s.calls[i]? with
      | some ⟨operation,.woken frame result⟩ =>
          some (s.perform i operation (program.resume operation frame result s.data))
      | _ => none
  | .announce i =>
      match s.calls[i]? with
      | some ⟨operation,.announcing result⟩ =>
          some {s with calls := (s.calls.map Call.notify).set i ⟨operation,.returned result⟩}
      | _ => none

inductive Moves (program : Program Operation Data Frame Result) (s : State Operation Data Frame Result) :
    Label Operation → State Operation Data Frame Result → Prop
  | invoke (operation) : Moves program s (.invoke operation) {s with calls := s.calls ++ [⟨operation,.entering⟩]}
  | enter (i operation) (found : s.calls[i]? = some ⟨operation,.entering⟩) :
      Moves program s (.enter i) (s.perform i operation (program.enter operation s.data))
  | wake (i operation frame notified) (found : s.calls[i]? = some ⟨operation,.asleep frame notified⟩) :
      Moves program s (.wake i) (s.goto i ⟨operation,.woken frame true⟩)
  | timeout (i operation frame notified) (found : s.calls[i]? = some ⟨operation,.asleep frame notified⟩)
      (timed : program.timed operation = true) :
      Moves program s (.timeout i) (s.goto i ⟨operation,.woken frame false⟩)
  | resume (i operation frame result) (found : s.calls[i]? = some ⟨operation,.woken frame result⟩) :
      Moves program s (.resume i) (s.perform i operation (program.resume operation frame result s.data))
  | announce (i operation result) (found : s.calls[i]? = some ⟨operation,.announcing result⟩) :
      Moves program s (.announce i)
        {s with calls := (s.calls.map Call.notify).set i ⟨operation,.returned result⟩}

theorem step_moves (program : Program Operation Data Frame Result) (s t : State Operation Data Frame Result)
    (label : Label Operation) (taken : step program s label = some t) : Moves program s label t := by
  cases label with
  | invoke operation =>
    cases taken
    exact .invoke operation
  | enter i =>
    simp only [step] at taken
    split at taken
    next operation found =>
      cases taken
      exact .enter i operation found
    next => contradiction
  | wake i =>
    simp only [step] at taken
    split at taken
    next operation frame notified found =>
      cases taken
      exact .wake i operation frame notified found
    next => contradiction
  | timeout i =>
    simp only [step] at taken
    split at taken
    next operation frame notified found =>
      split at taken
      next timed =>
        cases taken
        exact .timeout i operation frame notified found timed
      next => contradiction
    next => contradiction
  | resume i =>
    simp only [step] at taken
    split at taken
    next operation frame result found =>
      cases taken
      exact .resume i operation frame result found
    next => contradiction
  | announce i =>
    simp only [step] at taken
    split at taken
    next operation result found =>
      cases taken
      exact .announce i operation result found
    next => contradiction

theorem notify_awake {call : Call Operation Frame Result}
    (awake : ∀ frame notified, call.point ≠ .asleep frame notified) : call.notify = call := by
  unfold Call.notify
  split
  next frame notified point => exact absurd point (awake frame notified)
  next => rfl

theorem get_notifyIf {notifies : Bool} {calls : List (Call Operation Frame Result)} {j : Nat}
    {call : Call Operation Frame Result} (found : (notifyIf notifies calls)[j]? = some call) :
    ∃ before, calls[j]? = some before ∧ (call = before ∨ call = before.notify) := by
  unfold notifyIf at found
  split at found
  · rw [List.getElem?_map] at found
    obtain ⟨before,present,rfl⟩ := Option.map_eq_some_iff.mp found
    exact ⟨before,present,Or.inr rfl⟩
  · exact ⟨call,found,Or.inl rfl⟩

theorem get_notifyIf_awake (notifies : Bool) {calls : List (Call Operation Frame Result)} {i : Nat}
    {call : Call Operation Frame Result} (found : calls[i]? = some call)
    (awake : ∀ frame notified, call.point ≠ .asleep frame notified) :
    (notifyIf notifies calls)[i]? = some call := by
  unfold notifyIf
  split
  · rw [List.getElem?_map,found]
    exact congrArg some (notify_awake awake)
  · exact found

/-- A fact about calls that takes no notice of notifications. -/
def Deaf {Fact : Sort*} (fact : Call Operation Frame Result → Fact) : Prop :=
  ∀ call, fact call.notify = fact call

theorem every_notifyIf {fact : Call Operation Frame Result → Prop} (deaf : Deaf fact) (notifies : Bool)
    {calls : List (Call Operation Frame Result)} (every : Every (fun _ call => fact call) calls) :
    Every (fun _ call => fact call) (notifyIf notifies calls) := by
  intro j call found
  obtain ⟨before,present,rfl | rfl⟩ := get_notifyIf found
  · exact every j call present
  · exact (deaf before).symm ▸ every j before present

theorem exclusive_notifyIf {Key : Type*} {key : Call Operation Frame Result → Option Key} (deaf : Deaf key)
    (notifies : Bool) {calls : List (Call Operation Frame Result)} (exclusive : Exclusive key calls) :
    Exclusive key (notifyIf notifies calls) := by
  intro i j a b k first second owns shares
  obtain ⟨before,present,same⟩ := get_notifyIf first
  obtain ⟨other,found,equal⟩ := get_notifyIf second
  refine exclusive i j before other k present found ?_ ?_
  · rcases same with rfl | rfl
    · exact owns
    · exact (deaf before).symm.trans owns
  · rcases equal with rfl | rfl
    · exact shares
    · exact (deaf other).symm.trans shares

theorem held_notifyIf {Key : Type*} {key : Call Operation Frame Result → Option Key} {k : Key} (deaf : Deaf key)
    (notifies : Bool) {calls : List (Call Operation Frame Result)} (held : Held key calls k) :
    Held key (notifyIf notifies calls) k := by
  obtain ⟨j,call,found,owns⟩ := held
  cases notifies with
  | false => exact ⟨j,call,found,owns⟩
  | true => exact ⟨j,call.notify,by simp [notifyIf,found],(deaf call).trans owns⟩

theorem countP_notifyIf {holds : Call Operation Frame Result → Bool} (deaf : Deaf holds) (notifies : Bool)
    (calls : List (Call Operation Frame Result)) :
    (notifyIf notifies calls).countP holds = calls.countP holds := by
  unfold notifyIf
  split
  · rw [List.countP_map]
    exact congrArg (calls.countP) (funext deaf)
  · rfl

theorem sum_notifyIf {weight : Call Operation Frame Result → Nat} (deaf : Deaf weight) (notifies : Bool)
    (calls : List (Call Operation Frame Result)) :
    ((notifyIf notifies calls).map weight).sum = (calls.map weight).sum := by
  unfold notifyIf
  split
  · rw [List.map_map]
    exact congrArg (fun weight => (calls.map weight).sum) (funext deaf)
  · rfl

/-- Asleep without having been notified. -/
def Unnotified (call : Call Operation Frame Result) : Prop := ∃ frame, call.point = .asleep frame false

theorem notify_notified (call : Call Operation Frame Result) : ¬ Unnotified call.notify := by
  obtain ⟨operation,point⟩ := call
  cases point <;> simp [Unnotified,Call.notify]

theorem notified_all (calls : List (Call Operation Frame Result)) :
    Every (fun _ call => ¬ Unnotified call) (notifyIf true calls) := by
  intro j call found
  rw [notifyIf,if_pos rfl,List.getElem?_map] at found
  obtain ⟨before,_,rfl⟩ := Option.map_eq_some_iff.mp found
  exact notify_notified before

theorem every_perform {fact : Call Operation Frame Result → Prop} (deaf : Deaf fact)
    {s : State Operation Data Frame Result} {i : Nat} {operation : Operation} {block : Block Data Frame Result}
    (every : Every (fun _ call => fact call) s.calls) (holds : fact ⟨operation,block.exit.point⟩) :
    Every (fun _ call => fact call) (s.perform i operation block).calls :=
  (every_notifyIf deaf block.notifyAll every).set holds

theorem count_perform {holds : Call Operation Frame Result → Bool} (deaf : Deaf holds)
    {s : State Operation Data Frame Result} {i : Nat} {old : Call Operation Frame Result} (operation : Operation)
    (block : Block Data Frame Result) (found : s.calls[i]? = some old)
    (awake : ∀ frame notified, old.point ≠ .asleep frame notified) :
    (s.perform i operation block).calls.countP holds + (if holds old then 1 else 0) =
      s.calls.countP holds + (if holds ⟨operation,block.exit.point⟩ then 1 else 0) := by
  have counted := count_set holds ⟨operation,block.exit.point⟩
    (get_notifyIf_awake block.notifyAll found awake)
  rw [countP_notifyIf deaf] at counted
  exact counted

theorem sum_perform {weight : Call Operation Frame Result → Nat} (deaf : Deaf weight)
    {s : State Operation Data Frame Result} {i : Nat} {old : Call Operation Frame Result} (operation : Operation)
    (block : Block Data Frame Result) (found : s.calls[i]? = some old)
    (awake : ∀ frame notified, old.point ≠ .asleep frame notified) :
    ((s.perform i operation block).calls.map weight).sum + weight old =
      (s.calls.map weight).sum + weight ⟨operation,block.exit.point⟩ := by
  have summed := sum_set weight ⟨operation,block.exit.point⟩
    (get_notifyIf_awake block.notifyAll found awake)
  rw [sum_notifyIf deaf] at summed
  exact summed

section TimedWaits
variable {program : Program Operation Data Frame Result} {s : State Operation Data Frame Result} {label : Label Operation}

/-- A call that is to return, or has returned, an answer of a kind. -/
def Call.gives (kind : Operation → Result → Bool) (call : Call Operation Frame Result) : Bool :=
  match call.point with
  | .announcing result | .returned result => kind call.operation result
  | _ => false

theorem gives_deaf (kind : Operation → Result → Bool) :
    Deaf (Call.gives kind : Call Operation Frame Result → Bool) := by
  intro given
  obtain ⟨operation,point⟩ := given
  cases point <;> rfl

/-- A step by which a call comes to its answer leaves data that meet the condition. -/
def Answers (program : Program Operation Data Frame Result) (kind : Operation → Result → Bool) (cond : Data → Prop)
    (s : State Operation Data Frame Result) (label : Label Operation) : Prop :=
  ∀ (t : State Operation Data Frame Result) (i : Nat) (before after : Call Operation Frame Result),
    step program s label = some t → s.calls[i]? = some before → t.calls[i]? = some after →
    before.gives kind = false → after.gives kind = true → cond t.data

/-- A call whose sleep has timed out has the lock back while the data meet the
condition. -/
def Punctual (cond : Data → Prop) (s : State Operation Data Frame Result) (label : Label Operation) : Prop :=
  ∀ (i : Nat) (operation : Operation) (frame : Frame), label = .resume i →
    s.calls[i]? = some ⟨operation,.woken frame false⟩ → cond s.data

/-- A call awake again slept as its operation does, and only a timed one times out. -/
def Slept (program : Program Operation Data Frame Result) (fits : Operation → Frame → Prop)
    (s : State Operation Data Frame Result) : Prop :=
  ∀ (i : Nat) (operation : Operation) (frame : Frame) (result : Bool),
    s.calls[i]? = some ⟨operation,.woken frame result⟩ →
    fits operation frame ∧ (result = false → program.timed operation = true)

/-- The answer is given to a timeout and to nothing else, and the data stay. -/
structure GivesUp (program : Program Operation Data Frame Result) (kind : Operation → Result → Bool)
    (fits : Operation → Frame → Prop) : Prop where
  enter : ∀ operation data, Call.gives kind ⟨operation,(program.enter operation data).exit.point⟩ = false
  woken : ∀ operation frame data, fits operation frame →
    Call.gives kind ⟨operation,(program.resume operation frame true data).exit.point⟩ = false
  late : ∀ operation frame data, fits operation frame → program.timed operation = true →
    Call.gives kind ⟨operation,(program.resume operation frame false data).exit.point⟩ = true ∧
      (program.resume operation frame false data).data = data

theorem gives_notifyIf {kind : Operation → Result → Bool} {notifies : Bool} {calls : List (Call Operation Frame Result)}
    {i : Nat} {before after : Call Operation Frame Result} (found : calls[i]? = some before)
    (present : (notifyIf notifies calls)[i]? = some after) : after.gives kind = before.gives kind := by
  obtain ⟨other,same,rfl | rfl⟩ := get_notifyIf present
  · rw [Option.some.inj (same.symm.trans found)]
  · rw [gives_deaf kind,Option.some.inj (same.symm.trans found)]

/-- Where calls give up on a timeout alone, they do so rightly if and only if none
has the lock back too late. -/
theorem answers_iff_punctual {kind : Operation → Result → Bool} {fits : Operation → Frame → Prop} {cond : Data → Prop}
    (gives : GivesUp program kind fits) (slept : Slept program fits s) :
    Answers program kind cond s label ↔ Punctual cond s label := by
  constructor
  · intro answers i operation frame same found
    subst same
    obtain ⟨own,timed⟩ := slept i operation frame false found
    obtain ⟨given,kept⟩ := gives.late operation frame s.data own (timed rfl)
    have taken : step program s (.resume i) = some (s.perform i operation (program.resume operation frame false s.data)) := by
      simp only [step,found]
    have present := get_notifyIf_awake (program.resume operation frame false s.data).notifyAll found (by simp)
    have holds := answers _ i _ _ taken found (get_self present) rfl given
    exact kept ▸ holds
  · intro punctual t j before after taken found present ungiven given
    have other {i : Nat} (notifies : Bool) {next : Call Operation Frame Result}
        (placed : ((notifyIf notifies s.calls).set i next)[j]? = some after) : j = i ∧ after = next := by
      rcases get_set placed with own | ⟨_,kept⟩
      · exact own
      · rw [gives_notifyIf found kept] at given
        exact absurd (given.symm.trans ungiven) (by decide)
    cases step_moves program s t label taken with
    | invoke operation =>
      rw [List.getElem?_append_left (get_lt found)] at present
      rw [Option.some.inj (found.symm.trans present)] at ungiven
      exact absurd (given.symm.trans ungiven) (by decide)
    | enter i operation entering =>
      obtain ⟨rfl,rfl⟩ := other _ present
      exact absurd (given.symm.trans (gives.enter operation s.data)) (by decide)
    | wake i operation frame notified asleep =>
      obtain ⟨rfl,rfl⟩ := other false present
      exact absurd given Bool.false_ne_true
    | timeout i operation frame notified asleep timed =>
      obtain ⟨rfl,rfl⟩ := other false present
      exact absurd given Bool.false_ne_true
    | resume i operation frame result woken =>
      obtain ⟨rfl,rfl⟩ := other _ present
      obtain ⟨own,timed⟩ := slept j operation frame result woken
      cases result with
      | true => exact absurd (given.symm.trans (gives.woken operation frame s.data own)) (by decide)
      | false =>
        have holds := punctual j operation frame rfl woken
        have kept := (gives.late operation frame s.data own (timed rfl)).2
        change cond (program.resume operation frame false s.data).data
        rw [kept]
        exact holds
    | announce i operation result announcing =>
      obtain ⟨rfl,rfl⟩ := other true present
      rw [Option.some.inj (found.symm.trans announcing)] at ungiven
      exact absurd (given.symm.trans ungiven) (by decide)

/-- Only timed calls time out. -/
theorem timed_out_step (s : State Operation Data Frame Result) (label : Label Operation) (t : State Operation Data Frame Result)
    (timed : Every (fun _ call => ∀ frame, call.point = .woken frame false → program.timed call.operation = true) s.calls)
    (taken : step program s label = some t) :
    Every (fun _ call => ∀ frame, call.point = .woken frame false → program.timed call.operation = true) t.calls := by
  have deaf : Deaf fun call : Call Operation Frame Result =>
      ∀ frame, call.point = .woken frame false → program.timed call.operation = true := by
    intro given
    obtain ⟨operation,point⟩ := given
    cases point <;> simp [Call.notify]
  have awake {operation : Operation} (exit : Exit Frame Result) (frame : Frame) (same : exit.point = .woken frame false) :
      program.timed operation = true := by
    cases exit <;> contradiction
  cases step_moves program s t label taken with
  | invoke operation => exact timed.append (by simp)
  | enter i operation found => exact every_perform deaf timed (awake _)
  | wake i operation frame notified found => exact timed.set (by simp)
  | timeout i operation frame notified found times => exact timed.set fun _ _ => times
  | resume i operation frame result found => exact every_perform deaf timed (awake _)
  | announce i operation result found => exact (every_notifyIf deaf true timed).set (by simp)

end TimedWaits

end Ezthread.Monitor
