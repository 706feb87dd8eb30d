import Ezthread.Future
import Mathlib.Logic.Function.Basic

/-! Chains of `Then` calls of future.cpp: one promise, one shared state and one
detached thread for each stage, the types of the futures given by position. -/
namespace Ezthread.FutureChain
open Transition Future

universe u v

variable {α β : Type*} {T : Nat → Type u} {ε : Type v}

/-- The function of a `Then` call, with what copying the value into its thread and
storing the result may throw; the types that are void copy and store nothing. -/
structure Stage (α β ε : Type*) where
  copy : α → Option ε
  func : α → Except ε β
  store : β → Option (β × ε)

/-- Where the thread of a stage stands; `failing` is its catch clause. -/
inductive Point (α β ε : Type*)
  | unstarted
  | waiting
  | asleep
  | calling (value : α)
  | setting (result : β)
  | failing (ex : ε)
  | notifying
  | finished
  | terminated

/-- Stage `i` waits for state `i` and satisfies state `i + 1`; state 0 is the base's. -/
structure State (T : Nat → Type u) (ε : Type v) where
  cell : ∀ i, SharedState (T i) ε
  point : ∀ i, Point (T i) (T (i + 1)) ε
  started : Nat

inductive Label (α ε : Type*)
  | setValue (assignment : Assignment α ε)
  | setException (ex : ε)
  | andThen
  | look (i : Nat)
  | wake (i : Nat)
  | call (i : Nat)
  | set (i : Nat)
  | setCaught (i : Nat)
  | notify (i : Nat)

def init [∀ i, Inhabited (T i)] [Inhabited ε] : State T ε :=
  ⟨fun _ => SharedState.new,fun _ => .unstarted,0⟩

def Stage.assignment (stage : Stage α β ε) (result : β) : Assignment β ε :=
  match stage.store result with
  | none => .stores result
  | some (left,ex) => .throws left ex

/-- The block that waits under the lock and copies the value. -/
def Stage.look (stage : Stage α β ε) (state : SharedState α ε) : Point α β ε :=
  if state.ready then
    if state.hasException then .failing state.exception
    else match stage.copy state.value with
      | none => .calling state.value
      | some ex => .failing ex
  else .asleep

/-- What `std::current_exception` gives in the catch clause. -/
def caught (threadException : String → ε) : Failure ε → ε
  | .threadException text => threadException text
  | .raised ex => ex

def State.goto (s : State T ε) (i : Nat) (point : Point (T i) (T (i + 1)) ε) : State T ε :=
  {s with point := Function.update s.point i point}

def State.setCell (s : State T ε) (i : Nat) (cell : SharedState (T i) ε) : State T ε :=
  {s with cell := Function.update s.cell i cell}

def State.settle (s : State T ε) (i : Nat) (settled : SharedState (T (i + 1)) ε × Point (T i) (T (i + 1)) ε) : State T ε :=
  (s.goto i settled.2).setCell (i + 1) settled.1

def Stage.called (stage : Stage α β ε) (value : α) : Point α β ε :=
  match stage.func value with
  | .ok result => .setting result
  | .error ex => .failing ex

def Stage.set (threadException : String → ε) (stage : Stage α β ε) (result : β) (state : SharedState β ε) :
    SharedState β ε × Point α β ε :=
  match setValue (stage.assignment result) state with
  | (cell,.ok _) => (cell,.notifying)
  | (cell,.error failure) => (cell,.failing (caught threadException failure))

/-- An exception out of the catch clause ends the program. -/
def setCaught (ex : ε) (state : SharedState β ε) : SharedState β ε × Point α β ε :=
  match setException ex state with
  | (cell,.ok _) => (cell,.notifying)
  | (cell,.error _) => (cell,.terminated)

def step (threadException : String → ε) (stages : ∀ i, Stage (T i) (T (i + 1)) ε) (s : State T ε) :
    Label (T 0) ε → Option (State T ε)
  | .setValue assignment => some (s.setCell 0 (setValue assignment (s.cell 0)).1)
  | .setException ex => some (s.setCell 0 (setException ex (s.cell 0)).1)
  | .andThen => some {s.goto s.started .waiting with started := s.started + 1}
  | .look i =>
      match s.point i with
      | .waiting => some (s.goto i ((stages i).look (s.cell i)))
      | _ => none
  | .wake i =>
      match s.point i with
      | .asleep => some (s.goto i .waiting)
      | _ => none
  | .call i =>
      match s.point i with
      | .calling value => some (s.goto i ((stages i).called value))
      | _ => none
  | .set i =>
      match s.point i with
      | .setting result => some (s.settle i ((stages i).set threadException result (s.cell (i + 1))))
      | _ => none
  | .setCaught i =>
      match s.point i with
      | .failing ex => some (s.settle i (setCaught ex (s.cell (i + 1))))
      | _ => none
  | .notify i =>
      match s.point i with
      | .notifying => some (s.goto i .finished)
      | _ => none

/-- What a stage makes of the value of the one before it. -/
def Stage.apply (stage : Stage α β ε) (value : α) : Except ε β :=
  match stage.copy value with
  | some ex => .error ex
  | none =>
      match stage.func value with
      | .error ex => .error ex
      | .ok result =>
          match stage.store result with
          | some (_,ex) => .error ex
          | none => .ok result

/-- The stages one after another, from what the base was satisfied with. -/
def results (stages : ∀ i, Stage (T i) (T (i + 1)) ε) (base : Except ε (T 0)) : ∀ i, Except ε (T i)
  | 0 => base
  | i + 1 => (results stages base i).bind (stages i).apply

/-- What a stage's thread knows of the states before and after it. -/
def Fact (stage : Stage α β ε) (before : SharedState α ε) (after : SharedState β ε) : Point α β ε → Prop
  | .unstarted | .waiting | .asleep => after.ready = false
  | .calling value =>
      before.ready = true ∧ before.outcome = .ok value ∧ stage.copy value = none ∧ after.ready = false
  | .setting result =>
      before.ready = true ∧ (∃ value, before.outcome = .ok value ∧ stage.copy value = none ∧ stage.func value = .ok result) ∧
        after.ready = false
  | .failing ex => before.ready = true ∧ before.outcome.bind stage.apply = .error ex ∧ after.ready = false
  | .notifying | .finished =>
      before.ready = true ∧ after.ready = true ∧ after.outcome = before.outcome.bind stage.apply
  | .terminated => False

structure Inv (stages : ∀ i, Stage (T i) (T (i + 1)) ε) (s : State T ε) : Prop where
  fresh : ∀ i, (s.cell i).ready = false → (s.cell i).hasException = false
  facts : ∀ i, Fact (stages i) (s.cell i) (s.cell (i + 1)) (s.point i)
  later : ∀ i, s.started ≤ i → s.point i = .unstarted

section Steps
variable {stage : Stage α β ε} {before other : SharedState α ε} {after : SharedState β ε} {point : Point α β ε}
  {threadException : String → ε} {stages : ∀ i, Stage (T i) (T (i + 1)) ε} {s : State T ε}

/-- Until a state is ready the stage after it knows nothing of it. -/
theorem Fact.source (fact : Fact stage before after point) (unset : before.ready = false) : Fact stage other after point := by
  cases point with
  | unstarted | waiting | asleep => exact fact
  | terminated => exact fact.elim
  | calling | setting | failing | notifying | finished => exact absurd (fact.1.symm.trans unset) (by decide)

theorem look_fact (unset : after.ready = false) : Fact stage before after (stage.look before) := by
  unfold Stage.look
  split
  next ready =>
    split
    next raised => exact ⟨ready,by simp [SharedState.outcome,raised,Except.bind],unset⟩
    next normal =>
      have outcome : before.outcome = .ok before.value := by simp [SharedState.outcome,normal]
      split
      next copied => exact ⟨ready,outcome,copied,unset⟩
      next ex threw => exact ⟨ready,by simp [outcome,Except.bind,Stage.apply,threw],unset⟩
  next => exact unset

theorem setException_set (ex : ε) (ready : after.ready = true) : (setException ex after).1 = after := by
  simp [setException,ready]

theorem setValue_set (assignment : Assignment β ε) (ready : after.ready = true) : (setValue assignment after).1 = after := by
  simp [setValue,ready]

theorem setValue_fresh (assignment : Assignment β ε) (fresh : after.ready = false → after.hasException = false) :
    (setValue assignment after).1.ready = false → (setValue assignment after).1.hasException = false := by
  unfold setValue
  split
  next => exact fresh
  next unset =>
    cases assignment with
    | stores value => intro unready; contradiction
    | throws left ex => exact fun _ => fresh (by simpa using unset)

theorem setException_fresh (ex : ε) (fresh : after.ready = false → after.hasException = false) :
    (setException ex after).1.ready = false → (setException ex after).1.hasException = false := by
  unfold setException
  split
  next => exact fresh
  next => intro unready; contradiction

theorem cell_setCell_self (i : Nat) (cell : SharedState (T i) ε) : (s.setCell i cell).cell i = cell := by
  simp [State.setCell]

theorem cell_setCell_ne {i j : Nat} (cell : SharedState (T i) ε) (apart : j ≠ i) : (s.setCell i cell).cell j = s.cell j := by
  simp [State.setCell,apart]

theorem point_goto_self (i : Nat) (point : Point (T i) (T (i + 1)) ε) : (s.goto i point).point i = point := by
  simp [State.goto]

theorem point_goto_ne {i j : Nat} (point : Point (T i) (T (i + 1)) ε) (apart : j ≠ i) : (s.goto i point).point j = s.point j := by
  simp [State.goto,apart]

theorem Inv.base (inv : Inv stages s) {cell : SharedState (T 0) ε} (frozen : (s.cell 0).ready = true → cell = s.cell 0)
    (fresh : cell.ready = false → cell.hasException = false) : Inv stages (s.setCell 0 cell) := by
  refine ⟨fun i => ?_,fun i => ?_,inv.later⟩
  · cases i with
    | zero => exact (cell_setCell_self 0 cell).symm ▸ fresh
    | succ i => exact (cell_setCell_ne cell (Nat.succ_ne_zero i)).symm ▸ inv.fresh (i + 1)
  · rw [cell_setCell_ne cell (Nat.succ_ne_zero i)]
    cases i with
    | succ i =>
      rw [cell_setCell_ne cell (Nat.succ_ne_zero i)]
      exact inv.facts (i + 1)
    | zero =>
      rw [cell_setCell_self]
      cases ready : (s.cell 0).ready with
      | true => exact (frozen ready).symm ▸ inv.facts 0
      | false => exact (inv.facts 0).source ready

theorem Inv.started_of (inv : Inv stages s) {i : Nat} (moving : s.point i ≠ .unstarted) : i < s.started := by
  rcases Nat.lt_or_ge i s.started with before | after
  · exact before
  · exact absurd (inv.later i after) moving

theorem Inv.goto (inv : Inv stages s) {i : Nat} {point : Point (T i) (T (i + 1)) ε} (moving : s.point i ≠ .unstarted)
    (fact : Fact (stages i) (s.cell i) (s.cell (i + 1)) point) : Inv stages (s.goto i point) := by
  have inside := inv.started_of moving
  refine ⟨inv.fresh,fun j => ?_,fun j after => ?_⟩
  · by_cases own : j = i
    · subst own
      rw [point_goto_self]
      exact fact
    · rw [point_goto_ne point own]
      exact inv.facts j
  · have apart : j ≠ i := by
      rintro rfl
      exact absurd after (Nat.not_le_of_lt inside)
    rw [point_goto_ne point apart]
    exact inv.later j after

/-- A stage's thread writes the state after it, which no other stage has read yet. -/
theorem Inv.settle (inv : Inv stages s) {i : Nat} {settled : SharedState (T (i + 1)) ε × Point (T i) (T (i + 1)) ε}
    (moving : s.point i ≠ .unstarted) (unset : (s.cell (i + 1)).ready = false)
    (fresh : settled.1.ready = false → settled.1.hasException = false)
    (fact : Fact (stages i) (s.cell i) settled.1 settled.2) : Inv stages (s.settle i settled) := by
  obtain ⟨cell,point⟩ := settled
  have inside := inv.started_of moving
  have written : (s.settle i (cell,point)).cell (i + 1) = cell := cell_setCell_self (i + 1) cell
  have kept {m : Nat} (apart : m ≠ i + 1) : (s.settle i (cell,point)).cell m = s.cell m := cell_setCell_ne cell apart
  refine ⟨fun j => ?_,fun j => ?_,fun j after => ?_⟩
  · by_cases own : j = i + 1
    · subst own
      exact written.symm ▸ fresh
    · exact (kept own).symm ▸ inv.fresh j
  · change Fact (stages j) _ _ ((s.goto i point).point j)
    by_cases own : j = i
    · subst own
      rw [written,kept (Nat.ne_of_lt (Nat.lt_succ_self j)),point_goto_self]
      exact fact
    · rw [point_goto_ne point own,kept (by omega : j + 1 ≠ i + 1)]
      by_cases next : j = i + 1
      · subst next
        exact (inv.facts (i + 1)).source unset
      · rw [kept next]
        exact inv.facts j
  · have apart : j ≠ i := by
      rintro rfl
      exact absurd after (Nat.not_le_of_lt inside)
    change (s.goto i point).point j = .unstarted
    rw [point_goto_ne point apart]
    exact inv.later j after

theorem Inv.andThen (inv : Inv stages s) : Inv stages {s.goto s.started .waiting with started := s.started + 1} := by
  refine ⟨inv.fresh,fun j => ?_,fun j after => ?_⟩
  · change Fact (stages j) (s.cell j) (s.cell (j + 1)) ((s.goto s.started .waiting).point j)
    by_cases own : j = s.started
    · subst own
      rw [point_goto_self]
      have fact := inv.facts s.started
      rw [inv.later s.started (Nat.le_refl _)] at fact
      exact fact
    · rw [point_goto_ne _ own]
      exact inv.facts j
  · change s.started + 1 ≤ j at after
    change (s.goto s.started .waiting).point j = .unstarted
    rw [point_goto_ne _ (by omega)]
    exact inv.later j (by omega)

theorem called_fact {value : α} (fact : Fact stage before after (.calling value)) :
    Fact stage before after (stage.called value) := by
  obtain ⟨ready,outcome,copied,unset⟩ := fact
  unfold Stage.called
  split
  next result returned => exact ⟨ready,⟨value,outcome,copied,returned⟩,unset⟩
  next ex threw => exact ⟨ready,by simp [outcome,Except.bind,Stage.apply,copied,threw],unset⟩

theorem set_fact {result : β} (fact : Fact stage before after (.setting result)) (fresh : after.hasException = false) :
    Fact stage before (stage.set threadException result after).1 (stage.set threadException result after).2 ∧
      (stage.set threadException result after).1.hasException = false := by
  obtain ⟨ready,⟨value,outcome,copied,returned⟩,unset⟩ := fact
  cases stored : stage.store result with
  | none =>
    have settled : stage.set threadException result after = ({after with value := result, ready := true},.notifying) := by
      simp [Stage.set,Stage.assignment,stored,setValue,unset]
    rw [settled]
    refine ⟨⟨ready,rfl,?_⟩,fresh⟩
    rw [outcome]
    simp [SharedState.outcome,fresh,Except.bind,Stage.apply,copied,returned,stored]
  | some thrown =>
    obtain ⟨left,ex⟩ := thrown
    have failed : stage.set threadException result after = ({after with value := left},.failing ex) := by
      simp [Stage.set,Stage.assignment,stored,setValue,unset,caught]
    rw [failed]
    exact ⟨⟨ready,by simp [outcome,Except.bind,Stage.apply,copied,returned,stored],unset⟩,fresh⟩

theorem setCaught_fact {ex : ε} (fact : Fact stage before after (.failing ex)) :
    Fact stage before (setCaught (α := α) ex after).1 (setCaught ex after).2 ∧ (setCaught (α := α) ex after).1.ready = true := by
  obtain ⟨ready,failed,unset⟩ := fact
  have settled : setCaught (α := α) ex after = ({after with exception := ex, hasException := true, ready := true},.notifying) := by
    simp [setCaught,setException,unset]
  rw [settled]
  exact ⟨⟨ready,rfl,failed.symm⟩,rfl⟩

theorem inv_step (s : State T ε) (label : Label (T 0) ε) (t : State T ε) (inv : Inv stages s)
    (taken : step threadException stages s label = some t) : Inv stages t := by
  cases label with
  | setValue assignment =>
    cases taken
    exact inv.base (setValue_set assignment) (setValue_fresh assignment (inv.fresh 0))
  | setException ex =>
    cases taken
    exact inv.base (setException_set ex) (setException_fresh ex (inv.fresh 0))
  | andThen =>
    cases taken
    exact inv.andThen
  | look i =>
    simp only [step] at taken
    split at taken
    next point =>
      cases taken
      have fact := inv.facts i
      rw [point] at fact
      exact inv.goto (by simp [point]) (look_fact fact)
    next => contradiction
  | wake i =>
    simp only [step] at taken
    split at taken
    next point =>
      cases taken
      have fact := inv.facts i
      rw [point] at fact
      exact inv.goto (by simp [point]) fact
    next => contradiction
  | call i =>
    simp only [step] at taken
    split at taken
    next value point =>
      cases taken
      have fact := inv.facts i
      rw [point] at fact
      exact inv.goto (by simp [point]) (called_fact fact)
    next => contradiction
  | set i =>
    simp only [step] at taken
    split at taken
    next result point =>
      cases taken
      have fact := inv.facts i
      rw [point] at fact
      obtain ⟨after,fresh⟩ := set_fact fact (inv.fresh (i + 1) fact.2.2)
      exact inv.settle (by simp [point]) fact.2.2 (fun _ => fresh) after
    next => contradiction
  | setCaught i =>
    simp only [step] at taken
    split at taken
    next ex point =>
      cases taken
      have fact := inv.facts i
      rw [point] at fact
      obtain ⟨after,ready⟩ := setCaught_fact fact
      exact inv.settle (by simp [point]) fact.2.2 (fun unset => absurd (ready.symm.trans unset) (by decide)) after
    next => contradiction
  | notify i =>
    simp only [step] at taken
    split at taken
    next point =>
      cases taken
      have fact := inv.facts i
      rw [point] at fact
      exact inv.goto (by simp [point]) fact
    next => contradiction

theorem inv_init [∀ i, Inhabited (T i)] [Inhabited ε] : Inv stages init where
  fresh _ _ := rfl
  facts _ := rfl
  later _ _ := rfl

theorem inv_run [∀ i, Inhabited (T i)] [Inhabited ε] {labels : List (Label (T 0) ε)}
    (reached : run (step threadException stages) init labels = some s) : Inv stages s :=
  run_invariant (Inv stages) inv_step inv_init reached

theorem Inv.previous (inv : Inv stages s) {i : Nat} (ready : (s.cell (i + 1)).ready = true) :
    (s.cell i).ready = true ∧ (s.cell (i + 1)).outcome = (s.cell i).outcome.bind (stages i).apply := by
  have fact := inv.facts i
  cases point : s.point i with
  | notifying | finished =>
    rw [point] at fact
    exact ⟨fact.1,fact.2.2⟩
  | unstarted | waiting | asleep =>
    rw [point] at fact
    exact absurd (ready.symm.trans fact) (by decide)
  | calling value =>
    rw [point] at fact
    exact absurd (ready.symm.trans fact.2.2.2) (by decide)
  | setting | failing =>
    rw [point] at fact
    exact absurd (ready.symm.trans fact.2.2) (by decide)
  | terminated =>
    rw [point] at fact
    exact fact.elim

theorem Inv.results (inv : Inv stages s) {n : Nat} (ready : (s.cell n).ready = true) :
    (s.cell 0).ready = true ∧ (s.cell n).outcome = results stages (s.cell 0).outcome n := by
  induction n with
  | zero => exact ⟨ready,rfl⟩
  | succ n ih =>
    obtain ⟨before,outcome⟩ := inv.previous ready
    obtain ⟨base,chained⟩ := ih before
    exact ⟨base,outcome.trans (congrArg (Except.bind · (stages n).apply) chained)⟩

theorem Inv.succeeded (inv : Inv stages s) {i : Nat} {value : T i} (ready : (s.cell i).ready = true)
    (succeeded : (s.cell i).outcome = .ok value) (j : Nat) (before : j ≤ i) :
    (s.cell j).ready = true ∧ ∃ value, (s.cell j).outcome = .ok value := by
  induction i with
  | zero =>
    obtain rfl : j = 0 := Nat.le_zero.mp before
    exact ⟨ready,value,succeeded⟩
  | succ i ih =>
    rcases Nat.lt_or_eq_of_le before with earlier | rfl
    · obtain ⟨satisfied,outcome⟩ := inv.previous ready
      rw [outcome] at succeeded
      cases prior : (s.cell i).outcome with
      | error ex =>
        rw [prior] at succeeded
        contradiction
      | ok value => exact ih satisfied prior (Nat.le_of_lt_succ earlier)
    · exact ⟨ready,value,succeeded⟩

/-- A failure of the chain is the base's or that of a stage whose predecessors succeeded. -/
theorem results_error (stages : ∀ i, Stage (T i) (T (i + 1)) ε) (base : Except ε (T 0)) (n : Nat) (ex : ε) :
    results stages base n = .error ex ↔
      base = .error ex ∨ ∃ i < n, ∃ value, results stages base i = .ok value ∧ (stages i).apply value = .error ex := by
  induction n with
  | zero => simp [results]
  | succ n ih =>
    rw [results]
    cases prior : results stages base n with
    | error first =>
      have same : (Except.error first : Except ε (T n)) = .error ex ↔ _ := prior ▸ ih
      rw [Except.bind,Except.error.injEq,← Except.error.injEq (α := T n),same]
      refine or_congr_right ⟨fun given => ?_,fun given => ?_⟩
      · obtain ⟨i,inside,found⟩ := given
        exact ⟨i,Nat.lt_succ_of_lt inside,found⟩
      · obtain ⟨i,inside,value,succeeded,failed⟩ := given
        rcases Nat.lt_succ_iff_lt_or_eq.mp inside with below | rfl
        · exact ⟨i,below,value,succeeded,failed⟩
        · simp [prior] at succeeded
    | ok value =>
      constructor
      · exact fun failed => Or.inr ⟨n,Nat.lt_succ_self n,value,prior,failed⟩
      · intro given
        have unfailed := mt ih.mpr (by simp [prior])
        rcases given with failed | ⟨i,inside,other,succeeded,failed⟩
        · exact absurd (Or.inl failed) unfailed
        · rcases Nat.lt_succ_iff_lt_or_eq.mp inside with below | rfl
          · exact absurd (Or.inr ⟨i,below,other,succeeded,failed⟩) unfailed
          · rw [prior] at succeeded
            cases succeeded
            exact failed

end Steps

def Point.uncalled : Point α β ε → Bool
  | .unstarted | .waiting | .asleep | .calling _ => true
  | .setting _ | .failing _ | .notifying | .finished | .terminated => false

def Label.calls (i : Nat) : Label α ε → Bool
  | .call j => decide (j = i)
  | _ => false

section Calls
variable {threadException : String → ε} {stages : ∀ i, Stage (T i) (T (i + 1)) ε} {s t : State T ε}

theorem uncalled_goto {i j : Nat} (point : Point (T i) (T (i + 1)) ε)
    (before : point.uncalled = true → (s.point i).uncalled = true)
    (after : ((s.goto i point).point j).uncalled = true) : (s.point j).uncalled = true := by
  by_cases own : j = i
  · subst own
    rw [point_goto_self] at after
    exact before after
  · rw [point_goto_ne point own] at after
    exact after

theorem uncalled_step (inv : Inv stages s) (label : Label (T 0) ε) (taken : step threadException stages s label = some t)
    (i : Nat) (after : (t.point i).uncalled = true) : (s.point i).uncalled = true ∧ label.calls i = false := by
  cases label with
  | setValue | setException =>
    cases taken
    exact ⟨after,rfl⟩
  | andThen =>
    cases taken
    refine ⟨uncalled_goto _ (fun _ => ?_) after,rfl⟩
    rw [inv.later s.started (Nat.le_refl _)]
    rfl
  | look j | wake j | notify j =>
    simp only [step] at taken
    split at taken
    next point =>
      cases taken
      exact ⟨uncalled_goto _ (by simp [point,Point.uncalled]) after,rfl⟩
    next => contradiction
  | set j =>
    simp only [step] at taken
    split at taken
    next result point =>
      cases taken
      refine ⟨uncalled_goto ((stages j).set threadException result (s.cell (j + 1))).2 (fun before => ?_) after,rfl⟩
      unfold Stage.set at before
      split at before <;> contradiction
    next => contradiction
  | setCaught j =>
    simp only [step] at taken
    split at taken
    next ex point =>
      cases taken
      refine ⟨uncalled_goto (setCaught ex (s.cell (j + 1))).2 (fun before => ?_) after,rfl⟩
      unfold setCaught at before
      split at before <;> contradiction
    next => contradiction
  | call j =>
    simp only [step] at taken
    split at taken
    next value point =>
      cases taken
      have called : ((stages j).called value).uncalled = false := by
        unfold Stage.called
        split <;> rfl
      refine ⟨uncalled_goto _ (by simp [called]) after,?_⟩
      by_contra own
      obtain rfl : j = i := by simpa [Label.calls] using own
      rw [point_goto_self,called] at after
      contradiction
    next => contradiction

theorem call_ready {i : Nat} (taken : step threadException stages s (.call i) = some t) : ∃ value, s.point i = .calling value := by
  simp only [step] at taken
  split at taken
  next value point => exact ⟨value,point⟩
  next => contradiction

/-- A stage has called its function at most once, and not while it is still before it. -/
def Counted (s : State T ε) (past : List (Label (T 0) ε)) : Prop :=
  ∀ i, past.countP (Label.calls i) ≤ 1 ∧ ((s.point i).uncalled = true → past.countP (Label.calls i) = 0)

theorem counted_step (s : State T ε) (past : List (Label (T 0) ε)) (label : Label (T 0) ε) (t : State T ε)
    (known : Inv stages s ∧ Counted s past) (taken : step threadException stages s label = some t) :
    Inv stages t ∧ Counted t (past ++ [label]) := by
  obtain ⟨inv,counted⟩ := known
  refine ⟨inv_step s label t inv taken,fun i => ?_⟩
  obtain ⟨once,never⟩ := counted i
  rw [List.countP_append,List.countP_singleton]
  refine ⟨?_,fun after => ?_⟩
  · cases calls : label.calls i with
    | false => simpa using once
    | true =>
      have ready : (s.point i).uncalled = true := by
        cases label with
        | call j =>
          obtain rfl : j = i := by simpa [Label.calls] using calls
          obtain ⟨value,point⟩ := call_ready taken
          rw [point]
          rfl
        | _ => contradiction
      simp [never ready]
  · obtain ⟨before,other⟩ := uncalled_step inv label taken i after
    simp [never before,other]

/-- Whatever the order of its setter and its threads, a chain whose base is
satisfied and whose threads have finished ends in what its functions make of the
base's value, or in the first failure; each function is called at most once, and
only on the value of a stage that succeeded as all before it did. -/
theorem chain_settles [∀ i, Inhabited (T i)] [Inhabited ε] {labels : List (Label (T 0) ε)}
    (reached : run (step threadException stages) init labels = some s) :
    (∀ n, (∀ i < n, s.point i = .finished) → (s.cell 0).ready = true →
      (s.cell n).ready = true ∧ (s.cell n).outcome = results stages (s.cell 0).outcome n ∧
      ∀ ex, (s.cell n).outcome = .error ex ↔ (s.cell 0).outcome = .error ex ∨
        ∃ i < n, ∃ value, results stages (s.cell 0).outcome i = .ok value ∧ (stages i).apply value = .error ex) ∧
    (∀ i, labels.countP (Label.calls i) ≤ 1 ∧
      ∀ (before after : List (Label (T 0) ε)) (middle : State T ε), labels = before ++ .call i :: after →
        run (step threadException stages) init before = some middle →
        (∃ value, middle.point i = .calling value ∧ (middle.cell i).outcome = .ok value) ∧
        ∀ j ≤ i, (middle.cell j).ready = true ∧ ∃ value, (middle.cell j).outcome = .ok value) ∧
    ∀ i, s.point i ≠ .terminated := by
  have counted := run_history (fun state past => Inv stages state ∧ Counted state past) counted_step []
    ⟨inv_init,fun i => ⟨Nat.zero_le 1,fun _ => rfl⟩⟩ reached
  rw [List.nil_append] at counted
  refine ⟨fun n finished base => ?_,fun i => ⟨(counted.2 i).1,fun before after middle split prior => ?_⟩,fun i ended => ?_⟩
  · have ready : (s.cell n).ready = true := by
      cases n with
      | zero => exact base
      | succ n =>
        have fact := counted.1.facts n
        rw [finished n (Nat.lt_succ_self n)] at fact
        exact fact.2.1
    obtain ⟨_,outcome⟩ := counted.1.results ready
    refine ⟨ready,outcome,fun ex => ?_⟩
    rw [outcome]
    exact results_error stages _ n ex
  · rw [split,run_append,prior,Option.bind_some] at reached
    obtain ⟨next,taken,_⟩ := run_cons_some reached
    obtain ⟨value,point⟩ := call_ready taken
    have inv := inv_run prior
    have fact := inv.facts i
    rw [point] at fact
    exact ⟨⟨value,point,fact.2.1⟩,inv.succeeded fact.1 fact.2.1⟩
  · have fact := counted.1.facts i
    rw [ended] at fact
    exact fact

/-- The first function succeeds, the second throws, and the third is not called. -/
theorem chain_settles_three :
    ∃ s : State (fun _ => Nat) Nat, run (step (fun _ => 0) fun i =>
        ⟨fun _ => none,fun value => if i = 1 then .error 7 else .ok (value + 1),fun _ => none⟩) init
      [.andThen,.look 0,.andThen,.setValue (.stores 4),.wake 0,.look 0,.call 0,.andThen,.set 0,.look 1,.call 1,
        .setCaught 1,.look 2,.setCaught 2,.notify 2,.notify 1,.notify 0] = some s ∧
      (s.cell 1).outcome = .ok 5 ∧ (s.cell 3).outcome = .error 7 ∧ (s.cell 3).ready = true := by
  obtain ⟨s,reached,finished,base,middle,last⟩ : ∃ s : State (fun _ => Nat) Nat, run (step (fun _ => 0) fun i =>
        ⟨fun _ => none,fun value => if i = 1 then .error 7 else .ok (value + 1),fun _ => none⟩) init
      [.andThen,.look 0,.andThen,.setValue (.stores 4),.wake 0,.look 0,.call 0,.andThen,.set 0,.look 1,.call 1,
        .setCaught 1,.look 2,.setCaught 2,.notify 2,.notify 1,.notify 0] = some s ∧
      (s.point 0 = .finished ∧ s.point 1 = .finished ∧ s.point 2 = .finished) ∧ (s.cell 0).ready = true ∧
      (s.cell 1).outcome = .ok 5 ∧ (s.cell 3).outcome = .error 7 := ⟨_,rfl,⟨rfl,rfl,rfl⟩,rfl,rfl,rfl⟩
  have settled := (chain_settles reached).1 3 (fun i inside => ?_) base
  · exact ⟨s,reached,middle,last,settled.1⟩
  · rcases i with _ | _ | _ | _
    · exact finished.1
    · exact finished.2.1
    · exact finished.2.2
    · omega

end Calls

end Ezthread.FutureChain
