import Ezthread.TimerCallbacks
import Ezthread.WorkLifetime

/-! The pointers from the contexts of timers and works back to their objects, which no
move brings up to date. -/
namespace Ezthread.Timer
open Transition Activation Callbacks

/-- A context refers to the timer that owns it, and a callback that uses a context to
its owner, so that a one-shot callback clears the flag of that timer and touches no
other. -/
structure Linked (s : State) : Prop where
  owner : ∀ i c, (s.objects i).context = some c → (s.contexts c).timer = i
  owned : Every (fun _ callback => callback.uses = true →
    (s.objects (s.contexts callback.context).timer).context = some callback.context) s.callbacks
  finishing : ∀ (k c : Nat) (t : State), s.callbacks[k]? = some ⟨c,.running⟩ → (s.contexts c).isOneShot = true →
    step s (.callback k) = some t → ∃ i, (s.objects i).context = some c ∧ (t.objects i).running = false ∧
      ∀ j, j ≠ i → t.objects j = s.objects j

theorem linked (s : State) (inv : Inv s) : Linked s := by
  have owned : Every (fun _ callback => callback.uses = true →
      (s.objects (s.contexts callback.context).timer).context = some callback.context) s.callbacks :=
    fun k callback found uses => (inv.owned _ (inv.flying k callback found (Callback.uses_inFlight uses))).2
  refine ⟨fun i c context => (inv.linked i c context).2.1,owned,fun k c t found oneShot taken => ?_⟩
  simp only [step,found,Option.bind_some,timerCallback,oneShot,if_true] at taken
  split at taken
  next =>
    cases taken
    refine ⟨_,owned k _ found rfl,?_,fun j other => setObject_other (s.goto k _) _ other⟩
    exact congrArg Object.running (setObject_self (s.goto k _) _ _)
  next => contradiction

theorem take_none {s t : State} {i other : Nat} (object : Object) (linked : Linked t) (inv : Inv s)
    (different : i ≠ other) (objects : t.objects = (s.take i other object).objects) (contexts : t.contexts = s.contexts) :
    (s.objects other).context = none := by
  have taken : (t.objects i).context = (s.objects other).context := by
    rw [objects,State.take,setObject_self]
  have owner := linked.owner
  rw [contexts] at owner
  exact moved_none (fun j c own => (inv.linked j c own).2.1) different taken owner

theorem unlinked (s : State) (label : Label) (t : State) (inv : Inv s) (loaded : ¬ NullSource s label)
    (taken : step s label = some t) : ¬ Linked t := by
  intro linked
  refine loaded ⟨fun i other same => ?_,fun created i other same control => ?_⟩
  · subst same
    simp only [step] at taken
    split at taken
    next ready =>
      have different : i ≠ other := by
        rintro rfl
        exact Bool.false_ne_true (ready.2.1.symm.trans ready.2.2)
      cases taken
      exact take_none .new linked inv different rfl rfl
    next => contradiction
  · subst same
    have apart := inv.control
    rw [control] at apart
    simp only [step,advance,control] at taken
    cases taken
    exact take_none (s.objects i) linked inv apart.1 rfl rfl

end Ezthread.Timer

namespace Ezthread.Work
open Transition Activation Callbacks

/-- A callback that uses a context refers to its owner. -/
def Owned (s : State) : Prop :=
  Every (fun _ callback => callback.uses = true →
    (s.objects (s.contexts callback.context).self).context = some callback.context) s.callbacks

/-- A context refers to the work that owns it, and a callback that uses a context to its
owner, so that a callback completes that work, notifies its waiters and touches no
other. -/
structure Linked (s : State) : Prop where
  owner : ∀ i c, (s.objects i).context = some c → (s.contexts c).self = i
  owned : Owned s
  finishing : ∀ (k c : Nat) (t : State), s.callbacks[k]? = some ⟨c,.running⟩ → step s (.callback k) = some t →
    ∃ i, (s.objects i).context = some c ∧ (t.objects i).complete = true ∧ t.waiters = notifyAll i s.waiters ∧
      ∀ j, j ≠ i → t.objects j = s.objects j

/-- What a move takes over has no context, and no callback uses the one that a move or
the destructor frees. -/
def Movable (s : State) (label : Label) : Prop :=
  (∀ i other, label = .moveConstruct i other ∨ (label = .moveAssign i other ∧ i ≠ other) →
    (s.objects other).context = none) ∧
  (∀ (i k : Nat) (callback : Callback), label = .destroy i ∨ (∃ other, label = .moveAssign i other ∧ i ≠ other) →
    s.callbacks[k]? = some callback → callback.uses = true → (s.objects i).context ≠ some callback.context)

def Linkable (s : State) : Prop :=
  Refers (fun i => (s.objects i).context) (fun c => (s.contexts c).self) s.made

structure Pointed (s : State) : Prop where
  placed : Placed s
  linkable : Linkable s
  owned : Owned s

theorem linked (s : State) (pointed : Pointed s) : Linked s := by
  refine ⟨pointed.linkable.owner,pointed.owned,fun k c t found taken => ?_⟩
  simp only [step,found,Option.bind_some,workCallback] at taken
  split at taken
  next =>
    cases taken
    refine ⟨_,pointed.owned k _ found rfl,?_,rfl,fun j other => setObject_other (s.goto k _) _ other⟩
    exact congrArg Object.complete (setObject_self (s.goto k _) _ _)
  next => contradiction

theorem linkable_setObject {s : State} {i : Nat} {object : Object} (linkable : Linkable s)
    (shrinks : object.context = none ∨ object.context = (s.objects i).context) : Linkable (s.setObject i object) :=
  linkable.shrink (update_shrinks Object.context s.objects i object shrinks)

theorem linkable_take {s : State} {i other : Nat} {object : Object} (linkable : Linkable s)
    (source : (s.objects other).context = none) : Linkable (s.take i other object) :=
  linkable_setObject (linkable_setObject linkable (Or.inl rfl)) (Or.inl source)

theorem linkable_prepare {s : State} {i : Nat} (linkable : Linkable s) : Linkable (prepare s i) :=
  linkable.make (congrArg Object.context (setObject_self s i _))
    (fun _ other => congrArg Object.context (setObject_other s _ other))
    (congrArg WorkContext.self (Function.update_self s.made _ s.contexts))
    (fun _ older => congrArg WorkContext.self (Function.update_of_ne (Nat.ne_of_lt older) _ _))

theorem linkable_step (s : State) (label : Label) (t : State) (linkable : Linkable s) (movable : Movable s label)
    (taken : step s label = some t) : Linkable t := by
  cases step_moves s label t taken with
  | construct | destroy | createFails | close => exact linkable_setObject linkable (Or.inl rfl)
  | moveConstruct i other idle absent present => exact linkable_take linkable (movable.1 i other (Or.inl rfl))
  | moveAssign i other idle alive present different =>
    exact linkable_take linkable (movable.1 i other (Or.inr ⟨rfl,different⟩))
  | submit i idle alive unsubmitted => exact linkable_prepare linkable
  | create | finish => exact linkable_setObject linkable (Or.inr rfl)
  | complete k c i found self unlocked | unlock k c i found =>
    exact linkable_setObject (s := s.goto k _) linkable (Or.inr rfl)
  | assignSelf | refuse | cancel | queue | cancelQueued | drain | run | wait | pass | sleep | wake | timeout | giveUp =>
    exact linkable

/-- An object keeps its context, or lets go of one that no callback uses. -/
theorem owned_setObject {s : State} {i : Nat} {object : Object} (owned : Owned s)
    (keeps : object.context = (s.objects i).context ∨ ∀ (k : Nat) (callback : Callback), s.callbacks[k]? = some callback →
      callback.uses = true → (s.objects i).context ≠ some callback.context) : Owned (s.setObject i object) := by
  intro k callback found uses
  have own := owned k callback found uses
  by_cases same : (s.contexts callback.context).self = i
  · subst same
    rcases keeps with same | unused
    · exact (congrArg Object.context (setObject_self s _ object)).trans (same.trans own)
    · exact absurd own (unused k callback found uses)
  · exact (congrArg Object.context (setObject_other s object same)).trans own

theorem owned_take {s : State} {i other : Nat} {object : Object} (owned : Owned s) (source : (s.objects other).context = none)
    (unused : ∀ (k : Nat) (callback : Callback), s.callbacks[k]? = some callback → callback.uses = true →
      (s.objects i).context ≠ some callback.context) : Owned (s.take i other object) := by
  refine owned_setObject (owned_setObject owned (Or.inl source.symm)) (Or.inr fun k callback found uses => ?_)
  rw [setObject_keeps Object.context s other _ source.symm i]
  exact unused k callback found uses

theorem owned_settle {s t : State} (owned : Owned s) (settles : Settles s.callbacks t.callbacks)
    (contexts : t.contexts = s.contexts) (context : ∀ i, (t.objects i).context = (s.objects i).context) : Owned t := by
  intro k callback found uses
  obtain ⟨old,present,follows⟩ := settles k callback found
  rw [contexts,context,follows.context]
  exact owned k old present (follows.uses uses)

theorem owned_prepare {s : State} {i : Nat} (placed : Placed s) (owned : Owned s) (contextless : (s.objects i).context = none) :
    Owned (prepare s i) := by
  intro k callback found uses
  have own := owned k callback found uses
  have older : (prepare s i).contexts callback.context = s.contexts callback.context :=
    Function.update_of_ne (Nat.ne_of_lt (placed.made k callback found)) ..
  have different : (s.contexts callback.context).self ≠ i := by
    intro same
    rw [same,contextless] at own
    contradiction
  rw [older]
  exact (congrArg Object.context (setObject_other s _ different)).trans own

theorem owned_queue {s : State} {i c : Nat} (linkable : Linkable s) (owned : Owned s) (control : Control)
    (context : (s.objects i).context = some c) :
    Owned {s with callbacks := s.callbacks ++ [⟨c,.queued⟩], control := control} := by
  refine Every.append owned fun _ => ?_
  change (s.objects (s.contexts c).self).context = some c
  rw [linkable.owner i c context]
  exact context

theorem owned_step (s : State) (label : Label) (t : State) (pointed : Pointed s) (movable : Movable s label)
    (taken : step s label = some t) : Owned t := by
  obtain ⟨placed,linkable,owned⟩ := pointed
  have fact := placed.control
  have absents {i : Nat} (absent : (s.objects i).alive = false) (k : Nat) (callback : Callback)
      (_ : s.callbacks[k]? = some callback) (_ : callback.uses = true) : (s.objects i).context ≠ some callback.context := by
    rw [placed.absent absent]
    simp
  cases step_moves s label t taken with
  | construct i idle absent => exact owned_setObject owned (Or.inr (absents absent))
  | moveConstruct i other idle absent present =>
    exact owned_take owned (movable.1 i other (Or.inl rfl)) (absents absent)
  | moveAssign i other idle alive present different =>
    refine owned_take owned (movable.1 i other (Or.inr ⟨rfl,different⟩)) fun k callback => ?_
    exact movable.2 i k callback (Or.inr ⟨other,rfl,different⟩)
  | destroy i idle alive => exact owned_setObject owned (Or.inr fun k callback => movable.2 i k callback (Or.inl rfl))
  | submit i idle alive unsubmitted => exact owned_prepare placed owned (placed.contextless idle unsubmitted)
  | createFails i control =>
    rw [control] at fact
    obtain ⟨_,c,context,_,_,_,fresh⟩ := fact
    refine owned_setObject owned (Or.inr fun k callback found _ own => ?_)
    exact fresh k callback found (Option.some.inj (own.symm.trans context))
  | close created i control =>
    rw [control] at fact
    obtain ⟨c,work,quiet⟩ := fact
    have context := (placed.whole i (by simp [control])).symm.trans work
    refine owned_setObject owned (Or.inr fun k callback found uses own => ?_)
    have silent := quiet k callback found (Option.some.inj (own.symm.trans context))
    exact Bool.false_ne_true (silent.symm.trans (Callback.uses_inFlight uses))
  | create | finish => exact owned_setObject owned (Or.inl rfl)
  | queue created i c control work =>
    exact owned_queue linkable owned .idle ((placed.whole i (by simp [control])).symm.trans work)
  | cancelQueued created i c control work => exact owned_settle owned settles_cancel rfl fun _ => rfl
  | run k c found =>
    have settles : Settles s.callbacks (s.callbacks.set k ⟨c,.running⟩) := settles_set found .run
    exact owned_settle owned settles rfl fun _ => rfl
  | complete k c i found self unlocked =>
    have settles : Settles s.callbacks (s.callbacks.set k ⟨c,.unlocking i⟩) := settles_set found .lock
    exact owned_settle owned settles rfl (setObject_keeps Object.context (s.goto k ⟨c,.unlocking i⟩) i _ (by rfl))
  | unlock k c i found =>
    have settles : Settles s.callbacks (s.callbacks.set k ⟨c,.ended⟩) := settles_set found .finish
    exact owned_settle owned settles rfl (setObject_keeps Object.context (s.goto k ⟨c,.ended⟩) i _ (by rfl))
  | assignSelf | refuse | cancel | drain | wait | pass | sleep | wake | timeout | giveUp => exact owned

theorem pointed_step (s : State) (label : Label) (t : State) (pointed : Pointed s) (movable : Movable s label)
    (taken : step s label = some t) : Pointed t :=
  ⟨placed_step s label t pointed.placed taken,linkable_step s label t pointed.linkable movable taken,
    owned_step s label t pointed movable taken⟩

theorem take_none {s t : State} {i other : Nat} (object : Object) (linked : Linked t) (linkable : Linkable s)
    (different : i ≠ other) (objects : t.objects = (s.take i other object).objects) (contexts : t.contexts = s.contexts) :
    (s.objects other).context = none := by
  have taken : (t.objects i).context = (s.objects other).context := by
    rw [objects,State.take,setObject_self]
  have owner := linked.owner
  rw [contexts] at owner
  exact moved_none linkable.owner different taken owner

theorem released {s t : State} {i k : Nat} {callback : Callback} (linked : Linked t) (linkable : Linkable s)
    (callbacks : t.callbacks = s.callbacks) (contexts : t.contexts = s.contexts) (context : (t.objects i).context = none)
    (found : s.callbacks[k]? = some callback) (uses : callback.uses = true) : (s.objects i).context ≠ some callback.context := by
  intro own
  have after := linked.owned k callback (callbacks ▸ found) uses
  rw [contexts,linkable.owner i callback.context own,context] at after
  contradiction

theorem unlinked (s : State) (label : Label) (t : State) (pointed : Pointed s) (loaded : ¬ Movable s label)
    (taken : step s label = some t) : ¬ Linked t := by
  intro linked
  have source (i other : Nat) (given : label = .moveConstruct i other ∨ (label = .moveAssign i other ∧ i ≠ other)) :
      (s.objects other).context = none := by
    rcases given with rfl | ⟨rfl,different⟩
    · simp only [step] at taken
      split at taken
      next ready =>
        have different : i ≠ other := by
          rintro rfl
          exact Bool.false_ne_true (ready.2.1.symm.trans ready.2.2)
        cases taken
        exact take_none .new linked pointed.linkable different rfl rfl
      next => contradiction
    · simp only [step,if_neg different] at taken
      split at taken
      next =>
        cases taken
        exact take_none (s.objects i) linked pointed.linkable different rfl rfl
      next => contradiction
  refine loaded ⟨source,fun i k callback given found uses => ?_⟩
  rcases given with rfl | ⟨other,rfl,different⟩
  · simp only [step] at taken
    split at taken
    next =>
      cases taken
      exact released linked pointed.linkable rfl rfl (congrArg Object.context (setObject_self s i .absent)) found uses
    next => contradiction
  · have empty := source i other (Or.inr ⟨rfl,different⟩)
    simp only [step,if_neg different] at taken
    split at taken
    next =>
      cases taken
      refine released linked pointed.linkable rfl rfl ?_ found uses
      exact (congrArg Object.context (setObject_self _ i _)).trans empty
    next => contradiction

theorem pointed_init : Pointed init :=
  ⟨placed_init,⟨by simp [init,Object.absent],by simp [init,Object.absent]⟩,Every.nil _⟩

end Ezthread.Work

namespace Ezthread
open Transition

/-- Timers and works are referred to by the contexts they own, and by the callbacks that
use these, all along a run if and only if none is moved while it has a context, and no
work is destroyed or moved over while a callback uses its context. -/
theorem linked_iff_movable {timers : List Timer.Label} {works : List Work.Label} {s : Timer.State} {t : Work.State}
    (timed : run Timer.step Timer.init timers = some s) (worked : run Work.step Work.init works = some t) :
    (Along Timer.step Timer.Linked Timer.init timers ↔ Obeys Timer.step Timer.NullSource Timer.init timers) ∧
    (Along Work.step Work.Linked Work.init works ↔ Obeys Work.step Work.Movable Work.init works) :=
  ⟨along_iff_obeys Timer.inv_step Timer.linked Timer.unlinked Timer.inv_init timed,
    along_iff_obeys Work.pointed_step Work.linked Work.unlinked Work.pointed_init worked⟩

/-- A timer and a work are moved after their callbacks have ended. -/
theorem linked_iff_movable_stopped :
    ∃ s t, run Timer.step Timer.init [.construct 0,Timer.setOneShot 0 true,.control false,.control false,.control true,
        .control false,.control false,.stop 0,.control false,.control false,.control false,.control false,.control false,
        .moveConstruct 1 0] = some s ∧
      run Work.step Work.init [.construct 0,.submit 0,.control true,.control true,.callback 0,.callback 0,.callback 0,
        .cancel 0,.control false,.control false,.control false,.control false,.moveConstruct 1 0] = some t ∧
      (Along Timer.step Timer.Linked Timer.init [.construct 0,Timer.setOneShot 0 true,.control false,.control false,
          .control true,.control false,.control false,.stop 0,.control false,.control false,.control false,.control false,
          .control false,.moveConstruct 1 0] ↔
        Obeys Timer.step Timer.NullSource Timer.init [.construct 0,Timer.setOneShot 0 true,.control false,.control false,
          .control true,.control false,.control false,.stop 0,.control false,.control false,.control false,.control false,
          .control false,.moveConstruct 1 0]) := by
  obtain ⟨s,timed⟩ : ∃ s, run Timer.step Timer.init [.construct 0,Timer.setOneShot 0 true,.control false,.control false,
      .control true,.control false,.control false,.stop 0,.control false,.control false,.control false,.control false,
      .control false,.moveConstruct 1 0] = some s := ⟨_,rfl⟩
  obtain ⟨t,worked⟩ : ∃ t, run Work.step Work.init [.construct 0,.submit 0,.control true,.control true,.callback 0,
      .callback 0,.callback 0,.cancel 0,.control false,.control false,.control false,.control false,
      .moveConstruct 1 0] = some t := ⟨_,rfl⟩
  exact ⟨s,t,timed,worked,(linked_iff_movable timed worked).1⟩

/-- A one-shot timer and a work are moved before their callbacks end, which then clear
and complete the object left behind. -/
theorem moves_leave_pointers :
    (∃ s, run Timer.step Timer.init [.construct 0,Timer.setOneShot 0 true,.control false,.control false,.control true,
        .control false,.control false,.fire 0,.callback 0,.moveConstruct 1 0,.callback 0,.callback 0] = some s ∧
      (s.objects 1).context = some 0 ∧ (s.objects 1).running = true ∧ s.callbacks = [⟨0,.ended⟩] ∧ ¬ Timer.Linked s) ∧
    ∃ t, run Work.step Work.init [.construct 0,.construct 1,.submit 0,.control true,.control true,.moveAssign 1 0,
        .wait 1 Work.INFINITE,.test 0,.callback 0,.callback 0,.callback 0] = some t ∧
      (t.objects 0).complete = true ∧ (t.objects 1).complete = false ∧ t.callbacks = [⟨0,.ended⟩] ∧
      t.waiters = [⟨1,Work.INFINITE,.asleep false⟩] ∧ ¬ Work.Linked t := by
  constructor
  · exact ⟨_,rfl,rfl,rfl,rfl,fun linked => absurd (linked.owner 1 0 rfl) (by decide)⟩
  · exact ⟨_,rfl,rfl,rfl,rfl,rfl,fun linked => absurd (linked.owner 1 0 rfl) (by decide)⟩

end Ezthread
