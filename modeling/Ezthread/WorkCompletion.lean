import Ezthread.BackPointers

/-! When `m_complete` of a work that is not moved tells whether its functions are over,
and what `Wait` then does. -/
namespace Ezthread.Work
open Transition Activation Callbacks

/-- The object of the call in progress. -/
def Control.object : Control → Option Nat
  | .idle => none
  | .creating i | .submitting i | .cancelling i _ => some i

/-- A function submitted to the work is queued or running, until its callback has the
mutex. -/
def Outstanding (s : State) (i : Nat) : Prop :=
  ∃ (k : Nat) (callback : Callback), s.callbacks[k]? = some callback ∧ callback.uses = true ∧
    (s.contexts callback.context).self = i

/-- Submitted to before, and with no call at work on it. -/
def Resting (s : State) (i : Nat) : Prop := (s.objects i).submitted = true ∧ s.control.object ≠ some i

/-- The flag is right about every work at rest, `Wait` sleeps there only while a
function is outstanding, and returns just when none is. -/
structure Settled (s : State) : Prop where
  told : ∀ i, Resting s i → ((s.objects i).complete = true ↔ ¬ Outstanding s i)
  asleep : ∀ (i j : Nat) (timeoutMs : DWORD), Resting s i → s.waiters[j]? = some ⟨i,timeoutMs,.asleep false⟩ → Outstanding s i
  returns : ∀ (i j : Nat) (timeoutMs : DWORD) (t : State), Resting s i → s.waiters[j]? = some ⟨i,timeoutMs,.testing⟩ →
    step s (.test j) = some t → (t.waiters[j]? = some ⟨i,timeoutMs,.returned⟩ ↔ ¬ Outstanding s i)

/-- Neither moves nor destroys. -/
def Label.stays : Label → Bool
  | .moveConstruct _ _ | .moveAssign _ _ | .destroy _ => false
  | _ => true

/-- No creation of the pool's work fails. -/
def Creates (s : State) (label : Label) : Prop := ∀ i, label = .control false → s.control ≠ .creating i

/-- Each callback is of a context of its own. -/
structure Shape (s : State) : Prop where
  single : ∀ (k j : Nat) (a b : Callback), s.callbacks[k]? = some a → s.callbacks[j]? = some b → a.context = b.context → k = j
  unqueued : ∀ i c, s.control = .submitting i → (s.objects i).work = some c →
    Every (fun _ callback => callback.context ≠ c) s.callbacks
  emptied : ∀ i, s.control = .cancelling i .finish → (s.objects i).context = none

/-- Who sleeps without having been notified sleeps before a flag that is down. -/
def Drowsy (s : State) : Prop :=
  Every (fun _ waiter => waiter.point = .asleep false → (s.objects waiter.object).complete = false) s.waiters

structure Known (s : State) : Prop extends Pointed s where
  shape : Shape s
  pending : ∀ i, s.control = .creating i ∨ s.control = .submitting i →
    (s.objects i).complete = false ∧ (s.objects i).submitted = true
  told : ∀ i, Resting s i → ((s.objects i).complete = true ↔ ¬ Outstanding s i)
  drowsy : Drowsy s

theorem Pointed.context {s : State} (pointed : Pointed s) {k i : Nat} {callback : Callback} (found : s.callbacks[k]? = some callback)
    (uses : callback.uses = true) (self : (s.contexts callback.context).self = i) :
    (s.objects i).context = some callback.context :=
  self ▸ pointed.owned k callback found uses

theorem movable {s : State} {label : Label} (stays : label.stays = true) : Movable s label := by
  constructor
  · rintro i other (rfl | ⟨rfl,_⟩) <;> contradiction
  · rintro i k callback (rfl | ⟨other,rfl,_⟩) <;> contradiction

theorem Shape.keep {s t : State} (shape : Shape s) (settles : Settles s.callbacks t.callbacks)
    (unqueued : ∀ i c, t.control = .submitting i → (t.objects i).work = some c →
      Every (fun _ callback => callback.context ≠ c) t.callbacks)
    (emptied : ∀ i, t.control = .cancelling i .finish → (t.objects i).context = none) : Shape t := by
  refine ⟨fun k j a b first second same => ?_,unqueued,emptied⟩
  obtain ⟨old,present,follows⟩ := settles k a first
  obtain ⟨other,found,comes⟩ := settles j b second
  exact shape.single k j old other present found (follows.context.symm.trans (same.trans comes.context))

theorem shape_queue {s : State} {i c : Nat} (shape : Shape s) (control : s.control = .submitting i)
    (work : (s.objects i).work = some c) : Shape {s with callbacks := s.callbacks ++ [⟨c,.queued⟩], control := .idle} := by
  have fresh := shape.unqueued i c control work
  refine ⟨fun k j a b first second same => ?_,by simp,by simp⟩
  rcases get_append first with earlier | ⟨rfl,rfl⟩ <;> rcases get_append second with present | ⟨rfl,rfl⟩
  · exact shape.single k j a b earlier present same
  · exact absurd same (fresh k a earlier)
  · exact absurd same.symm (fresh j b present)
  · rfl

theorem Shape.callback {s t : State} {k c : Nat} {before : Point} (shape : Shape s) (found : s.callbacks[k]? = some ⟨c,before⟩)
    (after : Point) (follows : Follows ⟨c,before⟩ ⟨c,after⟩) (callbacks : t.callbacks = s.callbacks.set k ⟨c,after⟩)
    (control : t.control = s.control) (work : ∀ i, (t.objects i).work = (s.objects i).work)
    (context : ∀ i, (t.objects i).context = (s.objects i).context) : Shape t := by
  have settles : Settles s.callbacks t.callbacks := callbacks ▸ settles_set found follows
  refine shape.keep settles (fun i d submits own => ?_) fun i finishes => ?_
  · rw [control] at submits
    exact settles.contexts (fun e => e ≠ d) (shape.unqueued i d submits ((work i).symm.trans own))
  · rw [control] at finishes
    exact (context i).trans (shape.emptied i finishes)

theorem shape_step (s : State) (label : Label) (t : State) (shape : Shape s) (placed : Placed s) (stays : label.stays = true)
    (creates : Creates s label) (taken : step s label = some t) : Shape t := by
  have fact := placed.control
  cases step_moves s label t taken with
  | moveConstruct | moveAssign | assignSelf | destroy => contradiction
  | createFails i control => exact absurd control (creates i rfl)
  | refuse i => exact shape
  | construct i idle absent =>
    exact shape.keep (.refl _) (fun j c control => absurd (idle.symm.trans control) (by simp))
      fun j control => absurd (idle.symm.trans control) (by simp)
  | submit i idle alive unsubmitted => exact shape.keep (.refl _) (by simp [prepare]) (by simp [prepare])
  | cancel i idle alive phase begins =>
    refine shape.keep (.refl _) (by simp) fun j control => ?_
    cases control
    refine (placed.whole i (by simp [idle])).symm.trans ?_
    by_contra work
    obtain ⟨c,work⟩ := Option.ne_none_iff_exists'.mp work
    simp [work] at begins
  | create i control =>
    rw [control] at fact
    obtain ⟨_,c,context,_,_,_,fresh⟩ := fact
    refine shape.keep (.refl _) (fun j d control work => ?_) (by simp)
    cases control
    obtain rfl : c = d := Option.some.inj (context.symm.trans ((congrArg Object.work (setObject_self s i _)).symm.trans work))
    exact fresh
  | queue created i c control work => exact shape_queue shape control work
  | cancelQueued created i c control work => exact shape.keep settles_cancel (by simp) (by simp)
  | drain created i c control work drained => exact shape.keep (.refl _) (by simp) (by simp)
  | close created i control =>
    refine shape.keep (.refl _) (by simp) fun j control => ?_
    cases control
    exact congrArg Object.context (setObject_self s i _)
  | finish created i control unlocked => exact shape.keep (.refl _) (by simp) (by simp)
  | run k c found =>
    exact shape.callback found .running .run rfl rfl
      (fun _ => rfl) fun _ => rfl
  | complete k c i found self unlocked =>
    exact shape.callback found (.unlocking i) .lock rfl rfl
      (setObject_keeps Object.work (s.goto k ⟨c,.unlocking i⟩) i _ (by rfl))
      (setObject_keeps Object.context (s.goto k ⟨c,.unlocking i⟩) i _ (by rfl))
  | unlock k c i found =>
    exact shape.callback found .ended .finish rfl rfl
      (setObject_keeps Object.work (s.goto k ⟨c,.ended⟩) i _ (by rfl))
      (setObject_keeps Object.context (s.goto k ⟨c,.ended⟩) i _ (by rfl))
  | wait | pass | sleep | wake | timeout | giveUp => exact ⟨shape.single,shape.unqueued,shape.emptied⟩

theorem outstanding_keep {s t : State} (placed : Placed s) (callbacks : t.callbacks = s.callbacks)
    (contexts : ∀ c, c < s.made → t.contexts c = s.contexts c) (i : Nat) : Outstanding t i ↔ Outstanding s i := by
  unfold Outstanding
  rw [callbacks]
  refine exists_congr fun k => exists_congr fun callback => and_congr_right fun found => and_congr_right fun _ => ?_
  rw [contexts callback.context (placed.made k callback found)]

theorem outstanding_goto {s : State} {k i : Nat} {old : Callback} (new : Callback) (found : s.callbacks[k]? = some old)
    (context : new.context = old.context) (same : (s.contexts old.context).self = i → new.uses = old.uses) :
    Outstanding (s.goto k new) i ↔ Outstanding s i := by
  constructor
  · intro given
    obtain ⟨j,callback,present,uses,self⟩ := given
    rcases get_set present with ⟨rfl,rfl⟩ | ⟨_,kept⟩
    · change (s.contexts callback.context).self = i at self
      rw [context] at self
      exact ⟨j,old,found,(same self).symm.trans uses,self⟩
    · exact ⟨j,callback,kept,uses,self⟩
  · intro given
    obtain ⟨j,callback,present,uses,self⟩ := given
    by_cases own : j = k
    · subst own
      obtain rfl : old = callback := Option.some.inj (found.symm.trans present)
      refine ⟨j,new,get_self found,(same self).trans uses,?_⟩
      rw [context]
      exact self
    · exact ⟨j,callback,(List.getElem?_set_ne (Ne.symm own)).trans present,uses,self⟩

theorem outstanding_cancel {s : State} {c i : Nat} (other : (s.contexts c).self ≠ i) (control : Control) :
    Outstanding {s with callbacks := Callbacks.cancel c s.callbacks, control := control} i ↔ Outstanding s i := by
  constructor
  · intro given
    obtain ⟨k,callback,found,uses,self⟩ := given
    rcases get_cancel found with ⟨_,rfl⟩ | ⟨present,_⟩
    · simp [Callback.uses] at uses
    · exact ⟨k,callback,present,uses,self⟩
  · intro given
    obtain ⟨k,callback,found,uses,self⟩ := given
    refine ⟨k,callback,get_cancel_other found ?_,uses,self⟩
    rintro rfl
    exact other self

theorem outstanding_queue {s : State} {c i : Nat} (other : (s.contexts c).self ≠ i) (control : Control) :
    Outstanding {s with callbacks := s.callbacks ++ [⟨c,.queued⟩], control := control} i ↔ Outstanding s i := by
  constructor
  · intro given
    obtain ⟨k,callback,found,uses,self⟩ := given
    rcases get_append found with present | ⟨_,rfl⟩
    · exact ⟨k,callback,present,uses,self⟩
    · exact absurd self other
  · intro given
    obtain ⟨k,callback,found,uses,self⟩ := given
    exact ⟨k,callback,get_grows found,uses,self⟩

/-- Every sleeper on the object has been notified. -/
theorem notified {i j : Nat} {waiters : List Waiter} {waiter : Waiter} (found : (notifyAll i waiters)[j]? = some waiter)
    (asleep : waiter.point = .asleep false) : waiter.object ≠ i ∧ waiters[j]? = some waiter := by
  rw [notifyAll,List.getElem?_map] at found
  obtain ⟨before,present,rfl⟩ := Option.map_eq_some_iff.mp found
  unfold Waiter.notify at asleep ⊢
  split at asleep
  next => simp at asleep
  next other =>
    rw [if_neg other]
    exact ⟨fun same => other ⟨same,asleep⟩,present⟩

theorem Resting.ne {t : State} {i j : Nat} (resting : Resting t j) (object : t.control.object = some i) : j ≠ i := by
  rintro rfl
  exact resting.2 object

theorem told_keep {s t : State} {i : Nat} (known : Known s) (submitted : (t.objects i).submitted = (s.objects i).submitted)
    (complete : (t.objects i).complete = (s.objects i).complete) (outstanding : Outstanding t i ↔ Outstanding s i)
    (rests : s.control.object ≠ some i) (resting : Resting t i) :
    ((t.objects i).complete = true ↔ ¬ Outstanding t i) := by
  rw [complete,outstanding]
  exact known.told i ⟨submitted.symm.trans resting.1,rests⟩

theorem told_step (s : State) (label : Label) (t : State) (known : Known s) (stays : label.stays = true)
    (creates : Creates s label) (taken : step s label = some t) :
    ∀ i, Resting t i → ((t.objects i).complete = true ↔ ¬ Outstanding t i) := by
  intro j resting
  have rests (control : s.control = .idle) : s.control.object ≠ some j := by simp [control,Control.object]
  have foreign {i : Nat} (object : s.control.object = some i) (other : j ≠ i) : s.control.object ≠ some j := by
    rw [object]
    exact fun same => other (Option.some.inj same).symm
  have away {i : Nat} {object : Object} (other : j ≠ i) : (s.setObject i object).objects j = s.objects j :=
    setObject_other s object other
  have alone {c : Nat} (context : (s.objects j).context = some c) {k : Nat} (callback : Callback)
      (found : s.callbacks[k]? = some callback) (uses : callback.uses = true) (self : (s.contexts callback.context).self = j) :
      callback.context = c :=
    (Option.some.inj (context.symm.trans (known.toPointed.context found uses self))).symm
  cases step_moves s label t taken with
  | moveConstruct | moveAssign | assignSelf | destroy => contradiction
  | createFails i control => exact absurd control (creates i rfl)
  | refuse i => exact known.told j resting
  | construct i idle absent =>
    by_cases own : j = i
    · subst own
      exact absurd ((congrArg Object.submitted (setObject_self s j .new)).symm.trans resting.1) (by simp [Object.new])
    · exact told_keep known (congrArg Object.submitted (away own)) (congrArg Object.complete (away own))
        (outstanding_keep known.placed rfl (fun _ _ => rfl) j) (rests idle) resting
  | submit i idle alive unsubmitted =>
    have other := resting.ne (i := i) rfl
    exact told_keep known (congrArg Object.submitted (away other)) (congrArg Object.complete (away other))
      (outstanding_keep (t := prepare s i) known.placed rfl (fun c before => Function.update_of_ne (Nat.ne_of_lt before) ..) j) (rests idle) resting
  | cancel i idle alive phase begins =>
    exact told_keep known rfl rfl (outstanding_keep known.placed rfl (fun _ _ => rfl) j) (rests idle) resting
  | create i control =>
    have other := resting.ne (i := i) rfl
    exact told_keep known (congrArg Object.submitted (away other)) (congrArg Object.complete (away other))
      (outstanding_keep known.placed rfl (fun _ _ => rfl) j) (foreign (by rw [control]; rfl) other) resting
  | queue created i c control work =>
    have context : (s.objects i).context = some c := (known.placed.whole i (by simp [control])).symm.trans work
    have self := known.linkable.owner i c context
    by_cases own : j = i
    · subst own
      have incomplete := (known.pending j (Or.inr control)).1
      refine iff_of_false (by simp [incomplete]) fun idle => idle ?_
      exact ⟨s.callbacks.length,⟨c,.queued⟩,List.getElem?_concat_length,rfl,self⟩
    · exact told_keep known rfl rfl (outstanding_queue (by rw [self]; exact Ne.symm own) _)
        (foreign (by rw [control]; rfl) own) resting
  | cancelQueued created i c control work =>
    have other := resting.ne (i := i) rfl
    have context : (s.objects i).context = some c := (known.placed.whole i (by simp [control])).symm.trans work
    have self := known.linkable.owner i c context
    exact told_keep known rfl rfl (outstanding_cancel (by rw [self]; exact Ne.symm other) _)
      (foreign (by rw [control]; rfl) other) resting
  | drain created i c control work drained =>
    have other := resting.ne (i := i) rfl
    exact told_keep known rfl rfl (outstanding_keep known.placed rfl (fun _ _ => rfl) j)
      (foreign (by rw [control]; rfl) other) resting
  | close created i control =>
    have other := resting.ne (i := i) rfl
    exact told_keep known (congrArg Object.submitted (away other)) (congrArg Object.complete (away other))
      (outstanding_keep known.placed rfl (fun _ _ => rfl) j) (foreign (by rw [control]; rfl) other) resting
  | finish created i control unlocked =>
    by_cases own : j = i
    · subst own
      refine iff_of_true (congrArg Object.complete (setObject_self s j {s.objects j with complete := true})) fun given => ?_
      obtain ⟨k,callback,found,uses,self⟩ := given
      have owned := known.toPointed.context found uses self
      rw [known.shape.emptied j control] at owned
      contradiction
    · exact told_keep known (congrArg Object.submitted (away own)) (congrArg Object.complete (away own))
        (outstanding_keep known.placed rfl (fun _ _ => rfl) j) (foreign (by rw [control]; rfl) own) resting
  | run k c found =>
    exact told_keep known rfl rfl (outstanding_goto ⟨c,.running⟩ found rfl fun _ => rfl) resting.2 resting
  | complete k c i found self unlocked =>
    by_cases own : j = i
    · subst own
      refine iff_of_true (congrArg Object.complete (setObject_self (s.goto k ⟨c,.unlocking j⟩) j
        {s.objects j with complete := true, mutex := some k})) fun given => ?_
      -- the one callback that may use the object's context is past its last use
      obtain ⟨l,callback,present,uses,owner⟩ := given
      rcases get_set present with ⟨_,rfl⟩ | ⟨different,kept⟩
      · simp [Callback.uses] at uses
      · exact different (known.shape.single l k callback _ kept found
          (alone (known.toPointed.context found rfl self) callback kept uses owner))
    · have moved : Outstanding (s.goto k ⟨c,.unlocking i⟩) j ↔ Outstanding s j :=
        outstanding_goto ⟨c,.unlocking i⟩ found rfl fun owner => absurd (owner.symm.trans self) own
      have same := setObject_other (s.goto k ⟨c,.unlocking i⟩) {s.objects i with complete := true, mutex := some k} own
      exact told_keep known (congrArg Object.submitted same) (congrArg Object.complete same) moved resting.2 resting
  | unlock k c i found =>
    have moved : Outstanding (s.goto k ⟨c,.ended⟩) j ↔ Outstanding s j := outstanding_goto ⟨c,.ended⟩ found rfl fun _ => rfl
    exact told_keep known (setObject_keeps Object.submitted (s.goto k ⟨c,.ended⟩) i _ (by rfl) j)
      (setObject_keeps Object.complete (s.goto k ⟨c,.ended⟩) i _ (by rfl) j) moved resting.2 resting
  | wait | pass | sleep | wake | timeout | giveUp => exact known.told j resting

/-- While a work is submitted its flag stays down, for no callback of it runs yet. -/
theorem pending_step (s : State) (label : Label) (t : State) (known : Known s) (stays : label.stays = true)
    (taken : step s label = some t) : ∀ i, t.control = .creating i ∨ t.control = .submitting i →
      (t.objects i).complete = false ∧ (t.objects i).submitted = true := by
  intro j busy
  have idles (idle : s.control = .idle) (same : t.control = s.control) : False := by
    rw [same,idle] at busy
    simp at busy
  cases step_moves s label t taken with
  | moveConstruct | moveAssign | assignSelf | destroy => contradiction
  | construct i idle absent => exact (idles idle rfl).elim
  | refuse i => exact known.pending j busy
  | submit i idle alive unsubmitted =>
    obtain rfl : i = j := by simpa [prepare] using busy
    have self := setObject_self s i {s.objects i with context := some s.made, complete := false, submitted := true}
    exact ⟨congrArg Object.complete self,congrArg Object.submitted self⟩
  | create i control =>
    obtain rfl : i = j := by simpa using busy
    obtain ⟨incomplete,submitted⟩ := known.pending i (Or.inl control)
    have self := setObject_self s i {s.objects i with work := (s.objects i).context}
    exact ⟨(congrArg Object.complete self).trans incomplete,(congrArg Object.submitted self).trans submitted⟩
  | cancel | queue | cancelQueued | drain | close | finish | createFails => simp at busy
  | run k c found => exact known.pending j busy
  | complete k c i found self unlocked =>
    have owned := known.toPointed.context found rfl self
    have other : j ≠ i := by
      rintro rfl
      have fact := known.placed.control
      rcases busy with creating | submitting
      · change s.control = .creating j at creating
        rw [creating] at fact
        obtain ⟨_,d,context,_,_,_,fresh⟩ := fact
        exact fresh k _ found (Option.some.inj (owned.symm.trans context))
      · change s.control = .submitting j at submitting
        have work := (known.placed.whole j (by simp [submitting])).trans owned
        exact known.shape.unqueued j c submitting work k _ found rfl
    have same := setObject_other (s.goto k ⟨c,.unlocking i⟩) {s.objects i with complete := true, mutex := some k} other
    obtain ⟨incomplete,submitted⟩ := known.pending j busy
    exact ⟨(congrArg Object.complete same).trans incomplete,(congrArg Object.submitted same).trans submitted⟩
  | unlock k c i found =>
    obtain ⟨incomplete,submitted⟩ := known.pending j busy
    exact ⟨(setObject_keeps Object.complete (s.goto k ⟨c,.ended⟩) i _ (by rfl) j).trans incomplete,
      (setObject_keeps Object.submitted (s.goto k ⟨c,.ended⟩) i _ (by rfl) j).trans submitted⟩
  | wait | pass | sleep | wake | timeout | giveUp => exact known.pending j busy

theorem drowsy_notify {s t : State} {i : Nat} (drowsy : Drowsy s)
    (objects : ∀ j, j ≠ i → (t.objects j).complete = (s.objects j).complete) (waiters : t.waiters = notifyAll i s.waiters) :
    Drowsy t := by
  intro j waiter found asleep
  rw [waiters] at found
  obtain ⟨other,present⟩ := notified found asleep
  exact (objects _ other).trans (drowsy j waiter present asleep)

theorem Drowsy.keep {s t : State} (drowsy : Drowsy s)
    (objects : ∀ j, (s.objects j).complete = false → (t.objects j).complete = false) (waiters : t.waiters = s.waiters) :
    Drowsy t := by
  intro j waiter found asleep
  rw [waiters] at found
  exact objects _ (drowsy j waiter found asleep)

theorem drowsy_step (s : State) (label : Label) (t : State) (drowsy : Drowsy s) (stays : label.stays = true)
    (taken : step s label = some t) : Drowsy t := by
  have lowered {i : Nat} {object : Object} (low : object.complete = false) (j : Nat) (before : (s.objects j).complete = false) :
      ((s.setObject i object).objects j).complete = false := by
    by_cases own : j = i
    · subst own
      exact (congrArg Object.complete (setObject_self s j object)).trans low
    · exact (congrArg Object.complete (setObject_other s object own)).trans before
  cases step_moves s label t taken with
  | moveConstruct | moveAssign | assignSelf | destroy => contradiction
  | construct i idle absent => exact drowsy.keep (lowered rfl) rfl
  | submit i idle alive unsubmitted => exact drowsy.keep (lowered rfl) rfl
  | create i control =>
    exact drowsy.keep (fun j => (setObject_keeps Object.complete s i {s.objects i with work := (s.objects i).context} rfl j).trans) rfl
  | createFails i control | close created i control =>
    exact drowsy.keep
      (fun j => (setObject_keeps Object.complete s i {s.objects i with work := none, context := none} rfl j).trans) rfl
  | refuse | cancel | queue | cancelQueued | drain | run => exact drowsy
  | finish created i control unlocked =>
    exact drowsy_notify drowsy (fun j other => congrArg Object.complete (setObject_other s _ other)) rfl
  | complete k c i found self unlocked =>
    exact drowsy_notify drowsy
      (fun j other => congrArg Object.complete (setObject_other (s.goto k ⟨c,.unlocking i⟩) _ other)) rfl
  | unlock k c i found =>
    exact drowsy.keep (fun j => (setObject_keeps Object.complete (s.goto k ⟨c,.ended⟩) i _ (by rfl) j).trans) rfl
  | wait i timeoutMs alive => exact Every.append drowsy (by simp)
  | sleep j i timeoutMs found incomplete => exact Every.set drowsy fun _ => incomplete
  | pass | wake | timeout | giveUp => exact Every.set drowsy (by simp)

theorem known_init : Known init :=
  ⟨pointed_init,⟨by simp [init],by simp [init],by simp [init]⟩,by simp [init],
    by simp [Resting,init,Object.absent],Every.nil _⟩

theorem known_step (s : State) (label : Label) (t : State) (known : Known s) (stays : label.stays = true)
    (creates : Creates s label) (taken : step s label = some t) : Known t :=
  ⟨pointed_step s label t known.toPointed (movable stays) taken,shape_step s label t known.shape known.placed stays creates taken,
    pending_step s label t known stays taken,told_step s label t known stays creates taken,
    drowsy_step s label t known.drowsy stays taken⟩

theorem settled (s : State) (known : Known s) : Settled s := by
  refine ⟨known.told,fun i j timeoutMs rests found => ?_,fun i j timeoutMs t rests found taken => ?_⟩
  · by_contra idle
    have complete := (known.told i rests).mpr idle
    exact Bool.false_ne_true ((known.drowsy j _ found rfl).symm.trans complete)
  · rw [← known.told i rests]
    simp only [step,found] at taken
    split at taken
    next =>
      cases taken
      simp only [State.resume,get_self found]
      cases (s.objects i).complete <;> simp
    next => contradiction

/-- A failed creation leaves the flag down with nothing outstanding. -/
theorem unsettled (s : State) (label : Label) (t : State) (known : Known s) (fails : ¬ Creates s label)
    (taken : step s label = some t) : ¬ Settled t := by
  intro settled
  refine fails fun i same control => ?_
  subst same
  obtain ⟨incomplete,submitted⟩ := known.pending i (Or.inl control)
  obtain ⟨_,c,context,_,_,_,fresh⟩ : Fact s (.creating i) := control ▸ known.placed.control
  simp only [step,advance,control,Bool.false_eq_true,if_false,Option.some.injEq] at taken
  subst taken
  have self := setObject_self s i {s.objects i with work := none, context := none}
  have told := settled.told i ⟨(congrArg Object.submitted self).trans submitted,by simp [Control.object]⟩
  have complete := told.mpr fun given => by
    obtain ⟨k,callback,found,uses,owner⟩ := given
    exact fresh k callback found (Option.some.inj ((known.toPointed.context found uses owner).symm.trans context))
  exact Bool.false_ne_true (incomplete.symm.trans ((congrArg Object.complete self).symm.trans complete))

/-- The flag and `Wait` are right about what is outstanding all along a run if and only
if no creation of a pool's work fails in it. -/
theorem settled_iff_creates {labels : List Label} {s : State} (stays : ∀ label ∈ labels, label.stays = true)
    (reached : run step init labels = some s) : Along step Settled init labels ↔ Obeys step Creates init labels :=
  along_iff_obeys_within Known known_step settled (fun s label t known _ => unsettled s label t known) known_init
    (obeys_of_labels (fun label member _ => stays label member) init) reached

/-- A work is submitted, cancelled while it runs, submitted again and waited for. -/
theorem settled_iff_creates_twice :
    ∃ s, run step init [.construct 0,.submit 0,.control true,.control true,.callback 0,.cancel 0,.control true,.callback 0,
        .callback 0,.control true,.control true,.control true,.submit 0,.control true,.control true,.wait 0 INFINITE,.test 0,
        .callback 1,.callback 1,.callback 1,.wake 0,.test 0] = some s ∧
      s.waiters = [⟨0,INFINITE,.returned⟩] ∧
      (Along step Settled init [.construct 0,.submit 0,.control true,.control true,.callback 0,.cancel 0,.control true,
          .callback 0,.callback 0,.control true,.control true,.control true,.submit 0,.control true,.control true,
          .wait 0 INFINITE,.test 0,.callback 1,.callback 1,.callback 1,.wake 0,.test 0] ↔
        Obeys step Creates init [.construct 0,.submit 0,.control true,.control true,.callback 0,.cancel 0,.control true,
          .callback 0,.callback 0,.control true,.control true,.control true,.submit 0,.control true,.control true,
          .wait 0 INFINITE,.test 0,.callback 1,.callback 1,.callback 1,.wake 0,.test 0]) := by
  obtain ⟨s,reached,returned⟩ : ∃ s, run step init [.construct 0,.submit 0,.control true,.control true,.callback 0,.cancel 0,
      .control true,.callback 0,.callback 0,.control true,.control true,.control true,.submit 0,.control true,.control true,
      .wait 0 INFINITE,.test 0,.callback 1,.callback 1,.callback 1,.wake 0,.test 0] = some s ∧
      s.waiters = [⟨0,INFINITE,.returned⟩] := ⟨_,rfl,rfl⟩
  exact ⟨s,reached,returned,settled_iff_creates (by decide) reached⟩

/-- The pool's work cannot be created: the flag says a function is outstanding, and
`Wait` sleeps with no one to wake it. -/
theorem waits_for_nothing :
    ∃ s, run step init [.construct 0,.submit 0,.control false,.wait 0 INFINITE,.test 0] = some s ∧
      s.control = .idle ∧ isComplete s 0 = some false ∧ s.callbacks = [] ∧
      s.waiters = [⟨0,INFINITE,.asleep false⟩] ∧ ¬ Settled s := by
  refine ⟨_,rfl,rfl,rfl,rfl,rfl,fun settled => ?_⟩
  obtain ⟨k,callback,found,_⟩ := settled.asleep 0 0 INFINITE ⟨rfl,by decide⟩ rfl
  exact absurd (show ([] : List Callback)[k]? = some callback from found) (by simp)

end Ezthread.Work
