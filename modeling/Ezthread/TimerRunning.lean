import Ezthread.TimerCallbacks

/-! What `IsRunning` says of a timer that is not moved, and when it is right. -/
namespace Ezthread.Timer
open Transition Activation Callbacks

/-- The object of the call in progress. -/
def Control.object : Control → Option Nat
  | .idle => none
  | .stopping i _ _ | .creating i _ _ | .arming i | .setting i | .destroying i | .assigning i _ => some i

/-- A timer was started and not stopped, and a one-shot one still has its callback to
finish. -/
def Started (s : State) (i : Nat) : Prop :=
  ∃ c, (s.objects i).started = some c ∧
    ((s.contexts c).isOneShot = true → ∀ k : Nat, s.callbacks[k]? ≠ some ⟨c,.ended⟩)

/-- `IsRunning` is right about every timer that no call is at work on. -/
def Faithful (s : State) : Prop :=
  ∀ (i : Nat) (b : Bool), s.control.object ≠ some i → isRunning s i = some b → (b = true ↔ Started s i)

/-- `Start` sets the flag of a one-shot timer before its callback has ended, and an
empty callback ends only while a call is at work on its timer. -/
def Orderly (s : State) (label : Label) : Prop :=
  (∀ (created : Bool) (i c k : Nat), label = .control created → s.control = .setting i →
    (s.objects i).context = some c → (s.contexts c).isOneShot = true → s.callbacks[k]? ≠ some ⟨c,.ended⟩) ∧
  (∀ k c : Nat, label = .callback k → s.callbacks[k]? = some ⟨c,.queued⟩ → (s.contexts c).cb = false →
    (s.contexts c).isOneShot = true → s.control.object = some (s.contexts c).timer)

/-- Has been inside the mutex, or has ended without. -/
def finished (callback : Callback) : Bool :=
  match callback.point with
  | .unlocking _ | .ended => true
  | _ => false

def Unfinished (c : Nat) (callbacks : List Callback) : Prop :=
  Every (fun _ callback => callback.context = c → finished callback = false) callbacks

/-- A one-shot timer fires once. -/
structure Shots (s : State) : Prop where
  single : ∀ (k j : Nat) (a b : Callback), s.callbacks[k]? = some a → s.callbacks[j]? = some b →
    a.context = b.context → (s.contexts a.context).isOneShot = true → k = j
  unfired : ∀ c, s.armed c = true → (s.contexts c).isOneShot = true → Every (fun _ callback => callback.context ≠ c) s.callbacks
  arming : ∀ i c, s.control = .arming i → (s.objects i).timer = some c →
    s.armed c = false ∧ Every (fun _ callback => callback.context ≠ c) s.callbacks

/-- The flag tells whether there is a timer with a callback still to come. -/
def Told (s : State) (i : Nat) : Prop :=
  (s.objects i).started = (s.objects i).context ∧
    ((s.objects i).running = true ↔ ∃ c, (s.objects i).context = some c ∧
      ((s.contexts c).isOneShot = true → Unfinished c s.callbacks))

/-- No call is at work on the object, or one that has stopped its timer. -/
def Resting (s : State) (i : Nat) : Prop :=
  s.control.object = some i → ∃ periodMs cb, s.control = .creating i periodMs cb

structure Known (s : State) : Prop extends Unmoved s where
  shots : Shots s
  told : ∀ i, Resting s i → Told s i

theorem unfinished_set {callbacks : List Callback} {k c : Nat} {old new : Callback} (found : callbacks[k]? = some old)
    (context : new.context = old.context) (same : old.context = c → finished new = finished old) :
    Unfinished c (callbacks.set k new) ↔ Unfinished c callbacks := by
  constructor
  · intro every j callback present own
    by_cases here : j = k
    · subst here
      obtain rfl : old = callback := Option.some.inj (found.symm.trans present)
      exact (same own).symm.trans (every j new (get_self found) (context.trans own))
    · exact every j callback ((List.getElem?_set_ne (Ne.symm here)).trans present) own
  · intro every
    exact Every.set every fun own => (same (context.symm.trans own)).trans (every k old found (context.symm.trans own))

theorem unfinished_cancel {callbacks : List Callback} {c d : Nat} :
    Unfinished d (cancel c callbacks) ↔ Unfinished d callbacks := by
  constructor
  · intro every k callback found own
    by_cases queued : callback = ⟨c,.queued⟩
    · subst queued
      rfl
    · exact every k callback (get_cancel_other found queued) own
  · intro every k callback found own
    rcases get_cancel found with ⟨_,rfl⟩ | ⟨present,_⟩
    · rfl
    · exact every k callback present own

theorem unfinished_fire {callbacks : List Callback} {c d : Nat} :
    Unfinished d (callbacks ++ [⟨c,.queued⟩]) ↔ Unfinished d callbacks := by
  constructor
  · exact fun every k callback found => every k callback (get_grows found)
  · exact fun every => Every.append every fun _ => rfl

theorem told_congr {s t : State} {i : Nat} (told : Told s i) (started : (t.objects i).started = (s.objects i).started)
    (context : (t.objects i).context = (s.objects i).context) (running : (t.objects i).running = (s.objects i).running)
    (oneShot : ∀ c, (s.objects i).context = some c → (t.contexts c).isOneShot = (s.contexts c).isOneShot)
    (unfinished : ∀ c, (s.objects i).context = some c → (s.contexts c).isOneShot = true →
      (Unfinished c t.callbacks ↔ Unfinished c s.callbacks)) : Told t i := by
  unfold Told
  rw [started,context,running]
  refine ⟨told.1,told.2.trans (exists_congr fun c => and_congr_right fun own => ?_)⟩
  rw [oneShot c own]
  exact forall_congr' fun single => (unfinished c own single).symm

/-- The callbacks come no further than they were, and nothing is armed. -/
theorem Shots.keep {s t : State} (known : Known s) (callbacks : Settles s.callbacks t.callbacks)
    (contexts : ∀ c, c < s.made → t.contexts c = s.contexts c) (armed : ∀ c, t.armed c = true → s.armed c = true)
    (arming : ∀ i c, t.control = .arming i → (t.objects i).timer = some c →
      t.armed c = false ∧ Every (fun _ callback => callback.context ≠ c) t.callbacks) : Shots t := by
  refine ⟨fun k j a b first second same oneShot => ?_,fun c arms oneShot => ?_,arming⟩
  · obtain ⟨old,present,follows⟩ := callbacks k a first
    obtain ⟨other,found,comes⟩ := callbacks j b second
    rw [contexts a.context (follows.context ▸ known.locks.made k old present),follows.context] at oneShot
    exact known.shots.single k j old other present found
      (follows.context.symm.trans (same.trans comes.context)) oneShot
  · have before := armed c arms
    rw [contexts c (known.inv.owned c (known.inv.armed c before)).1] at oneShot
    exact callbacks.contexts (fun d => d ≠ c) (known.shots.unfired c before oneShot)

theorem shots_arm {s : State} {i c : Nat} (known : Known s) (control : s.control = .arming i)
    (timer : (s.objects i).timer = some c) :
    Shots {s with armed := Function.update s.armed c true, control := .setting i} := by
  refine ⟨known.shots.single,fun d arms oneShot => ?_,by simp⟩
  by_cases own : d = c
  · subst own
    exact (known.shots.arming i d control timer).2
  · exact known.shots.unfired d ((Function.update_of_ne own ..).symm.trans arms) oneShot

theorem shots_fire {s : State} {c : Nat} (known : Known s) (armed : s.armed c = true) : Shots {s with
    callbacks := s.callbacks ++ [⟨c,.queued⟩]
    armed := if (s.contexts c).isOneShot then Function.update s.armed c false else s.armed} := by
  refine ⟨fun k j a b first second same oneShot => ?_,fun d arms oneShot => ?_,fun i d control timer => ?_⟩
  · have foreign {l : Nat} {callback : Callback} (present : s.callbacks[l]? = some callback)
        (same : callback.context = c) (oneShot : (s.contexts c).isOneShot = true) : False :=
      known.shots.unfired c armed oneShot l callback present same
    rcases get_append first with earlier | ⟨rfl,rfl⟩ <;> rcases get_append second with present | ⟨rfl,rfl⟩
    · exact known.shots.single k j a b earlier present same oneShot
    · have own : a.context = c := same
      rw [own] at oneShot
      exact (foreign earlier own oneShot).elim
    · exact (foreign present same.symm oneShot).elim
    · rfl
  · have other : d ≠ c := by
      rintro rfl
      change (s.contexts d).isOneShot = true at oneShot
      change (if (s.contexts d).isOneShot then Function.update s.armed d false else s.armed) d = true at arms
      rw [if_pos oneShot,Function.update_self] at arms
      contradiction
    have before : s.armed d = true := by
      change (if (s.contexts c).isOneShot then Function.update s.armed c false else s.armed) d = true at arms
      split at arms
      · exact (Function.update_of_ne other ..).symm.trans arms
      · exact arms
    exact (known.shots.unfired d before oneShot).append (Ne.symm other)
  · obtain ⟨disarmed,fresh⟩ := known.shots.arming i d control timer
    have other : c ≠ d := by
      rintro rfl
      exact Bool.false_ne_true (disarmed.symm.trans armed)
    refine ⟨?_,fresh.append other⟩
    split
    · exact (Function.update_of_ne (Ne.symm other) ..).trans disarmed
    · exact disarmed

theorem shots_step (s : State) (label : Label) (t : State) (known : Known s) (unmoved : label.moves = false)
    (taken : step s label = some t) : Shots t := by
  have placed {callbacks : List Callback} (settles : Settles s.callbacks callbacks) (i c : Nat) (control : s.control = .arming i)
      (timer : (s.objects i).timer = some c) : s.armed c = false ∧ Every (fun _ callback => callback.context ≠ c) callbacks := by
    obtain ⟨disarmed,fresh⟩ := known.shots.arming i c control timer
    exact ⟨disarmed,settles.contexts (fun d => d ≠ c) fresh⟩
  cases step_moves s label t taken with
  | moveConstruct | moveAssign | assignSelf => contradiction
  | assign created i other control => exact (known.unassigned control).elim
  | construct i idle absent =>
    exact Shots.keep known (.refl _) (fun _ _ => rfl) (fun _ => id) fun j c control => by
      exact absurd (idle.symm.trans control) (by simp)
  | call | skip | drain | set | close | createFails | destroy =>
    exact Shots.keep known (.refl _) (fun _ _ => rfl) (fun _ => id) (by simp)
  | disarm created i after c control timer =>
    refine Shots.keep known (.refl _) (fun _ _ => rfl) (fun d arms => ?_) (by simp)
    by_cases own : d = c
    · subst own
      exact absurd ((Function.update_self ..).symm.trans arms) (by simp)
    · exact (Function.update_of_ne own ..).symm.trans arms
  | cancel => exact Shots.keep known settles_cancel (fun _ _ => rfl) (fun _ => id) (by simp)
  | reset created i after control unlocked =>
    refine Shots.keep known (.refl _) (fun _ _ => rfl) (fun _ => id) fun j c arming => ?_
    cases after <;> contradiction
  | create i periodMs cb control =>
    refine Shots.keep known (.refl _) (fun c before => Function.update_of_ne (Nat.ne_of_lt before) ..) (fun _ => id) ?_
    intro j c arming timer
    cases arming
    obtain rfl : s.made = c := Option.some.inj ((congrArg Object.timer (setObject_self s i _)).symm.trans timer)
    refine ⟨Bool.eq_false_iff.mpr fun armed => ?_,known.locks.made.imp fun _ _ _ => Nat.ne_of_lt⟩
    exact Bool.false_ne_true ((known.inv.fresh (Nat.le_refl _)).symm.trans (known.inv.armed _ armed))
  | arm created i c control timer => exact shots_arm known control timer
  | fire c armed => exact shots_fire known armed
  | run k c found =>
    have settles : Settles s.callbacks (s.callbacks.set k ⟨c,.running⟩) := settles_set found .run
    exact Shots.keep known settles (fun _ _ => rfl) (fun _ => id) (placed settles)
  | empty k c found | finish k c found =>
    have settles : Settles s.callbacks (s.callbacks.set k ⟨c,.ended⟩) := settles_set found .finish
    exact Shots.keep known settles (fun _ _ => rfl) (fun _ => id) (placed settles)
  | clear k c i found =>
    have settles : Settles s.callbacks (s.callbacks.set k ⟨c,.unlocking i⟩) := settles_set found .lock
    refine Shots.keep known settles (fun _ _ => rfl) (fun _ => id) fun j d control timer => placed settles j d control ?_
    exact (setObject_keeps Object.timer (s.goto k _) _ _ (by rfl) j).symm.trans timer
  | unlock k c i found =>
    have settles : Settles s.callbacks (s.callbacks.set k ⟨c,.ended⟩) := settles_set found .finish
    refine Shots.keep known settles (fun _ _ => rfl) (fun _ => id) fun j d control timer => placed settles j d control ?_
    exact (setObject_keeps Object.timer (s.goto k _) _ _ (by rfl) j).symm.trans timer

theorem Resting.other {s : State} {i j : Nat} (object : s.control.object = some i) (other : j ≠ i) : Resting s j :=
  fun same => absurd (Option.some.inj (same.symm.trans object)) other

theorem Resting.ne {t : State} {i j : Nat} (resting : Resting t j) (object : t.control.object = some i)
    (busy : ∀ periodMs cb, t.control ≠ .creating i periodMs cb) : j ≠ i := by
  rintro rfl
  obtain ⟨periodMs,cb,creating⟩ := resting object
  rw [creating] at object
  cases object
  exact busy periodMs cb creating

theorem told_empty {s : State} {i : Nat} (started : (s.objects i).started = none) (context : (s.objects i).context = none)
    (running : (s.objects i).running = false) : Told s i := by
  refine ⟨started.trans context.symm,?_⟩
  simp [running,context]

theorem told_other {s t : State} {i j : Nat} {object : Object} (told : Told s j) (other : j ≠ i)
    (objects : t.objects = (s.setObject i object).objects) (contexts : t.contexts = s.contexts)
    (callbacks : t.callbacks = s.callbacks) : Told t j := by
  have same : t.objects j = s.objects j := (congrFun objects j).trans (setObject_other s object other)
  exact told_congr told (congrArg Object.started same) (congrArg Object.context same) (congrArg Object.running same)
    (fun c _ => by rw [contexts]) (fun c _ _ => by rw [callbacks])

/-- A callback's step that sets no flag and gets no one-shot timer of an object done. -/
theorem told_goto {s : State} {k c j : Nat} {before after : Point} (told : Told s j)
    (found : s.callbacks[k]? = some ⟨c,before⟩)
    (same : (s.objects j).context = some c → (s.contexts c).isOneShot = true →
      finished ⟨c,after⟩ = finished ⟨c,before⟩) : Told (s.goto k ⟨c,after⟩) j := by
  refine told_congr told rfl rfl rfl (fun _ _ => rfl) fun d context oneShot => ?_
  refine unfinished_set found rfl fun own => ?_
  cases own
  exact same context oneShot

theorem told_step (s : State) (label : Label) (t : State) (known : Known s) (orderly : Orderly s label)
    (unmoved : label.moves = false) (taken : step s label = some t) : ∀ i, Resting t i → Told t i := by
  have fact := known.inv.control
  intro j resting
  have idles (idle : s.control = .idle) : Told s j := known.told j fun object => by simp [idle,Control.object] at object
  cases step_moves s label t taken with
  | moveConstruct | moveAssign | assignSelf => contradiction
  | assign created i other control => exact (known.unassigned control).elim
  | construct i idle absent =>
    by_cases own : j = i
    · subst own
      exact told_empty (by rw [setObject_self]; rfl) (by rw [setObject_self]; rfl) (by rw [setObject_self]; rfl)
    · exact told_other (idles idle) own rfl rfl rfl
  | call label i after idle alive stays => exact idles idle
  | disarm created i after c control timer | skip created i after control timer | arm created i c control timer
  | drain created i after c control timer drained =>
    have other := resting.ne (i := i) rfl (by simp)
    exact known.told j (Resting.other (by rw [control]; rfl) other)
  | cancel created i after c control timer =>
    have other := resting.ne (i := i) rfl (by simp)
    have told := known.told j (Resting.other (by rw [control]; rfl) other)
    exact told_congr told rfl rfl rfl (fun _ _ => rfl) fun _ _ _ => unfinished_cancel
  | close created i after control =>
    have other := resting.ne (i := i) rfl (by simp)
    exact told_other (known.told j (Resting.other (by rw [control]; rfl) other)) other rfl rfl rfl
  | reset created i after control unlocked =>
    by_cases own : j = i
    · subst own
      have self := setObject_self s j {s.objects j with running := false, context := none, started := none}
      exact told_empty (congrArg Object.started self) (congrArg Object.context self) (congrArg Object.running self)
    · exact told_other (known.told j (Resting.other (by rw [control]; rfl) own)) own rfl rfl rfl
  | create i periodMs cb control =>
    have other := resting.ne (i := i) rfl (by simp [create])
    have told := known.told j (Resting.other (by rw [control]; rfl) other)
    have same := setObject_other s {s.objects i with timer := some s.made, context := some s.made} other
    refine told_congr told (congrArg Object.started same) (congrArg Object.context same) (congrArg Object.running same)
      (fun c context => ?_) fun _ _ _ => Iff.rfl
    have before := (known.inv.owned c (known.inv.linked j c context).1).1
    exact congrArg TimerContext.isOneShot (Function.update_of_ne (Nat.ne_of_lt before) ..)
  | createFails i periodMs cb control =>
    rw [control] at fact
    have told : Told s j := by
      by_cases own : j = i
      · subst own
        exact known.told j fun _ => ⟨periodMs,cb,control⟩
      · exact known.told j (Resting.other (by rw [control]; rfl) own)
    exact told_congr told (setObject_keeps Object.started s _ _ (by rfl) j) (setObject_keeps Object.context s _ _ fact.2.symm j)
      (setObject_keeps Object.running s _ _ (by rfl) j) (fun _ _ => rfl) fun _ _ _ => Iff.rfl
  | set created i control unlocked =>
    by_cases own : j = i
    · subst own
      rw [control] at fact
      obtain ⟨c,timer⟩ := fact
      have context := (known.inv.whole j (by simp [control])).symm.trans timer
      have self := setObject_self s j {s.objects j with running := true, started := (s.objects j).context}
      refine ⟨(congrArg Object.started self).trans (congrArg Object.context self).symm,?_⟩
      refine iff_of_true (congrArg Object.running self) ⟨c,(congrArg Object.context self).trans context,fun oneShot => ?_⟩
      -- a callback that has been inside the mutex would still be, or have ended
      intro k callback found own
      obtain ⟨d,point⟩ := callback
      obtain rfl : d = c := own
      cases point with
      | queued | running | cancelled => rfl
      | ended => exact absurd found (orderly.1 created j d k rfl control context oneShot)
      | unlocking l =>
        obtain ⟨owner,held⟩ := known.locks.placed k d l found
        rw [← owner,(known.inv.linked j d context).2.1,unlocked] at held
        contradiction
    · exact told_other (known.told j (Resting.other (by rw [control]; rfl) own)) own rfl rfl rfl
  | destroy created i control =>
    by_cases own : j = i
    · subst own
      exact told_empty (congrArg Object.started (setObject_self ..)) (congrArg Object.context (setObject_self ..))
        (congrArg Object.running (setObject_self ..))
    · exact told_other (known.told j (Resting.other (by rw [control]; rfl) own)) own rfl rfl rfl
  | fire c armed =>
    exact told_congr (known.told j resting) rfl rfl rfl (fun _ _ => rfl) fun _ _ _ => unfinished_fire
  | run k c found callable => exact told_goto (known.told j resting) found fun _ _ => rfl
  | empty k c found callable =>
    refine told_goto (known.told j resting) found fun context oneShot => ?_
    have busy := orderly.2 k c rfl found callable oneShot
    rw [(known.inv.linked j c context).2.1] at busy
    obtain ⟨periodMs,cb,creating⟩ := resting busy
    have creates : s.control = .creating j periodMs cb := creating
    rw [creates] at fact
    exact absurd (fact.2.symm.trans context) (by simp)
  | finish k c found periodic =>
    exact told_goto (known.told j resting) found fun _ oneShot => absurd (periodic.symm.trans oneShot) (by simp)
  | clear k c i found oneShot owner unlocked =>
    have told := known.told j resting
    have owned := (known.inv.owned c (known.inv.flying k _ found rfl)).2
    rw [owner] at owned
    by_cases own : j = i
    · subst own
      have self := setObject_self (s.goto k ⟨c,.unlocking j⟩) j {s.objects j with running := false, mutex := some k}
      refine ⟨(congrArg Object.started self).trans (told.1.trans (congrArg Object.context self).symm),?_⟩
      refine iff_of_false (by rw [self]; simp) fun given => ?_
      obtain ⟨d,context,unfinished⟩ := given
      obtain rfl : c = d := Option.some.inj (owned.symm.trans ((congrArg Object.context self).symm.trans context))
      exact absurd (unfinished oneShot k _ (get_self found) rfl) (by simp [finished])
    · have moved : Told (s.goto k ⟨c,.unlocking i⟩) j := by
        refine told_goto told found fun context _ => absurd ?_ own
        exact (known.inv.linked j c context).2.1.symm.trans owner
      exact told_other moved own rfl rfl rfl
  | unlock k c i found =>
    have moved : Told (s.goto k ⟨c,.ended⟩) j := told_goto (known.told j resting) found fun _ _ => rfl
    exact told_congr moved (setObject_keeps Object.started (s.goto k _) _ _ (by rfl) j)
      (setObject_keeps Object.context (s.goto k _) _ _ (by rfl) j) (setObject_keeps Object.running (s.goto k _) _ _ (by rfl) j)
      (fun _ _ => rfl) fun _ _ _ => Iff.rfl

theorem known_init : Known init :=
  ⟨unmoved_init,⟨by simp [init],by simp [init],by simp [init]⟩,fun _ _ => told_empty rfl rfl rfl⟩

theorem known_step (s : State) (label : Label) (t : State) (known : Known s) (unmoved : label.moves = false)
    (orderly : Orderly s label) (taken : step s label = some t) : Known t :=
  ⟨known.toUnmoved.step unmoved taken,
    shots_step s label t known unmoved taken,told_step s label t known orderly unmoved taken⟩

/-- Outside the mutex a one-shot timer's callback is done when it has ended. -/
theorem unfinished_iff {s : State} {i c : Nat} (known : Known s) (context : (s.objects i).context = some c)
    (unlocked : (s.objects i).mutex = none) : Unfinished c s.callbacks ↔ ∀ k : Nat, s.callbacks[k]? ≠ some ⟨c,.ended⟩ := by
  constructor
  · intro unfinished k found
    exact absurd (unfinished k _ found rfl) (by simp [finished])
  · intro unended k callback found own
    obtain ⟨d,point⟩ := callback
    obtain rfl : d = c := own
    cases point with
    | queued | running | cancelled => rfl
    | ended => exact absurd found (unended k)
    | unlocking l =>
      obtain ⟨owner,held⟩ := known.locks.placed k d l found
      rw [← owner,(known.inv.linked i d context).2.1,unlocked] at held
      contradiction

theorem faithful (s : State) (known : Known s) : Faithful s := by
  intro i b rests ran
  unfold isRunning at ran
  split at ran
  next unlocked =>
    cases ran
    obtain ⟨started,told⟩ := known.told i fun busy => absurd busy rests
    unfold Started
    rw [started]
    refine told.trans (exists_congr fun c => and_congr_right fun context => ?_)
    exact forall_congr' fun _ => unfinished_iff known context unlocked
  next => contradiction

/-- A one-shot timer whose callback has ended is still said to run. -/
theorem unfaithful {s : State} {i c k : Nat} (rests : s.control.object ≠ some i) (unlocked : (s.objects i).mutex = none)
    (running : (s.objects i).running = true) (started : (s.objects i).started = some c)
    (oneShot : (s.contexts c).isOneShot = true) (ended : s.callbacks[k]? = some ⟨c,.ended⟩) : ¬ Faithful s := by
  intro right
  obtain ⟨d,same,unended⟩ := (right i true rests (by rw [isRunning,if_pos unlocked,running])).mp rfl
  obtain rfl : c = d := Option.some.inj (started.symm.trans same)
  exact unended oneShot k ended

theorem breach (s : State) (label : Label) (t : State) (known : Known s) (disorder : ¬ Orderly s label)
    (taken : step s label = some t) : ¬ Faithful t := by
  by_cases late : ∀ (created : Bool) (i c k : Nat), label = .control created → s.control = .setting i →
      (s.objects i).context = some c → (s.contexts c).isOneShot = true → s.callbacks[k]? ≠ some ⟨c,.ended⟩
  · unfold Orderly at disorder
    push Not at disorder
    obtain ⟨k,c,rfl,found,empty,oneShot,rests⟩ := disorder late
    have context := (known.inv.owned c (known.inv.flying k _ found rfl)).2
    have alone {j : Nat} {callback : Callback} (present : s.callbacks[j]? = some callback) (own : callback.context = c) : j = k :=
      known.shots.single j k callback _ present found own (own ▸ oneShot)
    have unfinished : Unfinished c s.callbacks := by
      intro j callback present own
      obtain rfl := alone present own
      cases present.symm.trans found
      rfl
    have unlocked : (s.objects (s.contexts c).timer).mutex = none := by
      by_contra held
      obtain ⟨j,held⟩ := Option.ne_none_iff_exists'.mp held
      obtain ⟨d,present⟩ := known.locks.holder _ j held
      have owned := (known.inv.owned d (known.inv.flying j _ present rfl)).2
      rw [(known.locks.placed j d _ present).1,context] at owned
      cases owned
      obtain rfl := alone present rfl
      cases present.symm.trans found
    obtain ⟨started,told⟩ := known.told _ fun busy => absurd busy rests
    have moved : t = s.goto k ⟨c,.ended⟩ := by
      simp only [step,found,Option.bind_some,timerCallback,empty] at taken
      exact (Option.some.inj taken).symm
    subst moved
    exact unfaithful rests unlocked (told.mpr ⟨c,context,fun _ => unfinished⟩) (started.trans context) oneShot (get_self found)
  · push Not at late
    obtain ⟨created,i,c,k,rfl,control,context,oneShot,ended⟩ := late
    simp only [step,advance,control] at taken
    split at taken
    next unlocked =>
      cases taken
      have self := setObject_self s i {s.objects i with running := true, started := (s.objects i).context}
      exact unfaithful (i := i) (by simp [Control.object]) ((congrArg Object.mutex self).trans unlocked)
        (congrArg Object.running self) ((congrArg Object.started self).trans context) oneShot ended
    next => contradiction

/-- `IsRunning` is right all along a run if and only if no one-shot timer's callback
overtakes its `Start`, and no empty one ends outside a call. -/
theorem running_iff_orderly {labels : List Label} {s : State} (unmoved : ∀ label ∈ labels, label.moves = false)
    (reached : run step init labels = some s) : Along step Faithful init labels ↔ Obeys step Orderly init labels :=
  along_iff_obeys_within Known known_step faithful
    (fun s label t known _ => breach s label t known) known_init
    (obeys_of_labels (fun label member _ => unmoved label member) init) reached

/-- A one-shot timer fires after `SetOneShot` has returned. -/
theorem running_iff_orderly_one_shot :
    ∃ s, run step init [.construct 0,setOneShot 0 true,.control false,.control false,.control true,.control false,.control false,
        .fire 0,.callback 0,.callback 0,.callback 0] = some s ∧ isRunning s 0 = some false ∧
      (Along step Faithful init [.construct 0,setOneShot 0 true,.control false,.control false,.control true,.control false,
          .control false,.fire 0,.callback 0,.callback 0,.callback 0] ↔
        Obeys step Orderly init [.construct 0,setOneShot 0 true,.control false,.control false,.control true,.control false,
          .control false,.fire 0,.callback 0,.callback 0,.callback 0]) := by
  obtain ⟨s,reached,stopped⟩ : ∃ s, run step init [.construct 0,setOneShot 0 true,.control false,.control false,.control true,
      .control false,.control false,.fire 0,.callback 0,.callback 0,.callback 0] = some s ∧ isRunning s 0 = some false :=
    ⟨_,rfl,rfl⟩
  exact ⟨s,reached,stopped,running_iff_orderly (by decide) reached⟩

/-- The callback ends before `Start` sets the flag, or is empty: the timer then runs
forever by its own account. -/
theorem runs_forever :
    (∃ s, run step init [.construct 0,setOneShot 0 true,.control false,.control false,.control true,.control false,
        .fire 0,.callback 0,.callback 0,.callback 0,.control false] = some s ∧
      s.control = .idle ∧ isRunning s 0 = some true ∧ s.callbacks = [⟨0,.ended⟩] ∧ ¬ Faithful s) ∧
    ∃ s, run step init [.construct 0,setOneShot 0 false,.control false,.control false,.control true,.control false,
        .control false,.fire 0,.callback 0] = some s ∧
      s.control = .idle ∧ isRunning s 0 = some true ∧ s.callbacks = [⟨0,.ended⟩] ∧ ¬ Faithful s := by
  constructor
  · exact ⟨_,rfl,rfl,rfl,rfl,unfaithful (i := 0) (c := 0) (k := 0) (by decide) rfl rfl rfl rfl rfl⟩
  · exact ⟨_,rfl,rfl,rfl,rfl,unfaithful (i := 0) (c := 0) (k := 0) (by decide) rfl rfl rfl rfl rfl⟩

end Ezthread.Timer
