import Ezthread.Timer

/-! What callbacks of timers use, as long as no context is moved from one to another: a
context not freed, which is that of a living timer. `Stop` disarms, drains and closes
before it frees, so there is no callback left of what it stopped. -/
namespace Ezthread.Timer
open Transition Activation Callbacks

def Label.moves : Label → Bool
  | .moveConstruct _ _ | .moveAssign _ _ => true
  | _ => false

/-- What a move takes over has no context. -/
def NullSource (s : State) (label : Label) : Prop :=
  (∀ i other, label = .moveConstruct i other → (s.objects other).context = none) ∧
  (∀ (created : Bool) (i other : Nat), label = .control created → s.control = .assigning i other →
    (s.objects other).context = none)

def Control.moves : Control → Bool
  | .stopping _ _ after => after.moves
  | .assigning _ _ => true
  | _ => false

def After.Apart (i : Nat) : After → Prop
  | .assign other => i ≠ other
  | _ => True

/-- What a place of the controlling thread says of the object and of its pool timer. -/
def Fact (s : State) : Control → Prop
  | .idle => True
  | .stopping i .disarm after => (s.objects i).alive = true ∧ after.Apart i
  | .stopping i .cancel after => (∃ c, (s.objects i).timer = some c ∧ s.armed c = false) ∧ after.Apart i
  | .stopping i .drain after =>
      (∃ c, (s.objects i).timer = some c ∧ s.armed c = false ∧ Unqueued c s.callbacks) ∧ after.Apart i
  | .stopping i .close after =>
      (∃ c, (s.objects i).timer = some c ∧ s.armed c = false ∧ Quiet c s.callbacks) ∧ after.Apart i
  | .stopping i .reset after => ((s.objects i).alive = true ∧ (s.objects i).timer = none ∧
      ∀ c, (s.objects i).context = some c → s.armed c = false ∧ Quiet c s.callbacks) ∧ after.Apart i
  | .creating i _ _ => (s.objects i).alive = true ∧ (s.objects i).context = none
  | .arming i | .setting i => ∃ c, (s.objects i).timer = some c
  | .destroying i => (s.objects i).context = none
  | .assigning i other => i ≠ other ∧ (s.objects i).context = none

structure Inv (s : State) : Prop where
  linked : ∀ i c, (s.objects i).context = some c →
    s.live c = true ∧ (s.contexts c).timer = i ∧ (s.objects i).alive = true
  owned : ∀ c, s.live c = true → c < s.made ∧ (s.objects (s.contexts c).timer).context = some c
  armed : ∀ c, s.armed c = true → s.live c = true
  flying : Every (fun _ callback => callback.inFlight = true → s.live callback.context = true) s.callbacks
  whole : ∀ i, (∀ after, s.control ≠ .stopping i .reset after) → (s.objects i).timer = (s.objects i).context
  control : Fact s s.control

/-- A step that makes, frees and arms nothing, nor changes what an object owns. -/
structure Calm (s t : State) : Prop where
  timer : ∀ i, (t.objects i).timer = (s.objects i).timer
  context : ∀ i, (t.objects i).context = (s.objects i).context
  alive : ∀ i, (t.objects i).alive = (s.objects i).alive
  contexts : t.contexts = s.contexts
  made : t.made = s.made
  live : t.live = s.live
  armed : ∀ c, s.armed c = false → t.armed c = false
  callbacks : Settles s.callbacks t.callbacks

theorem setObject_self (s : State) (i : Nat) (object : Object) : (s.setObject i object).objects i = object :=
  Function.update_self ..

theorem setObject_other (s : State) {i j : Nat} (object : Object) (other : j ≠ i) :
    (s.setObject i object).objects j = s.objects j :=
  Function.update_of_ne other ..

theorem setObject_keeps {Member : Type*} (member : Object → Member) (s : State) (i : Nat) (object : Object)
    (same : member object = member (s.objects i)) (j : Nat) :
    member ((s.setObject i object).objects j) = member (s.objects j) :=
  update_keeps member s.objects i object same j

theorem Calm.fact {s t : State} (calm : Calm s t) : ∀ {control : Control}, Fact s control → Fact t control := by
  intro control fact
  cases control with
  | idle => exact fact
  | assigning i => exact ⟨fact.1,(calm.context i).trans fact.2⟩
  | destroying i => exact (calm.context i).trans fact
  | creating i => exact ⟨(calm.alive i).trans fact.1,(calm.context i).trans fact.2⟩
  | arming i | setting i =>
    obtain ⟨c,timer⟩ := fact
    exact ⟨c,(calm.timer i).trans timer⟩
  | stopping i phase after =>
    cases phase with
    | disarm => exact ⟨(calm.alive i).trans fact.1,fact.2⟩
    | cancel =>
      obtain ⟨⟨c,timer,disarmed⟩,apart⟩ := fact
      exact ⟨⟨c,(calm.timer i).trans timer,calm.armed c disarmed⟩,apart⟩
    | drain =>
      obtain ⟨⟨c,timer,disarmed,unqueued⟩,apart⟩ := fact
      exact ⟨⟨c,(calm.timer i).trans timer,calm.armed c disarmed,calm.callbacks.unqueued unqueued⟩,apart⟩
    | close =>
      obtain ⟨⟨c,timer,disarmed,quiet⟩,apart⟩ := fact
      exact ⟨⟨c,(calm.timer i).trans timer,calm.armed c disarmed,calm.callbacks.quiet quiet⟩,apart⟩
    | reset =>
      obtain ⟨⟨alive,closed,quiet⟩,apart⟩ := fact
      refine ⟨⟨(calm.alive i).trans alive,(calm.timer i).trans closed,fun c context => ?_⟩,apart⟩
      obtain ⟨disarmed,silent⟩ := quiet c ((calm.context i).symm.trans context)
      exact ⟨calm.armed c disarmed,calm.callbacks.quiet silent⟩

theorem Inv.calm {s t : State} (inv : Inv s) (calm : Calm s t) (fact : Fact t t.control)
    (closed : ∀ i after, s.control = .stopping i .reset after → ∃ other, t.control = .stopping i .reset other) : Inv t := by
  refine ⟨fun i c context => ?_,fun c live => ?_,fun c armed => ?_,?_,fun i unreset => ?_,fact⟩
  · rw [calm.live,calm.contexts,calm.alive]
    exact inv.linked i c ((calm.context i).symm.trans context)
  · rw [calm.made,calm.contexts,calm.context]
    rw [calm.live] at live
    exact inv.owned c live
  · rw [calm.live]
    refine inv.armed c ?_
    by_contra disarmed
    exact Bool.false_ne_true ((calm.armed c (Bool.eq_false_iff.mpr disarmed)).symm.trans armed)
  · rw [calm.live]
    exact calm.callbacks.flying (fun c => s.live c = true) inv.flying
  · rw [calm.timer,calm.context]
    refine inv.whole i fun after control => ?_
    obtain ⟨other,same⟩ := closed i after control
    exact unreset other same

theorem Inv.settle {s t : State} (inv : Inv s) (calm : Calm s t) (control : t.control = s.control) : Inv t := by
  refine inv.calm calm ?_ fun i after same => ⟨after,control.trans same⟩
  rw [control]
  exact calm.fact inv.control

theorem inv_init : Inv init :=
  ⟨by simp [init,Object.absent],by simp [init],by simp [init],Every.nil _,fun _ _ => rfl,trivial⟩

theorem calm_control {s : State} (control : Control) {armed : Nat → Bool}
    (disarms : ∀ c, s.armed c = false → armed c = false) : Calm s {s with control := control, armed := armed} :=
  ⟨fun _ => rfl,fun _ => rfl,fun _ => rfl,rfl,rfl,rfl,disarms,.refl _⟩

theorem calm_goto {s : State} {k : Nat} {old : Callback} (new : Callback) (found : s.callbacks[k]? = some old)
    (follows : Follows old new) : Calm s (s.goto k new) :=
  ⟨fun _ => rfl,fun _ => rfl,fun _ => rfl,rfl,rfl,rfl,fun _ => id,settles_set found follows⟩

theorem Calm.setObject {s t : State} (calm : Calm s t) (i : Nat) (object : Object)
    (timer : object.timer = (t.objects i).timer) (context : object.context = (t.objects i).context)
    (alive : object.alive = (t.objects i).alive) : Calm s (t.setObject i object) :=
  ⟨fun j => (setObject_keeps Object.timer t i object timer j).trans (calm.timer j),
    fun j => (setObject_keeps Object.context t i object context j).trans (calm.context j),
    fun j => (setObject_keeps Object.alive t i object alive j).trans (calm.alive j),
    calm.contexts,calm.made,calm.live,calm.armed,calm.callbacks⟩

section Changes
variable {s : State} {i : Nat}

theorem Inv.absent (inv : Inv s) (absent : (s.objects i).alive = false) : (s.objects i).context = none := by
  by_contra context
  obtain ⟨c,context⟩ := Option.ne_none_iff_exists'.mp context
  exact Bool.false_ne_true (absent.symm.trans (inv.linked i c context).2.2)

theorem Inv.fresh (inv : Inv s) {c : Nat} (unmade : s.made ≤ c) : s.live c = false := by
  refine Bool.eq_false_iff.mpr fun live => ?_
  have known := (inv.owned c live).1
  omega

/-- An object that owns nothing gives way to another that owns nothing. -/
theorem inv_replace (inv : Inv s) {object : Object} {control : Control} (contextless : (s.objects i).context = none)
    (empty : object.timer = none ∧ object.context = none) (unreset : ∀ j after, s.control ≠ .stopping j .reset after)
    (fact : Fact (s.setObject i object) control) : Inv {s.setObject i object with control := control} := by
  refine ⟨fun j c context => ?_,fun c live => ?_,inv.armed,inv.flying,fun j _ => ?_,?_⟩
  · change ((s.setObject i object).objects j).context = some c at context
    by_cases own : j = i
    · subst own
      rw [setObject_self,empty.2] at context
      contradiction
    · rw [setObject_other s object own] at context
      obtain ⟨live,timer,alive⟩ := inv.linked j c context
      exact ⟨live,timer,(congrArg Object.alive (setObject_other s object own)).trans alive⟩
  · obtain ⟨known,context⟩ := inv.owned c live
    have other : (s.contexts c).timer ≠ i := by
      intro same
      rw [same,contextless] at context
      contradiction
    exact ⟨known,(congrArg Object.context (setObject_other s object other)).trans context⟩
  · change ((s.setObject i object).objects j).timer = ((s.setObject i object).objects j).context
    by_cases own : j = i
    · subst own
      rw [setObject_self]
      exact empty.1.trans empty.2.symm
    · rw [setObject_other s object own]
      exact inv.whole j (unreset j)
  · exact fact

theorem inv_take (inv : Inv s) {other : Nat} {object : Object} (source : (s.objects other).context = none)
    (target : (s.objects i).context = none) (unreset : ∀ j after, s.control ≠ .stopping j .reset after) :
    Inv {s.take i other object with control := .idle} := by
  have emptied : Inv {s.setObject other {s.objects other with timer := none, context := none, running := false, started := none}
      with control := .idle} := inv_replace inv source ⟨rfl,rfl⟩ unreset trivial
  refine inv_replace emptied ?_ ⟨?_,?_⟩ (by simp) trivial
  · exact (setObject_keeps Object.context s other _ source.symm i).trans target
  · exact (inv.whole other (unreset other)).trans source
  · exact source

theorem inv_close (inv : Inv s) {after : After} (control : s.control = .stopping i .close after) :
    Inv {s.setObject i {s.objects i with timer := none} with control := .stopping i .reset after} := by
  obtain ⟨⟨c,timer,disarmed,quiet⟩,apart⟩ : Fact s (.stopping i .close after) := control ▸ inv.control
  have owned : (s.objects i).context = some c := (inv.whole i (by simp [control])).symm.trans timer
  have context := setObject_keeps Object.context s i {s.objects i with timer := none} rfl
  have alive := setObject_keeps Object.alive s i {s.objects i with timer := none} rfl
  refine ⟨fun j d own => ?_,fun d live => ?_,inv.armed,inv.flying,fun j unreset => ?_,⟨?_,?_,fun d own => ?_⟩,apart⟩
  · obtain ⟨live,timer,living⟩ := inv.linked j d ((context j).symm.trans own)
    exact ⟨live,timer,(alive j).trans living⟩
  · exact ⟨(inv.owned d live).1,(context _).trans (inv.owned d live).2⟩
  · have other : j ≠ i := by
      rintro rfl
      exact unreset after rfl
    change ((s.setObject i {s.objects i with timer := none}).objects j).timer =
      ((s.setObject i {s.objects i with timer := none}).objects j).context
    rw [setObject_other s _ other]
    exact inv.whole j (by simp [control])
  · exact (alive i).trans (inv.linked i c owned).2.2
  · exact congrArg Object.timer (setObject_self s i _)
  · obtain rfl : c = d := Option.some.inj (owned.symm.trans ((context i).symm.trans own))
    exact ⟨disarmed,quiet⟩

theorem inv_reset (inv : Inv s) {after : After} (control : s.control = .stopping i .reset after) :
    Inv {s.setObject i {s.objects i with running := false, context := none, started := none} with
      live := free (s.objects i).context s.live, control := after.next i} := by
  obtain ⟨⟨alive,closed,quiet⟩,apart⟩ : Fact s (.stopping i .reset after) := control ▸ inv.control
  have self := setObject_self s i {s.objects i with running := false, context := none, started := none}
  have other {j : Nat} (other : j ≠ i) :=
    setObject_other s {s.objects i with running := false, context := none, started := none} other
  refine ⟨fun j c context => ?_,fun c live => ?_,fun c armed => ?_,fun k callback found flying => ?_,fun j _ => ?_,?_⟩
  · have different : j ≠ i := by
      rintro rfl
      exact absurd ((congrArg Object.context self).symm.trans context) (by simp)
    obtain ⟨live,timer,living⟩ := inv.linked j c ((congrArg Object.context (other different)).symm.trans context)
    refine ⟨free_iff.mpr ⟨live,fun shared => ?_⟩,timer,(congrArg Object.alive (other different)).trans living⟩
    exact different (timer.symm.trans (inv.linked i c shared).2.1)
  · obtain ⟨live,unfreed⟩ := free_iff.mp live
    obtain ⟨known,context⟩ := inv.owned c live
    have different : (s.contexts c).timer ≠ i := fun same => unfreed (same ▸ context)
    exact ⟨known,(congrArg Object.context (other different)).trans context⟩
  · exact free_iff.mpr ⟨inv.armed c armed,fun own => Bool.false_ne_true ((quiet c own).1.symm.trans armed)⟩
  · refine free_iff.mpr ⟨inv.flying k callback found flying,fun own => ?_⟩
    exact Bool.false_ne_true (((quiet _ own).2 k callback found rfl).symm.trans flying)
  · by_cases own : j = i
    · subst own
      exact (congrArg Object.timer self).trans (closed.trans (congrArg Object.context self).symm)
    · refine (congrArg Object.timer (other own)).trans ((inv.whole j fun _ same => ?_).trans
        (congrArg Object.context (other own)).symm)
      rw [control] at same
      cases same
      exact own rfl
  · cases after with
    | nothing => trivial
    | start periodMs cb => exact ⟨(congrArg Object.alive self).trans alive,congrArg Object.context self⟩
    | destroy => exact congrArg Object.context self
    | assign other => exact ⟨apart,congrArg Object.context self⟩

theorem inv_create (inv : Inv s) {periodMs : DWORD} {cb : Bool} (control : s.control = .creating i periodMs cb) :
    Inv (create s i periodMs cb) := by
  obtain ⟨alive,contextless⟩ : Fact s (.creating i periodMs cb) := control ▸ inv.control
  have self := setObject_self s i {s.objects i with timer := some s.made, context := some s.made}
  have other {j : Nat} (other : j ≠ i) :=
    setObject_other s {s.objects i with timer := some s.made, context := some s.made} other
  have live : (create s i periodMs cb).live = Function.update s.live s.made true := by
    simp only [create,contextless,free]
  have older {c : Nat} (known : c < s.made) : (create s i periodMs cb).live c = s.live c ∧
      (create s i periodMs cb).contexts c = s.contexts c := by
    have different : c ≠ s.made := by omega
    rw [live]
    exact ⟨Function.update_of_ne different ..,Function.update_of_ne different ..⟩
  have newest : (create s i periodMs cb).contexts s.made = ⟨cb,i,periodMs == 0⟩ := Function.update_self ..
  have grows {c : Nat} (before : s.live c = true) : (create s i periodMs cb).live c = true := by
    rw [(older (inv.owned c before).1).1]
    exact before
  refine ⟨fun j c context => ?_,fun c present => ?_,fun c armed => grows (inv.armed c armed),
    fun k callback found flying => grows (inv.flying k callback found flying),fun j _ => ?_,?_⟩
  · by_cases own : j = i
    · subst own
      obtain rfl : s.made = c := Option.some.inj ((congrArg Object.context self).symm.trans context)
      refine ⟨?_,congrArg TimerContext.timer newest,(congrArg Object.alive self).trans alive⟩
      rw [live]
      exact Function.update_self ..
    · obtain ⟨before,timer,living⟩ := inv.linked j c ((congrArg Object.context (other own)).symm.trans context)
      refine ⟨grows before,?_,(congrArg Object.alive (other own)).trans living⟩
      rw [(older (inv.owned c before).1).2]
      exact timer
  · by_cases new : c = s.made
    · subst new
      refine ⟨Nat.lt_succ_self _,?_⟩
      rw [newest]
      exact congrArg Object.context self
    · rw [live,Function.update_of_ne new] at present
      obtain ⟨known,context⟩ := inv.owned c present
      refine ⟨Nat.lt_succ_of_lt known,?_⟩
      rw [(older known).2]
      have different : (s.contexts c).timer ≠ i := by
        intro same
        rw [same,contextless] at context
        contradiction
      exact (congrArg Object.context (other different)).trans context
  · by_cases own : j = i
    · subst own
      exact (congrArg Object.timer self).trans (congrArg Object.context self).symm
    · exact (congrArg Object.timer (other own)).trans
        ((inv.whole j (by simp [control])).trans (congrArg Object.context (other own)).symm)
  · exact ⟨s.made,congrArg Object.timer self⟩

theorem inv_createFails (inv : Inv s) {periodMs : DWORD} {cb : Bool} (control : s.control = .creating i periodMs cb) :
    Inv {s.setObject i {s.objects i with timer := none, context := none} with
      live := free (s.objects i).context s.live, control := .idle} := by
  obtain ⟨alive,contextless⟩ : Fact s (.creating i periodMs cb) := control ▸ inv.control
  have timerless : (s.objects i).timer = none := (inv.whole i (by simp [control])).trans contextless
  refine inv.calm ?_ trivial (by simp [control])
  exact ⟨setObject_keeps Object.timer s _ _ timerless.symm,setObject_keeps Object.context s _ _ contextless.symm,
    setObject_keeps Object.alive s i {s.objects i with timer := none, context := none} rfl,rfl,rfl,by simp only [contextless,free],fun _ => id,.refl _⟩

theorem inv_arm (inv : Inv s) {c : Nat} (control : s.control = .arming i) (timer : (s.objects i).timer = some c) :
    Inv {s with armed := Function.update s.armed c true, control := .setting i} := by
  have whole (j : Nat) : (s.objects j).timer = (s.objects j).context := inv.whole j (by simp [control])
  refine ⟨inv.linked,inv.owned,fun d armed => ?_,inv.flying,fun j _ => whole j,c,timer⟩
  by_cases own : d = c
  · subst own
    exact (inv.linked i d ((whole i).symm.trans timer)).1
  · exact inv.armed d ((Function.update_of_ne own ..).symm.trans armed)

theorem inv_fire (inv : Inv s) {c : Nat} (armed : s.armed c = true) : Inv {s with
    callbacks := s.callbacks ++ [⟨c,.queued⟩]
    armed := if (s.contexts c).isOneShot then Function.update s.armed c false else s.armed} := by
  have disarms (d : Nat) (before : s.armed d = false) :
      (if (s.contexts c).isOneShot then Function.update s.armed c false else s.armed) d = false := by
    split
    · by_cases same : d = c
      · subst same
        exact Function.update_self ..
      · exact (Function.update_of_ne same ..).trans before
    · exact before
  have other {d : Nat} (before : s.armed d = false) : c ≠ d := by
    rintro rfl
    exact Bool.false_ne_true (before.symm.trans armed)
  have unqueued {d : Nat} (before : s.armed d = false) (unqueued : Unqueued d s.callbacks) :
      Unqueued d (s.callbacks ++ [⟨c,.queued⟩]) := unqueued.append (by simp [other before])
  have quiet {d : Nat} (before : s.armed d = false) (quiet : Quiet d s.callbacks) :
      Quiet d (s.callbacks ++ [⟨c,.queued⟩]) := quiet.append fun same => absurd same (other before)
  refine ⟨inv.linked,inv.owned,fun d fires => inv.armed d ?_,inv.flying.append fun _ => inv.armed c armed,inv.whole,?_⟩
  · by_contra disarmed
    exact Bool.false_ne_true ((disarms d (Bool.eq_false_iff.mpr disarmed)).symm.trans fires)
  · have fact := inv.control
    change Fact _ s.control
    cases place : s.control with
    | stopping i phase after =>
      rw [place] at fact
      cases phase with
      | disarm => exact fact
      | cancel =>
        obtain ⟨⟨d,timer,before⟩,apart⟩ := fact
        exact ⟨⟨d,timer,disarms d before⟩,apart⟩
      | drain =>
        obtain ⟨⟨d,timer,before,silent⟩,apart⟩ := fact
        exact ⟨⟨d,timer,disarms d before,unqueued before silent⟩,apart⟩
      | close =>
        obtain ⟨⟨d,timer,before,silent⟩,apart⟩ := fact
        exact ⟨⟨d,timer,disarms d before,quiet before silent⟩,apart⟩
      | reset =>
        obtain ⟨⟨alive,closed,silent⟩,apart⟩ := fact
        exact ⟨⟨alive,closed,fun d context => ⟨disarms d (silent d context).1,quiet (silent d context).1 (silent d context).2⟩⟩,apart⟩
    | idle | creating | arming | setting | destroying | assigning =>
      rw [place] at fact
      exact fact

end Changes

theorem inv_step (s : State) (label : Label) (t : State) (inv : Inv s) (null : NullSource s label)
    (taken : step s label = some t) : Inv t := by
  have known := inv.control
  cases step_moves s label t taken with
  | construct i idle absent => exact inv_replace inv (inv.absent absent) ⟨rfl,rfl⟩ (by simp [idle]) (idle ▸ trivial)
  | moveConstruct i other idle absent present =>
    have moved : Inv {s.take i other .new with control := .idle} :=
      inv_take inv (null.1 i other rfl) (inv.absent absent) (by simp [idle])
    rw [← idle] at moved
    exact moved
  | assignSelf i => exact inv
  | moveAssign i other idle alive different =>
    exact inv.calm (calm_control _ fun _ => id) ⟨alive,different⟩ (by simp [idle])
  | call label i after idle alive stays =>
    refine inv.calm (calm_control _ fun _ => id) ⟨alive,?_⟩ (by simp [idle])
    cases after with
    | assign => contradiction
    | nothing | start | destroy => trivial
  | disarm created i after c control timer =>
    rw [control] at known
    refine inv.calm (calm_control _ fun d before => ?_) ⟨⟨c,timer,Function.update_self ..⟩,known.2⟩ (by simp [control])
    by_cases same : d = c
    · subst same
      exact Function.update_self ..
    · exact (Function.update_of_ne same ..).trans before
  | skip created i after control timer =>
    rw [control] at known
    have contextless := (inv.whole i (by simp [control])).symm.trans timer
    exact inv.calm (calm_control _ fun _ => id) ⟨⟨known.1,timer,by simp [contextless]⟩,known.2⟩ (by simp [control])
  | cancel created i after c control timer =>
    rw [control] at known
    obtain ⟨⟨d,same,disarmed⟩,apart⟩ := known
    obtain rfl : c = d := Option.some.inj (timer.symm.trans same)
    refine inv.calm ?_ ⟨⟨c,timer,disarmed,unqueued_cancel⟩,apart⟩ (by simp [control])
    exact ⟨fun _ => rfl,fun _ => rfl,fun _ => rfl,rfl,rfl,rfl,fun _ => id,settles_cancel⟩
  | drain created i after c control timer drained =>
    rw [control] at known
    obtain ⟨⟨d,same,disarmed,_⟩,apart⟩ := known
    obtain rfl : c = d := Option.some.inj (timer.symm.trans same)
    exact inv.calm (calm_control _ fun _ => id) ⟨⟨c,timer,disarmed,drained_iff.mp drained⟩,apart⟩ (by simp [control])
  | close created i after control => exact inv_close inv control
  | reset created i after control unlocked => exact inv_reset inv control
  | create i periodMs cb control => exact inv_create inv control
  | createFails i periodMs cb control => exact inv_createFails inv control
  | arm created i c control timer => exact inv_arm inv control timer
  | set created i control unlocked =>
    exact inv.calm ((calm_control .idle fun _ => id).setObject i _ rfl rfl rfl) trivial (by simp [control])
  | destroy created i control =>
    rw [control] at known
    exact inv_replace inv known ⟨rfl,rfl⟩ (by simp [control]) trivial
  | assign created i other control =>
    rw [control] at known
    simp only [known.2,free]
    exact inv_take inv (null.2 created i other rfl control) known.2 (by simp [control])
  | fire c armed => exact inv_fire inv armed
  | run k c found callable => exact inv.settle (calm_goto ⟨c,.running⟩ found .run) rfl
  | empty k c found | finish k c found => exact inv.settle (calm_goto ⟨c,.ended⟩ found .finish) rfl
  | clear k c i found oneShot owner unlocked =>
    exact inv.settle ((calm_goto ⟨c,.unlocking i⟩ found .lock).setObject
      i {s.objects i with running := false, mutex := some k} rfl rfl rfl) rfl
  | unlock k c i found =>
    exact inv.settle ((calm_goto ⟨c,.ended⟩ found .finish).setObject i {s.objects i with mutex := none} rfl rfl rfl) rfl

/-- The callbacks and the mutexes they hold. -/
structure Locks (s : State) : Prop where
  made : Every (fun _ callback => callback.context < s.made) s.callbacks
  placed : ∀ k c i, s.callbacks[k]? = some ⟨c,.unlocking i⟩ → (s.contexts c).timer = i ∧ (s.objects i).mutex = some k
  holder : ∀ i k, (s.objects i).mutex = some k → ∃ c, s.callbacks[k]? = some ⟨c,.unlocking i⟩

theorem locks_init : Locks init := ⟨Every.nil _,by simp [init],by simp [init,Object.absent]⟩

theorem Locks.keep {s t : State} (locks : Locks s) (callbacks : t.callbacks = s.callbacks)
    (mutex : ∀ i, (t.objects i).mutex = (s.objects i).mutex) (made : s.made ≤ t.made)
    (contexts : ∀ c, c < s.made → t.contexts c = s.contexts c) : Locks t := by
  refine ⟨?_,fun k c i found => ?_,fun i k held => ?_⟩
  · rw [callbacks]
    exact locks.made.imp fun _ _ _ known => Nat.lt_of_lt_of_le known made
  · rw [callbacks] at found
    rw [contexts c (locks.made k _ found),mutex]
    exact locks.placed k c i found
  · rw [callbacks]
    exact locks.holder i k ((mutex i).symm.trans held)

theorem Locks.goto {s : State} {k c : Nat} {before after : Point} (locks : Locks s) (found : s.callbacks[k]? = some ⟨c,before⟩)
    (unlocked : ∀ i, before ≠ .unlocking i) (outside : ∀ i, after ≠ .unlocking i) : Locks (s.goto k ⟨c,after⟩) := by
  have known : c < s.made := locks.made k _ found
  refine ⟨locks.made.set known,fun j d i present => ?_,fun i j held => ?_⟩
  · rcases get_set present with ⟨rfl,same⟩ | ⟨_,kept⟩
    · cases same
      exact absurd rfl (outside i)
    · exact locks.placed j d i kept
  · obtain ⟨d,present⟩ := locks.holder i j held
    by_cases own : j = k
    · subst own
      cases present.symm.trans found
      exact absurd rfl (unlocked i)
    · exact ⟨d,(List.getElem?_set_ne (Ne.symm own)).trans present⟩

/-- No callback is inside the mutex of an object that owns nothing. -/
theorem Locks.unheld {s : State} (locks : Locks s) (inv : Inv s) {i : Nat} (contextless : (s.objects i).context = none) :
    (s.objects i).mutex = none := by
  by_contra held
  obtain ⟨k,held⟩ := Option.ne_none_iff_exists'.mp held
  obtain ⟨c,found⟩ := locks.holder i k held
  have owned := (inv.owned c (inv.flying k _ found rfl)).2
  rw [(locks.placed k c i found).1,contextless] at owned
  contradiction

theorem locks_clear {s : State} {k c i : Nat} (locks : Locks s) (found : s.callbacks[k]? = some ⟨c,.running⟩)
    (owner : (s.contexts c).timer = i) (unlocked : (s.objects i).mutex = none) :
    Locks ((s.goto k ⟨c,.unlocking i⟩).setObject i {s.objects i with running := false, mutex := some k}) := by
  have self := setObject_self (s.goto k ⟨c,.unlocking i⟩) i {s.objects i with running := false, mutex := some k}
  have other {j : Nat} (other : j ≠ i) :=
    setObject_other (s.goto k ⟨c,.unlocking i⟩) {s.objects i with running := false, mutex := some k} other
  have known : c < s.made := locks.made k _ found
  refine ⟨locks.made.set known,fun j d l present => ?_,fun l j held => ?_⟩
  · rcases get_set present with ⟨rfl,same⟩ | ⟨_,kept⟩
    · cases same
      exact ⟨owner,congrArg Object.mutex self⟩
    · obtain ⟨timer,held⟩ := locks.placed j d l kept
      have different : l ≠ i := by
        rintro rfl
        exact absurd (held.symm.trans unlocked) (by simp)
      exact ⟨timer,(congrArg Object.mutex (other different)).trans held⟩
  · by_cases own : l = i
    · subst own
      obtain rfl : k = j := Option.some.inj ((congrArg Object.mutex self).symm.trans held)
      exact ⟨c,get_self found⟩
    · obtain ⟨d,present⟩ := locks.holder l j ((congrArg Object.mutex (other own)).symm.trans held)
      have different : j ≠ k := by
        rintro rfl
        cases present.symm.trans found
      exact ⟨d,(List.getElem?_set_ne (Ne.symm different)).trans present⟩

theorem locks_unlock {s : State} {k c i : Nat} (locks : Locks s) (found : s.callbacks[k]? = some ⟨c,.unlocking i⟩) :
    Locks ((s.goto k ⟨c,.ended⟩).setObject i {s.objects i with mutex := none}) := by
  have self := setObject_self (s.goto k ⟨c,.ended⟩) i {s.objects i with mutex := none}
  have other {j : Nat} (other : j ≠ i) := setObject_other (s.goto k ⟨c,.ended⟩) {s.objects i with mutex := none} other
  have ours := (locks.placed k c i found).2
  have known : c < s.made := locks.made k _ found
  refine ⟨locks.made.set known,fun j d l present => ?_,fun l j held => ?_⟩
  · rcases get_set present with ⟨rfl,same⟩ | ⟨different,kept⟩
    · cases same
    · obtain ⟨timer,held⟩ := locks.placed j d l kept
      refine ⟨timer,(congrArg Object.mutex (other fun same => ?_)).trans held⟩
      subst same
      exact different (Option.some.inj (held.symm.trans ours))
  · have different : l ≠ i := by
      rintro rfl
      exact absurd ((congrArg Object.mutex self).symm.trans held) (by simp)
    have before := (congrArg Object.mutex (other different)).symm.trans held
    obtain ⟨d,present⟩ := locks.holder l j before
    refine ⟨d,(List.getElem?_set_ne fun same => ?_).trans present⟩
    subst same
    cases present.symm.trans found
    exact different rfl

theorem Locks.absent {s : State} (locks : Locks s) (inv : Inv s) {i : Nat} (absent : (s.objects i).alive = false) :
    (s.objects i).mutex = none :=
  locks.unheld inv (inv.absent absent)

theorem take_mutex (s : State) {i : Nat} (other : Nat) {object : Object} (mutex : object.mutex = (s.objects i).mutex) (j : Nat) :
    ((s.take i other object).objects j).mutex = (s.objects j).mutex := by
  have emptied := setObject_keeps Object.mutex s other
    {s.objects other with timer := none, context := none, running := false, started := none} rfl
  refine (setObject_keeps Object.mutex _ i _ ?_ j).trans (emptied j)
  exact mutex.trans (emptied i).symm

theorem locks_step (s : State) (label : Label) (t : State) (inv : Inv s) (locks : Locks s) (taken : step s label = some t) :
    Locks t := by
  have known := inv.control
  cases step_moves s label t taken with
  | construct i idle absent =>
    exact locks.keep rfl (setObject_keeps Object.mutex s _ _ (locks.absent inv absent).symm) (Nat.le_refl _) fun _ _ => rfl
  | moveConstruct i other idle absent present =>
    exact locks.keep rfl (take_mutex s other (locks.absent inv absent).symm) (Nat.le_refl _) fun _ _ => rfl
  | destroy created i control =>
    rw [control] at known
    exact locks.keep rfl (setObject_keeps Object.mutex s _ _ (locks.unheld inv known).symm) (Nat.le_refl _) fun _ _ => rfl
  | assignSelf i => exact locks
  | call | moveAssign | disarm | skip | drain | arm => exact locks.keep rfl (fun _ => rfl) (Nat.le_refl _) fun _ _ => rfl
  | close | reset | createFails | set =>
    exact locks.keep rfl (setObject_keeps Object.mutex s _ _ (by rfl)) (Nat.le_refl _) fun _ _ => rfl
  | create i periodMs cb control =>
    refine locks.keep rfl (setObject_keeps Object.mutex s _ _ (by rfl)) (Nat.le_succ _) fun c known => ?_
    exact Function.update_of_ne (Nat.ne_of_lt known) ..
  | assign created i other control => exact locks.keep rfl (take_mutex s other rfl) (Nat.le_refl _) fun _ _ => rfl
  | cancel created i after c control timer =>
    refine ⟨settles_cancel.contexts (fun c => c < s.made) locks.made,fun k d l found => ?_,fun l k held => ?_⟩
    · rcases get_cancel found with ⟨_,same⟩ | ⟨present,_⟩
      · cases same
      · exact locks.placed k d l present
    · obtain ⟨d,present⟩ := locks.holder l k held
      exact ⟨d,get_cancel_other present (by simp)⟩
  | fire c armed =>
    refine ⟨locks.made.append (inv.owned c (inv.armed c armed)).1,fun k d l found => ?_,fun l k held => ?_⟩
    · rcases get_append found with present | ⟨_,same⟩
      · exact locks.placed k d l present
      · cases same
    · obtain ⟨d,present⟩ := locks.holder l k held
      exact ⟨d,get_grows present⟩
  | run k c found | empty k c found | finish k c found => exact locks.goto found (by simp) (by simp)
  | clear k c i found oneShot owner unlocked => exact locks_clear locks found owner unlocked
  | unlock k c i found => exact locks_unlock locks found

theorem unmoved_step (s : State) (label : Label) (t : State) (rests : s.control.moves = false) (unmoved : label.moves = false)
    (taken : step s label = some t) : t.control.moves = false := by
  cases step_moves s label t taken with
  | moveConstruct | moveAssign | assignSelf => contradiction
  | call label i after idle alive stays => exact stays
  | disarm created i after c control | skip created i after control | cancel created i after c control
  | drain created i after c control | close created i after control =>
    rw [control] at rests
    exact rests
  | reset created i after control =>
    rw [control] at rests
    cases after with
    | assign => contradiction
    | nothing | start | destroy => rfl
  | create | createFails | arm | set | destroy | assign => rfl
  | construct | fire | run | empty | finish | clear | unlock => exact rests

theorem null_unmoved (s : State) (label : Label) (rests : s.control.moves = false) (unmoved : label.moves = false) :
    NullSource s label := by
  constructor
  · rintro i other rfl
    contradiction
  · intro created i other same control
    rw [control] at rests
    contradiction

/-- What holds of timers as long as none is moved. -/
structure Unmoved (s : State) : Prop where
  inv : Inv s
  locks : Locks s
  rests : s.control.moves = false

theorem Unmoved.unassigned {s : State} {i other : Nat} (known : Unmoved s) (control : s.control = .assigning i other) : False := by
  have rests := known.rests
  rw [control] at rests
  contradiction

theorem unmoved_init : Unmoved init := ⟨inv_init,locks_init,rfl⟩

theorem Unmoved.step {s t : State} {label : Label} (known : Unmoved s) (unmoved : label.moves = false)
    (taken : Timer.step s label = some t) : Unmoved t :=
  ⟨inv_step s label t known.inv (null_unmoved s label known.rests unmoved) taken,
    locks_step s label t known.inv known.locks taken,unmoved_step s label t known.rests unmoved taken⟩

theorem unmoved_run {labels : List Label} {s : State} (unmoved : ∀ label ∈ labels, label.moves = false)
    (reached : run step init labels = some s) : Unmoved s :=
  run_invariant_obeying Unmoved (fun _ label => label.moves = false) (fun _ _ _ known => known.step)
    unmoved_init (obeys_of_labels (fun label member _ => unmoved label member) init) reached

theorem dead_step (c : Nat) (s : State) (label : Label) (t : State) (dead : c < s.made ∧ s.live c = false)
    (taken : step s label = some t) : c < t.made ∧ t.live c = false := by
  have freed (context : Option Nat) : free context s.live c = false :=
    Bool.eq_false_iff.mpr fun live => Bool.false_ne_true (dead.2.symm.trans (free_iff.mp live).1)
  cases step_moves s label t taken with
  | reset | createFails | assign => exact ⟨dead.1,freed _⟩
  | create i periodMs cb control =>
    exact ⟨Nat.lt_succ_of_lt dead.1,(Function.update_of_ne (Nat.ne_of_lt dead.1) ..).trans (freed _)⟩
  | _ => exact dead

/-- A callback in flight uses the context of a living timer, which is neither freed
nor replaced; and none is in flight that was started before a `Stop` has returned. -/
theorem callbacks_safe {labels : List Label} {s : State} (unmoved : ∀ label ∈ labels, label.moves = false)
    (reached : run step init labels = some s) :
    (∀ (k : Nat) (callback : Callback), s.callbacks[k]? = some callback → callback.inFlight = true →
      s.live callback.context = true ∧ (s.objects (s.contexts callback.context).timer).alive = true ∧
      (s.objects (s.contexts callback.context).timer).context = some callback.context ∧
      ∀ i, callback.point = .unlocking i → i = (s.contexts callback.context).timer) ∧
    (∀ (before : List Label) (created : Bool) (rest : List Label) (early stopped : State) (i : Nat) (after : After),
      labels = before ++ .control created :: rest → run step init before = some early →
      early.control = .stopping i .reset after → step early (.control created) = some stopped →
      ∀ (k : Nat) (callback : Callback), s.callbacks[k]? = some callback → callback.context < stopped.made →
        (stopped.contexts callback.context).timer = i → callback.inFlight = false) := by
  obtain ⟨inv,locks,_⟩ := unmoved_run unmoved reached
  constructor
  · intro k callback found flying
    have live := inv.flying k callback found flying
    have owned := (inv.owned callback.context live).2
    refine ⟨live,(inv.linked _ _ owned).2.2,owned,fun i point => ?_⟩
    obtain ⟨c,_⟩ := callback
    cases point
    exact (locks.placed k c i found).1.symm
  · intro before created rest early stopped i after split prior control taken k callback found made timer
    subst split
    have permitted (label : Label) (member : label ∈ before ++ [.control created]) : label.moves = false :=
      unmoved label (by
        simp only [List.mem_append,List.mem_cons,List.not_mem_nil,or_false] at member ⊢
        exact member.imp_right Or.inl)
    have stops : run step init (before ++ [.control created]) = some stopped := run_trans prior (run_step taken rfl)
    have resumed : run step stopped rest = some s := by
      rw [run_append,prior] at reached
      obtain ⟨next,same,remaining⟩ := run_cons_some reached
      cases taken.symm.trans same
      exact remaining
    have contextless : (stopped.objects i).context = none := by
      simp only [step,advance,control,stopStep] at taken
      split at taken
      next =>
        cases taken
        exact congrArg Object.context (setObject_self early i _)
      next => contradiction
    have dead : stopped.live callback.context = false := by
      refine Bool.eq_false_iff.mpr fun live => ?_
      have owned := ((unmoved_run permitted stops).inv.owned callback.context live).2
      rw [timer,contextless] at owned
      contradiction
    have later := run_invariant _ (dead_step callback.context) ⟨made,dead⟩ resumed
    exact Bool.eq_false_iff.mpr fun flying => Bool.false_ne_true (later.2.symm.trans (inv.flying k callback found flying))

/-- `Stop` waits for a running callback of a periodic timer. -/
theorem callbacks_safe_stop :
    ∃ s, run step init ([.construct 0,.start 0 10 true,.control false,.control false,.control true,.control false,.control false,
        .fire 0,.callback 0,.stop 0,.control false,.control false,.callback 0,.control false,.control false] ++
          .control false :: []) = some s ∧
      ∀ (k : Nat) (callback : Callback), s.callbacks[k]? = some callback → callback.context = 0 → callback.inFlight = false := by
  obtain ⟨early,s,prior,control,taken,made,timer⟩ : ∃ early s, run step init
      [.construct 0,.start 0 10 true,.control false,.control false,.control true,.control false,.control false,
        .fire 0,.callback 0,.stop 0,.control false,.control false,.callback 0,.control false,.control false] = some early ∧
      early.control = .stopping 0 .reset .nothing ∧ step early (.control false) = some s ∧ s.made = 1 ∧
      (s.contexts 0).timer = 0 := ⟨_,_,rfl,rfl,rfl,rfl,rfl⟩
  have stops : run step early [.control false] = some s := run_step taken rfl
  have reached := run_trans prior stops
  refine ⟨s,reached,fun k callback found same => ?_⟩
  refine (callbacks_safe (by decide) reached).2 _ false [] early s 0 .nothing rfl prior control taken k callback found ?_ ?_
  · rw [same,made]
    decide
  · rw [same,timer]

end Ezthread.Timer
