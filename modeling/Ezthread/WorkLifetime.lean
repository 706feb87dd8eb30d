import Ezthread.Work

/-! When the context and the `Work` that a callback uses outlive it. -/
namespace Ezthread.Work
open Transition Activation Callbacks

/-- What the remaining steps of a callback use is there: its context and the object
that refers to it, or once inside the mutex the object alone. -/
def Safe (s : State) (callback : Callback) : Prop :=
  (callback.uses = true →
    s.live callback.context = true ∧ (s.objects (s.contexts callback.context).self).alive = true) ∧
  ∀ i, callback.point = .unlocking i → (s.objects i).alive = true

def Sound (s : State) : Prop := Every (fun _ callback => Safe s callback) s.callbacks

/-- The context and the object that a callback's next step reads or writes. -/
def touches (s : State) : Callback → Option Nat × Option Nat
  | ⟨c,.queued⟩ => (some c,none)
  | ⟨c,.running⟩ => (some c,some (s.contexts c).self)
  | ⟨_,.unlocking i⟩ => (none,some i)
  | _ => (none,none)

/-- A callback's step touches no freed context and no destroyed object. -/
def TouchesLive (s : State) (label : Label) : Prop :=
  ∀ (k : Nat) (callback : Callback), label = .callback k → s.callbacks[k]? = some callback →
    (∀ c, (touches s callback).1 = some c → s.live c = true) ∧
    ∀ i, (touches s callback).2 = some i → (s.objects i).alive = true

/-- A work is destroyed when no callback has a step left that uses it or its context,
and moved over when none has a step left that uses its context. -/
def Outlives (s : State) (label : Label) : Prop :=
  (∀ (i k : Nat) (callback : Callback), label = .destroy i → s.callbacks[k]? = some callback →
    callback.point ≠ .unlocking i ∧ (callback.uses = true →
      (s.objects i).context ≠ some callback.context ∧ (s.contexts callback.context).self ≠ i)) ∧
  (∀ (i other k : Nat) (callback : Callback), label = .moveAssign i other → i ≠ other →
    s.callbacks[k]? = some callback → callback.uses = true → (s.objects i).context ≠ some callback.context)

/-- What a place of the controlling thread says of the object and of its context. -/
def Fact (s : State) : Control → Prop
  | .creating i => (s.objects i).alive = true ∧ ∃ c, (s.objects i).context = some c ∧ c < s.made ∧ s.live c = true ∧
      (s.contexts c).self = i ∧ Every (fun _ callback => callback.context ≠ c) s.callbacks
  | .submitting i => (s.objects i).alive = true ∧ ∃ c, (s.objects i).work = some c ∧ c < s.made ∧ s.live c = true ∧
      (s.contexts c).self = i
  | .cancelling i .close => ∃ c, (s.objects i).work = some c ∧ Quiet c s.callbacks
  | .idle | .cancelling _ _ => True

/-- What holds in every run. -/
structure Placed (s : State) : Prop where
  made : Every (fun _ callback => callback.context < s.made) s.callbacks
  alive : ∀ i c, (s.objects i).context = some c → (s.objects i).alive = true
  whole : ∀ i, s.control ≠ .creating i → (s.objects i).work = (s.objects i).context
  control : Fact s s.control

structure Inv (s : State) : Prop extends Placed s where
  sound : Sound s

theorem setObject_self (s : State) (i : Nat) (object : Object) : (s.setObject i object).objects i = object :=
  Function.update_self ..

theorem setObject_other (s : State) {i j : Nat} (object : Object) (other : j ≠ i) :
    (s.setObject i object).objects j = s.objects j :=
  Function.update_of_ne other ..

theorem setObject_keeps {Member : Type*} (member : Object → Member) (s : State) (i : Nat) (object : Object)
    (same : member object = member (s.objects i)) (j : Nat) :
    member ((s.setObject i object).objects j) = member (s.objects j) :=
  update_keeps member s.objects i object same j

theorem take_alive (s : State) {i : Nat} (other : Nat) {object : Object} (alive : object.alive = true) (j : Nat)
    (before : (s.objects j).alive = true) : ((s.take i other object).objects j).alive = true := by
  by_cases own : j = i
  · subst own
    exact (congrArg Object.alive (setObject_self _ j _)).trans alive
  · refine (congrArg Object.alive (setObject_other _ _ own)).trans ?_
    exact (setObject_keeps Object.alive s other _ (by rfl) j).trans before

theorem take_whole (s : State) {i other : Nat} (object : Object) (whole : ∀ j, (s.objects j).work = (s.objects j).context)
    (j : Nat) : ((s.take i other object).objects j).work = ((s.take i other object).objects j).context := by
  by_cases own : j = i
  · subst own
    rw [State.take,setObject_self]
    exact whole other
  · rw [State.take,setObject_other _ _ own]
    by_cases source : j = other
    · subst source
      rw [setObject_self]
    · rw [setObject_other _ _ source]
      exact whole j

theorem whole_setObject {s : State} {i : Nat} {object : Object} (whole : ∀ j, j ≠ i → (s.objects j).work = (s.objects j).context)
    (own : object.work = object.context) (j : Nat) :
    ((s.setObject i object).objects j).work = ((s.setObject i object).objects j).context := by
  by_cases same : j = i
  · subst same
    rw [setObject_self]
    exact own
  · rw [setObject_other s object same]
    exact whole j same

theorem alive_setObject {s : State} {i : Nat} {object : Object}
    (alive : ∀ j c, (s.objects j).context = some c → (s.objects j).alive = true)
    (own : ∀ c, object.context = some c → object.alive = true) (j c : Nat)
    (context : ((s.setObject i object).objects j).context = some c) : ((s.setObject i object).objects j).alive = true := by
  by_cases same : j = i
  · subst same
    rw [setObject_self] at context ⊢
    exact own c context
  · rw [setObject_other s object same] at context ⊢
    exact alive j c context

theorem alive_take {s : State} {i other : Nat} {object : Object}
    (owners : ∀ j c, (s.objects j).context = some c → (s.objects j).alive = true) (alive : object.alive = true) (j c : Nat)
    (context : ((s.take i other object).objects j).context = some c) : ((s.take i other object).objects j).alive = true := by
  have emptied := alive_setObject (i := other) owners
    (by simp : ∀ c, ({s.objects other with work := none, context := none} : Object).context = some c → _)
  refine alive_setObject emptied ?_ j c context
  exact fun _ _ => alive

/-- A place says the same after a callback's step that leaves the handles alone. -/
theorem Fact.settle {s t : State} (objects : ∀ i, (t.objects i).alive = (s.objects i).alive ∧
      (t.objects i).work = (s.objects i).work ∧ (t.objects i).context = (s.objects i).context)
    (contexts : t.contexts = s.contexts) (made : t.made = s.made) (live : t.live = s.live)
    (settles : Settles s.callbacks t.callbacks) : ∀ {control : Control}, Fact s control → Fact t control := by
  intro control fact
  cases control with
  | idle => trivial
  | creating i =>
    obtain ⟨alive,c,context,known,living,self,fresh⟩ := fact
    refine ⟨(objects i).1.trans alive,c,(objects i).2.2.trans context,?_,?_,?_,settles.contexts (fun d => d ≠ c) fresh⟩
    · rw [made]
      exact known
    · rw [live]
      exact living
    · rw [contexts]
      exact self
  | submitting i =>
    obtain ⟨alive,c,work,known,living,self⟩ := fact
    refine ⟨(objects i).1.trans alive,c,(objects i).2.1.trans work,?_,?_,?_⟩
    · rw [made]
      exact known
    · rw [live]
      exact living
    · rw [contexts]
      exact self
  | cancelling i phase =>
    cases phase with
    | cancel | drain | finish => trivial
    | close =>
      obtain ⟨c,work,quiet⟩ := fact
      exact ⟨c,(objects i).2.1.trans work,settles.quiet quiet⟩

section Changes
variable {s : State} {i : Nat}

theorem Placed.absent (placed : Placed s) (absent : (s.objects i).alive = false) : (s.objects i).context = none := by
  by_contra context
  obtain ⟨c,context⟩ := Option.ne_none_iff_exists'.mp context
  exact Bool.false_ne_true (absent.symm.trans (placed.alive i c context))

theorem Placed.contextless (placed : Placed s) (idle : s.control = .idle) (unsubmitted : (s.objects i).work = none) :
    (s.objects i).context = none :=
  (placed.whole i (by simp [idle])).symm.trans unsubmitted

theorem prepare_live (contextless : (s.objects i).context = none) :
    (prepare s i).live = Function.update s.live s.made true := by
  simp only [prepare,contextless,free]

theorem placed_submit (placed : Placed s) (idle : s.control = .idle) (alive : (s.objects i).alive = true)
    (unsubmitted : (s.objects i).work = none) : Placed (prepare s i) := by
  have contextless := placed.contextless idle unsubmitted
  have same := setObject_keeps Object.alive s i {s.objects i with context := some s.made, complete := false, submitted := true} rfl
  refine ⟨placed.made.imp fun _ _ _ => Nat.lt_succ_of_lt,alive_setObject placed.alive fun _ _ => alive,fun j other => ?_,
    (same i).trans alive,s.made,congrArg Object.context (setObject_self s i _),Nat.lt_succ_self _,?_,?_,?_⟩
  · have different : j ≠ i := by
      rintro rfl
      exact other rfl
    exact (congrArg Object.work (setObject_other s _ different)).trans
      ((placed.whole j (by simp [idle])).trans (congrArg Object.context (setObject_other s _ different)).symm)
  · rw [prepare_live contextless]
    exact Function.update_self ..
  · exact congrArg WorkContext.self (Function.update_self s.made _ s.contexts)
  · exact placed.made.imp fun _ _ _ => Nat.ne_of_lt

theorem Placed.keep {t : State} (placed : Placed s) (callbacks : t.callbacks = s.callbacks) (made : t.made = s.made)
    (alive : ∀ j c, (t.objects j).context = some c → (t.objects j).alive = true)
    (whole : ∀ j, (t.objects j).work = (t.objects j).context) (fact : Fact t t.control) : Placed t := by
  refine ⟨?_,alive,fun j _ => whole j,fact⟩
  rw [callbacks,made]
  exact placed.made

theorem Placed.settle {t : State} (placed : Placed s) (objects : ∀ i, (t.objects i).alive = (s.objects i).alive ∧
      (t.objects i).work = (s.objects i).work ∧ (t.objects i).context = (s.objects i).context)
    (made : t.made = s.made) (settles : Settles s.callbacks t.callbacks)
    (creating : ∀ i, s.control = .creating i → t.control = .creating i) (fact : Fact t t.control) : Placed t := by
  refine ⟨?_,fun i c context => ?_,fun i uncreated => ?_,fact⟩
  · rw [made]
    exact settles.contexts (fun d => d < s.made) placed.made
  · exact (objects i).1.trans (placed.alive i c ((objects i).2.2.symm.trans context))
  · have whole := placed.whole i fun creates => uncreated (creating i creates)
    exact (objects i).2.1.trans (whole.trans (objects i).2.2.symm)

end Changes

theorem callback_objects {s : State} {k i : Nat} (callback : Callback) (object : Object)
    (same : object.alive = (s.objects i).alive ∧ object.work = (s.objects i).work ∧ object.context = (s.objects i).context)
    (j : Nat) : (((s.goto k callback).setObject i object).objects j).alive = (s.objects j).alive ∧
      (((s.goto k callback).setObject i object).objects j).work = (s.objects j).work ∧
      (((s.goto k callback).setObject i object).objects j).context = (s.objects j).context :=
  ⟨setObject_keeps Object.alive (s.goto k callback) i object same.1 j,
    setObject_keeps Object.work (s.goto k callback) i object same.2.1 j,
    setObject_keeps Object.context (s.goto k callback) i object same.2.2 j⟩

theorem placed_step (s : State) (label : Label) (t : State) (placed : Placed s) (taken : step s label = some t) : Placed t := by
  have fact := placed.control
  have idles (idle : s.control = .idle) (i : Nat) : (s.objects i).work = (s.objects i).context := placed.whole i (by simp [idle])
  have rests {t : State} (idle : s.control = .idle) : Fact t s.control := by
    rw [idle]
    trivial
  cases step_moves s label t taken with
  | construct i idle absent =>
    exact placed.keep rfl rfl (alive_setObject placed.alive (by simp [Object.new]))
      (whole_setObject (fun j _ => idles idle j) rfl) (rests idle)
  | moveConstruct i other idle absent present =>
    exact placed.keep rfl rfl (alive_take placed.alive rfl) (take_whole s .new (idles idle)) (rests idle)
  | assignSelf | refuse => exact placed
  | moveAssign i other idle alive present different =>
    exact placed.keep rfl rfl (alive_take placed.alive alive) (take_whole s _ (idles idle)) (rests idle)
  | submit i idle alive unsubmitted => exact placed_submit placed idle alive unsubmitted
  | cancel i idle alive phase begins =>
    refine placed.keep rfl rfl placed.alive (idles idle) ?_
    rw [begins]
    split <;> trivial
  | destroy i idle alive =>
    exact placed.keep rfl rfl (alive_setObject placed.alive (by simp [Object.absent]))
      (whole_setObject (fun j _ => idles idle j) rfl) (rests idle)
  | create i control =>
    rw [control] at fact
    obtain ⟨alive,c,context,known,live,self,_⟩ := fact
    have same := setObject_keeps Object.alive s i {s.objects i with work := (s.objects i).context} rfl
    exact placed.keep rfl rfl (alive_setObject placed.alive fun _ _ => alive)
      (whole_setObject (fun j different => placed.whole j (by simp [control,Ne.symm different])) rfl)
      ⟨(same i).trans alive,c,(congrArg Object.work (setObject_self s i _)).trans context,known,live,self⟩
  | createFails i control =>
    exact placed.keep rfl rfl (alive_setObject placed.alive (by simp))
      (whole_setObject (fun j different => placed.whole j (by simp [control,Ne.symm different])) rfl) trivial
  | queue created i c control work =>
    rw [control] at fact
    obtain ⟨_,d,own,known,_⟩ := fact
    obtain rfl : c = d := Option.some.inj (work.symm.trans own)
    exact ⟨placed.made.append known,placed.alive,fun j _ => placed.whole j (by simp [control]),trivial⟩
  | cancelQueued created i c control work =>
    exact placed.settle (fun _ => ⟨rfl,rfl,rfl⟩) rfl settles_cancel (by simp [control]) trivial
  | drain created i c control work drained =>
    exact placed.keep rfl rfl placed.alive (fun j => placed.whole j (by simp [control])) ⟨c,work,drained_iff.mp drained⟩
  | close created i control =>
    exact placed.keep rfl rfl (alive_setObject placed.alive (by simp))
      (whole_setObject (fun j _ => placed.whole j (by simp [control])) rfl) trivial
  | finish created i control unlocked =>
    have whole (j : Nat) : (s.objects j).work = (s.objects j).context := placed.whole j (by simp [control])
    exact placed.keep rfl rfl (alive_setObject placed.alive (placed.alive i)) (whole_setObject (fun j _ => whole j) (whole i)) trivial
  | run k c found =>
    have settles : Settles s.callbacks (s.callbacks.set k ⟨c,.running⟩) := settles_set found .run
    exact placed.settle (fun _ => ⟨rfl,rfl,rfl⟩) rfl settles (fun _ => id)
      (Fact.settle (s := s) (t := s.goto k ⟨c,.running⟩) (fun _ => ⟨rfl,rfl,rfl⟩) rfl rfl rfl settles fact)
  | complete k c i found self unlocked =>
    have settles : Settles s.callbacks (s.callbacks.set k ⟨c,.unlocking i⟩) := settles_set found .lock
    have objects := callback_objects (s := s) (k := k) (i := i) ⟨c,.unlocking i⟩
      {s.objects i with complete := true, mutex := some k} ⟨rfl,rfl,rfl⟩
    exact placed.settle objects rfl settles (fun _ => id) (Fact.settle objects rfl rfl rfl settles fact)
  | unlock k c i found =>
    have settles : Settles s.callbacks (s.callbacks.set k ⟨c,.ended⟩) := settles_set found .finish
    have objects := callback_objects (s := s) (k := k) (i := i) ⟨c,.ended⟩ {s.objects i with mutex := none} ⟨rfl,rfl,rfl⟩
    exact placed.settle objects rfl settles (fun _ => id) (Fact.settle objects rfl rfl rfl settles fact)
  | wait | pass | sleep | wake | timeout | giveUp => exact ⟨placed.made,placed.alive,placed.whole,placed.control⟩

theorem placed_init : Placed init := ⟨Every.nil _,by simp [init,Object.absent],fun _ _ => rfl,trivial⟩

theorem inv_init : Inv init := ⟨placed_init,Every.nil _⟩

/-- A step that frees nothing a callback still uses, and destroys nothing. -/
theorem Sound.keep {s t : State} (inv : Inv s) (callbacks : t.callbacks = s.callbacks)
    (contexts : ∀ c, c < s.made → t.contexts c = s.contexts c) (alive : ∀ i, (s.objects i).alive = true → (t.objects i).alive = true)
    (live : ∀ (k : Nat) (callback : Callback), s.callbacks[k]? = some callback → callback.uses = true →
      s.live callback.context = true → t.live callback.context = true) : Sound t := by
  unfold Sound
  rw [callbacks]
  intro k callback found
  obtain ⟨uses,unlocking⟩ := inv.sound k callback found
  refine ⟨fun still => ?_,fun i point => alive i (unlocking i point)⟩
  rw [contexts callback.context (inv.made k callback found)]
  exact ⟨live k callback found still (uses still).1,alive _ (uses still).2⟩

theorem freed {s : State} {context : Option Nat}
    (unused : ∀ (k : Nat) (callback : Callback), s.callbacks[k]? = some callback → callback.uses = true →
      context ≠ some callback.context) (k : Nat) (callback : Callback) (found : s.callbacks[k]? = some callback)
    (uses : callback.uses = true) (live : s.live callback.context = true) : free context s.live callback.context = true :=
  free_iff.mpr ⟨live,unused k callback found uses⟩

theorem Sound.setObject {s : State} {i : Nat} {object : Object} (inv : Inv s) (live : Nat → Bool) (control : Control)
    (alive : object.alive = (s.objects i).alive)
    (unfreed : ∀ (k : Nat) (callback : Callback), s.callbacks[k]? = some callback → callback.uses = true →
      s.live callback.context = true → live callback.context = true) :
    Sound {s.setObject i object with live := live, control := control} :=
  Sound.keep inv rfl (fun _ _ => rfl) (fun j => (setObject_keeps Object.alive s i object alive j).trans) unfreed

/-- A callback's step that ends where the object it is to touch is alive. -/
theorem Sound.callback {s t : State} {k c : Nat} {before : Point} (inv : Inv s) (found : s.callbacks[k]? = some ⟨c,before⟩)
    (after : Point) (uses : Callback.uses ⟨c,after⟩ = true → Callback.uses ⟨c,before⟩ = true)
    (alive : ∀ i, (t.objects i).alive = (s.objects i).alive) (contexts : t.contexts = s.contexts) (live : t.live = s.live)
    (callbacks : t.callbacks = s.callbacks.set k ⟨c,after⟩)
    (unlocks : ∀ i, after = .unlocking i → (s.objects i).alive = true) : Sound t := by
  intro j callback present
  unfold Safe
  rw [live,contexts,alive]
  rw [callbacks] at present
  rcases get_set present with ⟨_,rfl⟩ | ⟨_,kept⟩
  · exact ⟨fun still => (inv.sound k _ found).1 (uses still),fun i point => (alive i).trans (unlocks i point)⟩
  · obtain ⟨used,unlocking⟩ := inv.sound j callback kept
    exact ⟨used,fun i point => (alive i).trans (unlocking i point)⟩

theorem sound_destroy {s : State} {i : Nat} (inv : Inv s) (outlives : Outlives s (.destroy i)) :
    Sound {s.setObject i .absent with live := free (s.objects i).context s.live} := by
  intro k callback found
  obtain ⟨uses,unlocking⟩ := inv.sound k callback found
  obtain ⟨outside,foreign⟩ := outlives.1 i k callback rfl found
  refine ⟨fun still => ?_,fun l point => ?_⟩
  · obtain ⟨unowned,other⟩ := foreign still
    exact ⟨free_iff.mpr ⟨(uses still).1,unowned⟩,(congrArg Object.alive (setObject_other s .absent other)).trans (uses still).2⟩
  · have other : l ≠ i := by
      rintro rfl
      exact outside point
    exact (congrArg Object.alive (setObject_other s .absent other)).trans (unlocking l point)

theorem sound_queue {s : State} {i c : Nat} (inv : Inv s) (control : s.control = .submitting i)
    (work : (s.objects i).work = some c) :
    Sound {s with callbacks := s.callbacks ++ [⟨c,.queued⟩], control := .idle} := by
  obtain ⟨alive,d,own,known,live,self⟩ : Fact s (.submitting i) := control ▸ inv.control
  obtain rfl : c = d := Option.some.inj (work.symm.trans own)
  refine Every.append inv.sound ⟨fun _ => ⟨live,?_⟩,by simp⟩
  change (s.objects (s.contexts c).self).alive = true
  rw [self]
  exact alive

theorem sound_cancelQueued {s : State} {c : Nat} (inv : Inv s) (control : Control) :
    Sound {s with callbacks := Callbacks.cancel c s.callbacks, control := control} := by
  intro k callback found
  rcases get_cancel found with ⟨_,rfl⟩ | ⟨present,_⟩
  · exact ⟨by simp [Callback.uses],by simp⟩
  · exact inv.sound k callback present

theorem sound_step (s : State) (label : Label) (t : State) (inv : Inv s) (outlives : Outlives s label)
    (taken : step s label = some t) : Sound t := by
  have fact := inv.control
  cases step_moves s label t taken with
  | construct i idle absent =>
    refine Sound.keep inv rfl (fun _ _ => rfl) (fun j alive => ?_) fun _ _ _ _ => id
    by_cases own : j = i
    · subst own
      exact congrArg Object.alive (setObject_self s j .new)
    · exact (congrArg Object.alive (setObject_other s .new own)).trans alive
  | moveConstruct i other idle absent present =>
    exact Sound.keep inv rfl (fun _ _ => rfl) (fun j => take_alive s other (by rfl) j) fun _ _ _ _ => id
  | assignSelf | refuse => exact inv.sound
  | moveAssign i other idle alive present different =>
    exact Sound.keep inv rfl (fun _ _ => rfl) (fun j => take_alive s other alive j)
      (freed fun k callback found uses => outlives.2 i other k callback rfl different found uses)
  | submit i idle alive unsubmitted =>
    have same := setObject_keeps Object.alive s i {s.objects i with context := some s.made, complete := false, submitted := true} rfl
    refine Sound.keep inv rfl (fun c known => Function.update_of_ne (Nat.ne_of_lt known) ..) (fun j => (same j).trans) ?_
    intro k callback found _ before
    rw [prepare_live (inv.contextless idle unsubmitted),Function.update_of_ne (Nat.ne_of_lt (inv.made k callback found))]
    exact before
  | destroy i idle alive => exact sound_destroy inv outlives
  | create i control => exact Sound.setObject inv s.live _ rfl fun _ _ _ _ => id
  | createFails i control =>
    rw [control] at fact
    obtain ⟨_,c,context,_,_,_,fresh⟩ := fact
    refine Sound.setObject inv _ _ rfl (freed fun k callback found _ own => ?_)
    exact fresh k callback found (Option.some.inj (own.symm.trans context))
  | queue created i c control work => exact sound_queue inv control work
  | cancelQueued created i c control work => exact sound_cancelQueued inv _
  | close created i control =>
    rw [control] at fact
    obtain ⟨c,work,quiet⟩ := fact
    have context := (inv.whole i (by simp [control])).symm.trans work
    refine Sound.setObject inv _ _ rfl (freed fun k callback found uses own => ?_)
    have silent := quiet k callback found (Option.some.inj (own.symm.trans context))
    exact Bool.false_ne_true (silent.symm.trans (Callback.uses_inFlight uses))
  | finish created i control unlocked =>
    have same := setObject_keeps Object.alive s i {s.objects i with complete := true} rfl
    exact Sound.keep inv rfl (fun _ _ => rfl) (fun j => (same j).trans) fun _ _ _ _ => id
  | run k c found => exact Sound.callback inv found .running (by simp [Callback.uses]) (fun _ => rfl) rfl rfl rfl (by simp)
  | complete k c i found self unlocked =>
    have objects := callback_objects (s := s) (k := k) (i := i) ⟨c,.unlocking i⟩
      {s.objects i with complete := true, mutex := some k} ⟨rfl,rfl,rfl⟩
    refine Sound.callback inv found (.unlocking i) (by simp [Callback.uses]) (fun j => (objects j).1) rfl rfl rfl fun l point => ?_
    cases point
    rw [← self]
    exact ((inv.sound k _ found).1 rfl).2
  | unlock k c i found =>
    have objects := callback_objects (s := s) (k := k) (i := i) ⟨c,.ended⟩ {s.objects i with mutex := none} ⟨rfl,rfl,rfl⟩
    exact Sound.callback inv found .ended (by simp [Callback.uses]) (fun j => (objects j).1) rfl rfl rfl (by simp)
  | cancel | drain | wait | pass | sleep | wake | timeout | giveUp => exact inv.sound

theorem inv_step (s : State) (label : Label) (t : State) (inv : Inv s) (outlives : Outlives s label)
    (taken : step s label = some t) : Inv t :=
  ⟨placed_step s label t inv.toPlaced taken,sound_step s label t inv outlives taken⟩

/-- A work that goes too early takes from a callback what its next steps use. -/
theorem unsound (s : State) (label : Label) (t : State) (_ : Inv s) (early : ¬ Outlives s label)
    (taken : step s label = some t) : ¬ Sound t := by
  intro sound
  refine early ⟨fun i k callback same found => ?_,fun i other k callback same different found uses owned => ?_⟩
  · subst same
    simp only [step] at taken
    split at taken
    next =>
      cases taken
      obtain ⟨used,unlocking⟩ := sound k callback found
      have gone : ((s.setObject i .absent).objects i).alive = false := congrArg Object.alive (setObject_self s i .absent)
      refine ⟨fun point => Bool.false_ne_true (gone.symm.trans (unlocking i point)),fun uses => ?_⟩
      obtain ⟨live,alive⟩ := used uses
      refine ⟨(free_iff.mp live).2,?_⟩
      rintro rfl
      exact Bool.false_ne_true (gone.symm.trans alive)
    next => contradiction
  · subst same
    simp only [step,if_neg different] at taken
    split at taken
    next =>
      cases taken
      exact (free_iff.mp ((sound k callback found).1 uses).1).2 owned
    next => contradiction

theorem Sound.touches {s : State} (sound : Sound s) (label : Label) : TouchesLive s label := by
  intro k callback same found
  obtain ⟨uses,unlocking⟩ := sound k callback found
  obtain ⟨c,point⟩ := callback
  cases point with
  | queued =>
    refine ⟨fun d own => ?_,by simp [Work.touches]⟩
    cases own
    exact (uses rfl).1
  | running =>
    refine ⟨fun d own => ?_,fun i own => ?_⟩
    · cases own
      exact (uses rfl).1
    · cases own
      exact (uses rfl).2
  | unlocking i =>
    refine ⟨by simp [Work.touches],fun j own => ?_⟩
    cases own
    exact unlocking i rfl
  | ended | cancelled => exact ⟨by simp [Work.touches],by simp [Work.touches]⟩

/-- Where something is gone, one of the next two steps of a callback touches it. -/
theorem sound_iff_touches (s : State) : Sound s ↔ ∀ k, Obeys step TouchesLive s [.callback k,.callback k] := by
  constructor
  · intro sound k
    refine ⟨sound.touches _,fun t taken => ⟨?_,fun _ _ => trivial⟩⟩
    intro j callback same found
    cases same
    obtain ⟨old,present,advanced⟩ := Option.bind_eq_some_iff.mp taken
    obtain ⟨uses,unlocking⟩ := sound k old present
    cases workCallback_moves present advanced with
    | run k c queued =>
      cases (get_self queued).symm.trans found
      cases queued.symm.trans present
      refine ⟨fun d own => ?_,fun i own => ?_⟩
      · cases own
        exact (uses rfl).1
      · cases own
        exact (uses rfl).2
    | complete k c i running self unlocked =>
      cases (get_self running).symm.trans found
      cases running.symm.trans present
      refine ⟨by simp [Work.touches],fun j own => ?_⟩
      cases own
      refine (setObject_keeps Object.alive (s.goto k ⟨c,.unlocking i⟩) i _ (by rfl) i).trans ?_
      rw [← self]
      exact (uses rfl).2
    | unlock k c i unlocks =>
      cases (get_self unlocks).symm.trans found
      exact ⟨by simp [Work.touches],by simp [Work.touches]⟩
  · intro obeyed k callback found
    obtain ⟨first,later⟩ := obeyed k
    obtain ⟨contexts,objects⟩ := first k callback rfl found
    obtain ⟨c,point⟩ := callback
    cases point with
    | queued =>
      refine ⟨fun _ => ⟨contexts c rfl,?_⟩,by simp⟩
      have ran : step s (.callback k) = some (s.goto k ⟨c,.running⟩) := by
        simp only [step,found,Option.bind_some,workCallback]
      exact ((later _ ran).1 k _ rfl (get_self found)).2 _ rfl
    | running => exact ⟨fun _ => ⟨contexts c rfl,objects _ rfl⟩,by simp⟩
    | unlocking i =>
      refine ⟨by simp [Callback.uses],fun j same => ?_⟩
      cases same
      exact objects i rfl
    | ended | cancelled => exact ⟨by simp [Callback.uses],by simp⟩

/-- All that the remaining steps of callbacks use is there all along a run if and only
if every work outlives its callbacks, and then no step touches what is gone. -/
theorem sound_iff_outlives {labels : List Label} {s : State} (reached : run step init labels = some s) :
    (Along step Sound init labels ↔ Obeys step Outlives init labels) ∧
    (Obeys step Outlives init labels → Obeys step TouchesLive init labels) := by
  refine ⟨along_iff_obeys inv_step (fun _ inv => inv.sound) unsound inv_init reached,fun obeyed => ?_⟩
  have along := (along_iff_obeys inv_step (fun _ inv => inv.sound) unsound inv_init reached).mpr obeyed
  exact obeys_of_along (fun s label sound => Sound.touches sound label) along

/-- A work is waited for and destroyed. -/
theorem sound_iff_outlives_waited :
    ∃ s, run step init [.construct 0,.submit 0,.control true,.control true,.wait 0 INFINITE,.test 0,.callback 0,.callback 0,
        .callback 0,.wake 0,.test 0,.destroy 0] = some s ∧
      s.waiters = [⟨0,INFINITE,.returned⟩] ∧
      (Along step Sound init [.construct 0,.submit 0,.control true,.control true,.wait 0 INFINITE,.test 0,.callback 0,
          .callback 0,.callback 0,.wake 0,.test 0,.destroy 0] ↔
        Obeys step Outlives init [.construct 0,.submit 0,.control true,.control true,.wait 0 INFINITE,.test 0,.callback 0,
          .callback 0,.callback 0,.wake 0,.test 0,.destroy 0]) := by
  obtain ⟨s,reached,returned⟩ : ∃ s, run step init [.construct 0,.submit 0,.control true,.control true,.wait 0 INFINITE,.test 0,
      .callback 0,.callback 0,.callback 0,.wake 0,.test 0,.destroy 0] = some s ∧ s.waiters = [⟨0,INFINITE,.returned⟩] :=
    ⟨_,rfl,rfl⟩
  exact ⟨s,reached,returned,(sound_iff_outlives reached).1⟩

/-- A work destroyed or moved over before its callback starts leaves it a freed
context, and a moved one destroyed leaves it a dead object. -/
theorem touches_gone :
    ¬ Obeys step TouchesLive init [.construct 0,.submit 0,.control true,.control true,.destroy 0,.callback 0] ∧
    ¬ Obeys step TouchesLive init
      [.construct 0,.construct 1,.submit 0,.control true,.control true,.callback 0,.moveAssign 0 1,.callback 0] ∧
    ¬ Obeys step TouchesLive init
      [.construct 0,.submit 0,.control true,.control true,.callback 0,.moveConstruct 1 0,.destroy 0,.callback 0] := by
  refine ⟨fun obeyed => ?_,fun obeyed => ?_,fun obeyed => ?_⟩
  · have last := (((((obeyed.2 _ rfl).2 _ rfl).2 _ rfl).2 _ rfl).2 _ rfl).1
    exact absurd ((last 0 ⟨0,.queued⟩ rfl rfl).1 0 rfl) (by decide)
  · have last := (((((((obeyed.2 _ rfl).2 _ rfl).2 _ rfl).2 _ rfl).2 _ rfl).2 _ rfl).2 _ rfl).1
    exact absurd ((last 0 ⟨0,.running⟩ rfl rfl).1 0 rfl) (by decide)
  · have last := (((((((obeyed.2 _ rfl).2 _ rfl).2 _ rfl).2 _ rfl).2 _ rfl).2 _ rfl).2 _ rfl).1
    exact absurd ((last 0 ⟨0,.running⟩ rfl rfl).2 0 rfl) (by decide)

end Ezthread.Work
