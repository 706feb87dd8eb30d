import Ezthread.Future

/-! The objects of `Promise` and `Future` and the shared states they point to: `GetFuture`
copies the pointer, moves pass it on, and the pointer of a destroyed object is gone. A
shared state can be made ready only through a promise. -/
namespace Ezthread.PromiseObjects
open Transition Activation
open Future (SharedState Assignment Failure)

variable {α ε : Type*}

/-- The `m_state` of each object, null after a move; a destroyed object has left its place. -/
abbrev Objects := List (Option (Option Nat))

def pointer (object : Option (Option Nat)) : Option Nat := object.join

def moveConstruct (i : Nat) (objects : Objects) : Option Objects :=
  match objects[i]? with
  | some (some m_state) => some (objects.set i (some none) ++ [some m_state])
  | _ => none

def moveAssign (i j : Nat) (objects : Objects) : Option Objects :=
  match objects[i]?,objects[j]? with
  | some (some _),some (some m_state) =>
      some (if i ≠ j then (objects.set j (some none)).set i (some m_state) else objects)
  | _,_ => none

def destroy (i : Nat) (objects : Objects) : Option Objects :=
  match objects[i]? with
  | some (some _) => some (objects.set i none)
  | _ => none

/-- `replies` is none of the program: what the calls of `SetValue`, `SetException` and
`GetFuture` have come to. -/
structure State (α ε : Type*) where
  states : List (SharedState α ε)
  promises : Objects
  futures : Objects
  replies : List (Except (Failure ε) Unit)

def init : State α ε := ⟨[],[],[],[]⟩

inductive Label (α ε : Type*)
  | newPromise
  | movePromise (i : Nat)
  | assignPromise (i j : Nat)
  | destroyPromise (i : Nat)
  | moveFuture (i : Nat)
  | assignFuture (i j : Nat)
  | destroyFuture (i : Nat)
  | getFuture (i : Nat)
  | setValue (i : Nat) (assignment : Assignment α ε)
  | setException (i : Nat) (ex : ε)

def State.reply (s : State α ε) (reply : Except (Failure ε) Unit) : State α ε := {s with replies := s.replies ++ [reply]}

def getFuture (s : State α ε) (i : Nat) : Option (State α ε) :=
  match s.promises[i]? with
  | some (some none) => some (s.reply (.error (.threadException "Promise has no state")))
  | some (some (some k)) => some {s.reply (.ok ()) with futures := s.futures ++ [some (some k)]}
  | _ => none

/-- A setter of the promise, by what it does to the shared state. -/
def set (setter : SharedState α ε → SharedState α ε × Except (Failure ε) Unit) (s : State α ε) (i : Nat) : Option (State α ε) :=
  match s.promises[i]? with
  | some (some none) => some (s.reply (.error (.threadException "Promise has no state")))
  | some (some (some k)) =>
      (s.states[k]?).map fun state => {s.reply (setter state).2 with states := s.states.set k (setter state).1}
  | _ => none

def setValue (assignment : Assignment α ε) : State α ε → Nat → Option (State α ε) := set (Future.setValue assignment)

def setException (ex : ε) : State α ε → Nat → Option (State α ε) := set (Future.setException ex)

def step [Inhabited α] [Inhabited ε] (s : State α ε) : Label α ε → Option (State α ε)
  | .newPromise => some {s with states := s.states ++ [SharedState.new], promises := s.promises ++ [some (some s.states.length)]}
  | .movePromise i => (moveConstruct i s.promises).map fun promises => {s with promises := promises}
  | .assignPromise i j => (moveAssign i j s.promises).map fun promises => {s with promises := promises}
  | .destroyPromise i => (destroy i s.promises).map fun promises => {s with promises := promises}
  | .moveFuture i => (moveConstruct i s.futures).map fun futures => {s with futures := futures}
  | .assignFuture i j => (moveAssign i j s.futures).map fun futures => {s with futures := futures}
  | .destroyFuture i => (destroy i s.futures).map fun futures => {s with futures := futures}
  | .getFuture i => getFuture s i
  | .setValue i assignment => setValue assignment s i
  | .setException i ex => setException ex s i

/-- What moves and destructions do to pointers: an object comes to have one that another
gave up, or pointers are dropped. -/
structure Passes (before after : Objects) : Prop where
  held : ∀ k, Held pointer after k → Held pointer before k
  exclusive : Exclusive pointer before → Exclusive pointer after

theorem passes_refl (objects : Objects) : Passes objects objects := ⟨fun _ => id,id⟩

theorem Held.of_drop {objects : Objects} {i k : Nat} {object : Option (Option Nat)} (null : pointer object = none)
    (held : Held pointer (objects.set i object) k) : Held pointer objects k := by
  obtain ⟨j,other,found,points⟩ := held
  rcases get_set found with ⟨_,rfl⟩ | ⟨_,kept⟩
  · simp [null] at points
  · exact ⟨j,other,kept,points⟩

theorem drop_exclusive {objects : Objects} {i : Nat} {old object : Option (Option Nat)} (found : objects[i]? = some old)
    (null : pointer object = none) (exclusive : Exclusive pointer objects) : Exclusive pointer (objects.set i object) :=
  exclusive.set found fun k owns => by simp [null] at owns

theorem destroy_passes {i : Nat} {before after : Objects} (done : destroy i before = some after) : Passes before after := by
  unfold destroy at done
  split at done
  next m_state found =>
    cases done
    exact ⟨fun _ => Held.of_drop rfl,drop_exclusive found rfl⟩
  next => contradiction

/-- The pointer that an object gave up is nobody's. -/
theorem given_up {objects : Objects} {j : Nat} {m_state : Option Nat} (exclusive : Exclusive pointer objects)
    (found : objects[j]? = some (some m_state)) (k : Nat) (points : m_state = some k) :
    ¬ Held pointer (objects.set j (some none)) k := by
  intro held
  exact ((Held.release_iff (some none) exclusive found (points ▸ rfl) rfl k).mp held).1 rfl

theorem moveConstruct_passes {i : Nat} {before after : Objects} (done : moveConstruct i before = some after) :
    Passes before after := by
  unfold moveConstruct at done
  split at done
  next m_state found =>
    cases done
    refine ⟨fun k held => ?_,fun exclusive => ?_⟩
    · obtain ⟨j,object,present,points⟩ := held
      rcases get_append present with kept | ⟨_,rfl⟩
      · exact Held.of_drop rfl ⟨j,object,kept,points⟩
      · exact ⟨i,_,found,points⟩
    · exact (drop_exclusive found rfl exclusive).append_unheld fun k owns => given_up exclusive found k owns
  next => contradiction

theorem moveAssign_passes {i j : Nat} {before after : Objects} (done : moveAssign i j before = some after) :
    Passes before after := by
  unfold moveAssign at done
  split at done
  next dropped m_state taking giving =>
    cases done
    split
    next apart =>
      refine ⟨fun k held => ?_,fun exclusive => ?_⟩
      · obtain ⟨n,object,present,points⟩ := held
        rcases get_set present with ⟨_,rfl⟩ | ⟨_,kept⟩
        · exact ⟨j,_,giving,points⟩
        · exact Held.of_drop rfl ⟨n,object,kept,points⟩
      · have still : (before.set j (some none))[i]? = some (some dropped) := by
          rw [List.getElem?_set_ne (Ne.symm apart)]
          exact taking
        refine (drop_exclusive giving rfl exclusive).set still fun k owns => Or.inr fun n object present shares => ?_
        exact given_up exclusive giving k owns ⟨n,object,present,shares⟩
    next => exact passes_refl before
  next => contradiction

/-- No two promises share a state, and no pointer is to a state that is not there. -/
structure Inv (s : State α ε) : Prop where
  exclusive : Exclusive pointer s.promises
  present : ∀ k, Held pointer s.promises k → k < s.states.length

theorem Inv.passes {s : State α ε} {after : Objects} (inv : Inv s) (passes : Passes s.promises after) :
    Inv {s with promises := after} :=
  ⟨passes.exclusive inv.exclusive,fun k held => inv.present k (passes.held k held)⟩

/-- The state is not ready and no promise is left for it. -/
structure Broken (k : Nat) (s : State α ε) : Prop where
  unpromised : ¬ Held pointer s.promises k
  unready : ∃ state, s.states[k]? = some state ∧ state.ready = false

section
variable {s t : State α ε} {i k : Nat} {setter : SharedState α ε → SharedState α ε × Except (Failure ε) Unit}

/-- A setter changes at most the state of its own promise. -/
theorem set_cases (taken : set setter s i = some t) : t.promises = s.promises ∧
    (t.states = s.states ∨ ∃ own state, Held pointer s.promises own ∧ s.states[own]? = some state ∧
      t.states = s.states.set own (setter state).1) := by
  unfold set at taken
  split at taken
  next =>
    cases taken
    exact ⟨rfl,Or.inl rfl⟩
  next own found =>
    obtain ⟨state,present,rfl⟩ := Option.map_eq_some_iff.mp taken
    exact ⟨rfl,Or.inr ⟨own,state,⟨i,_,found,rfl⟩,present,rfl⟩⟩
  next => contradiction

theorem set_inv (inv : Inv s) (taken : set setter s i = some t) : Inv t := by
  obtain ⟨promises,same | ⟨own,state,_,_,states⟩⟩ := set_cases taken
  · exact ⟨promises ▸ inv.exclusive,fun k held => by rw [same]; exact inv.present k (promises ▸ held)⟩
  · exact ⟨promises ▸ inv.exclusive,fun k held => by rw [states,List.length_set]; exact inv.present k (promises ▸ held)⟩

theorem set_broken (broken : Broken k s) (taken : set setter s i = some t) : Broken k t := by
  obtain ⟨promises,same | ⟨own,state,held,_,states⟩⟩ := set_cases taken
  · exact ⟨promises ▸ broken.unpromised,same ▸ broken.unready⟩
  · obtain ⟨state,found,unready⟩ := broken.unready
    have apart : own ≠ k := by rintro rfl; exact broken.unpromised held
    exact ⟨promises ▸ broken.unpromised,state,by rw [states,List.getElem?_set_ne apart]; exact found,unready⟩

/-- A state that is ready stays as it is. -/
theorem set_ready {state : SharedState α ε} (frozen : ∀ other : SharedState α ε, other.ready = true → (setter other).1 = other)
    (found : s.states[k]? = some state) (ready : state.ready = true) (taken : set setter s i = some t) :
    t.states[k]? = some state := by
  obtain ⟨_,same | ⟨own,other,_,present,states⟩⟩ := set_cases taken
  · exact same ▸ found
  · rw [states]
    by_cases apart : own = k
    · subst apart
      obtain rfl : other = state := Option.some.inj (present.symm.trans found)
      rw [frozen other ready]
      exact get_self found
    · rw [List.getElem?_set_ne apart]
      exact found

theorem getFuture_keeps (taken : getFuture s i = some t) : t.promises = s.promises ∧ t.states = s.states := by
  unfold getFuture at taken
  split at taken
  next => cases taken; exact ⟨rfl,rfl⟩
  next => cases taken; exact ⟨rfl,rfl⟩
  next => contradiction

theorem Broken.passes {after : Objects} (broken : Broken k s) (passes : Passes s.promises after) :
    Broken k {s with promises := after} :=
  ⟨fun held => broken.unpromised (passes.held k held),broken.unready⟩

end

variable [Inhabited α] [Inhabited ε] {s t : State α ε} {k : Nat}

theorem inv_step (s : State α ε) (label : Label α ε) (t : State α ε) (inv : Inv s) (taken : step s label = some t) : Inv t := by
  cases label with
  | newPromise =>
    cases taken
    have unheld : ¬ Held pointer s.promises s.states.length := fun held => Nat.lt_irrefl _ (inv.present _ held)
    refine ⟨inv.exclusive.append_unheld fun k owns => ?_,fun k held => ?_⟩
    · obtain rfl : s.states.length = k := Option.some.inj owns
      exact unheld
    · rw [List.length_append,List.length_singleton]
      rcases (Held.append_gain_iff pointer rfl k).mp held with rfl | before
      · exact Nat.lt_succ_self _
      · exact (inv.present k before).trans (Nat.lt_succ_self _)
  | movePromise i =>
    obtain ⟨after,done,rfl⟩ := Option.map_eq_some_iff.mp taken
    exact inv.passes (moveConstruct_passes done)
  | assignPromise i j =>
    obtain ⟨after,done,rfl⟩ := Option.map_eq_some_iff.mp taken
    exact inv.passes (moveAssign_passes done)
  | destroyPromise i =>
    obtain ⟨after,done,rfl⟩ := Option.map_eq_some_iff.mp taken
    exact inv.passes (destroy_passes done)
  | moveFuture | assignFuture | destroyFuture =>
    obtain ⟨after,done,rfl⟩ := Option.map_eq_some_iff.mp taken
    exact ⟨inv.exclusive,inv.present⟩
  | getFuture i =>
    obtain ⟨promises,states⟩ := getFuture_keeps taken
    exact ⟨promises ▸ inv.exclusive,fun k held => by rw [states]; exact inv.present k (promises ▸ held)⟩
  | setValue i assignment => exact set_inv inv taken
  | setException i ex => exact set_inv inv taken

theorem broken_step {label : Label α ε} (broken : Broken k s) (taken : step s label = some t) : Broken k t := by
  cases label with
  | newPromise =>
    cases taken
    obtain ⟨state,found,unready⟩ := broken.unready
    refine ⟨fun held => ?_,state,get_grows found,unready⟩
    rcases (Held.append_gain_iff pointer rfl k).mp held with rfl | before
    · exact Nat.lt_irrefl _ (get_lt found)
    · exact broken.unpromised before
  | movePromise i =>
    obtain ⟨after,done,rfl⟩ := Option.map_eq_some_iff.mp taken
    exact broken.passes (moveConstruct_passes done)
  | assignPromise i j =>
    obtain ⟨after,done,rfl⟩ := Option.map_eq_some_iff.mp taken
    exact broken.passes (moveAssign_passes done)
  | destroyPromise i =>
    obtain ⟨after,done,rfl⟩ := Option.map_eq_some_iff.mp taken
    exact broken.passes (destroy_passes done)
  | moveFuture | assignFuture | destroyFuture =>
    obtain ⟨after,done,rfl⟩ := Option.map_eq_some_iff.mp taken
    exact ⟨broken.unpromised,broken.unready⟩
  | getFuture i =>
    obtain ⟨promises,states⟩ := getFuture_keeps taken
    exact ⟨promises ▸ broken.unpromised,states ▸ broken.unready⟩
  | setValue i assignment => exact set_broken broken taken
  | setException i ex => exact set_broken broken taken

theorem held_iff (objects : Objects) (k : Nat) : Held pointer objects k ↔ ∃ i : Nat, objects[i]? = some (some (some k)) := by
  constructor
  · intro held
    obtain ⟨i,object,found,points⟩ := held
    exact ⟨i,by rw [found,Option.join_eq_some_iff.mp points]⟩
  · intro given
    obtain ⟨i,found⟩ := given
    exact ⟨i,_,found,rfl⟩

theorem ready_step {state : SharedState α ε} (label : Label α ε) (found : s.states[k]? = some state) (ready : state.ready = true)
    (taken : step s label = some t) : t.states[k]? = some state := by
  cases label with
  | newPromise =>
    cases taken
    exact get_grows found
  | movePromise | assignPromise | destroyPromise | moveFuture | assignFuture | destroyFuture =>
    obtain ⟨after,_,rfl⟩ := Option.map_eq_some_iff.mp taken
    exact found
  | getFuture i => exact (getFuture_keeps taken).2 ▸ found
  | setValue i assignment => exact set_ready (fun other set => by simp [Future.setValue,set]) found ready taken
  | setException i ex => exact set_ready (fun other set => by simp [Future.setException,set]) found ready taken

/-- A promise that is left can make its state ready. -/
theorem promised_settles {i : Nat} {state : SharedState α ε} (found : s.states[k]? = some state)
    (promised : s.promises[i]? = some (some (some k))) (unready : state.ready = false) :
    ∃ t after, step s (.setException i default) = some t ∧ t.states[k]? = some after ∧ after.ready = true := by
  have made : Future.setException default state = ({state with exception := default, hasException := true, ready := true},.ok ()) := by
    simp only [Future.setException,unready,Bool.false_eq_true,if_false]
  have taken : step s (.setException i default) = some {s.reply (.ok ()) with
      states := s.states.set k {state with exception := default, hasException := true, ready := true}} := by
    simp only [step,setException,set,promised,found,Option.map_some,made]
  exact ⟨_,_,taken,get_self found,rfl⟩

/-- A shared state that is not ready can still become so if and only if its promise is left, wherever moves
have taken it; it has one promise at most; and once ready it stays as it is. -/
theorem settled_iff_promised {labels : List (Label α ε)} {state : SharedState α ε} (reached : run step init labels = some s)
    (found : s.states[k]? = some state) :
    ((∃ more t after, run step s more = some t ∧ t.states[k]? = some after ∧ after.ready = true) ↔
      state.ready = true ∨ ∃ i : Nat, s.promises[i]? = some (some (some k))) ∧
    (∀ i j : Nat, s.promises[i]? = some (some (some k)) → s.promises[j]? = some (some (some k)) → i = j) ∧
    (state.ready = true → ∀ more t, run step s more = some t → t.states[k]? = some state) := by
  have inv : Inv s := run_invariant Inv inv_step ⟨Exclusive.nil pointer,fun k held => by simp [init,Held] at held⟩ reached
  refine ⟨⟨fun given => ?_,fun given => ?_⟩,fun i j first second => inv.exclusive i j _ _ k first second rfl rfl,
    fun ready more t ended => ?_⟩
  · obtain ⟨more,t,after,ended,present,ready⟩ := given
    by_contra neither
    obtain ⟨unready,unpromised⟩ := not_or.mp neither
    have broken : Broken k s := ⟨fun held => unpromised ((held_iff _ k).mp held),state,found,by simpa using unready⟩
    obtain ⟨other,last,stays⟩ := (run_invariant (Broken k) (fun _ _ _ broken taken => broken_step broken taken) broken ended).unready
    obtain rfl : after = other := Option.some.inj (present.symm.trans last)
    exact Bool.false_ne_true (stays.symm.trans ready)
  · cases set : state.ready with
    | true => exact ⟨[],s,state,rfl,found,set⟩
    | false =>
      obtain ⟨i,promised⟩ := given.resolve_left (by simp [set])
      obtain ⟨t,after,taken,present,ready⟩ := promised_settles found promised set
      exact ⟨[.setException i default],t,after,run_step taken rfl,present,ready⟩
  · exact run_invariant (fun other => other.states[k]? = some state)
      (fun _ label _ same taken => ready_step label same ready taken) found ended

/-- Assigned to, the second promise gives up its own state, which nothing can make ready any more. -/
theorem settled_iff_promised_assigned : ∃ s : State Nat Nat,
    run step init [.newPromise,.newPromise,.getFuture 1,.assignPromise 1 0] = some s ∧
      s.promises = [some none,some (some 0)] ∧
      ¬ ∃ more t after, run step s more = some t ∧ t.states[1]? = some after ∧ after.ready = true := by
  obtain ⟨s,reached,promises,found⟩ : ∃ s : State Nat Nat,
      run step init [.newPromise,.newPromise,.getFuture 1,.assignPromise 1 0] = some s ∧
        s.promises = [some none,some (some 0)] ∧ s.states[1]? = some SharedState.new := ⟨_,rfl,rfl,rfl⟩
  refine ⟨s,reached,promises,fun settles => ?_⟩
  rcases (settled_iff_promised reached found).1.mp settles with ready | ⟨i,promised⟩
  · contradiction
  · rw [promises] at promised
    match i with
    | 0 | 1 => simp at promised
    | i + 2 => simp at promised

end Ezthread.PromiseObjects
