import Ezthread.Activation
import Mathlib.Logic.Function.Basic

/-! Callbacks of an operating system's thread pool, each queued for a context. A
callback does its work and may then lock and unlock an object's mutex; the pool can
cancel what is queued for a context and tell whether anything of it is in flight. -/
namespace Ezthread.Callbacks
open Activation

inductive Point
  | queued
  | running
  | unlocking (object : Nat)
  | ended
  | cancelled
deriving DecidableEq

structure Callback where
  context : Nat
  point : Point
deriving DecidableEq

/-- Has steps left that use its context. -/
def Callback.uses (callback : Callback) : Bool :=
  match callback.point with
  | .queued | .running => true
  | _ => false

/-- Has steps left. -/
def Callback.inFlight (callback : Callback) : Bool :=
  match callback.point with
  | .queued | .running | .unlocking _ => true
  | _ => false

def Callback.cancel (context : Nat) (callback : Callback) : Callback :=
  if callback = ⟨context,.queued⟩ then ⟨context,.cancelled⟩ else callback

def cancel (context : Nat) (callbacks : List Callback) : List Callback :=
  callbacks.map (Callback.cancel context)

def drained (context : Nat) (callbacks : List Callback) : Bool :=
  callbacks.all fun callback => callback.context != context || !callback.inFlight

/-- A pointer that owns a context lets go of it. -/
def free (context : Option Nat) (live : Nat → Bool) : Nat → Bool :=
  match context with
  | some c => Function.update live c false
  | none => live

theorem free_iff {context : Option Nat} {live : Nat → Bool} {c : Nat} :
    free context live c = true ↔ live c = true ∧ context ≠ some c := by
  cases context with
  | none => simp [free]
  | some d =>
    by_cases same : c = d
    · simp [free,same]
    · simp [free,same,Ne.symm same]

theorem update_keeps {Object Member : Type*} (member : Object → Member) (objects : Nat → Object) (i : Nat) (object : Object)
    (same : member object = member (objects i)) (j : Nat) : member (Function.update objects i object j) = member (objects j) := by
  by_cases own : j = i
  · subst own
    rw [Function.update_self]
    exact same
  · rw [Function.update_of_ne own]

variable {callbacks : List Callback} {callback : Callback} {context k : Nat}

/-- Nothing of the context is queued. -/
def Unqueued (context : Nat) (callbacks : List Callback) : Prop :=
  Every (fun _ callback => callback ≠ ⟨context,.queued⟩) callbacks

/-- Nothing of the context is in flight. -/
def Quiet (context : Nat) (callbacks : List Callback) : Prop :=
  Every (fun _ callback => callback.context = context → callback.inFlight = false) callbacks

/-- A callback of the same context that has come no less far. -/
structure Follows (old new : Callback) : Prop where
  context : new.context = old.context
  queued : new.point = .queued → old.point = .queued
  uses : new.uses = true → old.uses = true
  inFlight : new.inFlight = true → old.inFlight = true

/-- The callbacks of one list as they are in another, none added. -/
def Settles (before after : List Callback) : Prop :=
  Every (fun k new => ∃ old, before[k]? = some old ∧ Follows old new) after

theorem drained_iff : drained context callbacks = true ↔ Quiet context callbacks := by
  simp only [drained,List.all_eq_true,Bool.or_eq_true,bne_iff_ne,Bool.not_eq_true']
  constructor
  · intro all k callback found same
    rcases all callback (List.mem_of_getElem? found) with other | silent
    · exact absurd same other
    · exact silent
  · intro every callback member
    obtain ⟨k,found⟩ := List.mem_iff_getElem?.mp member
    by_cases same : callback.context = context
    · exact Or.inr (every k callback found same)
    · exact Or.inl same

theorem get_cancel (found : (cancel context callbacks)[k]? = some callback) :
    (callbacks[k]? = some ⟨context,.queued⟩ ∧ callback = ⟨context,.cancelled⟩) ∨
      (callbacks[k]? = some callback ∧ callback ≠ ⟨context,.queued⟩) := by
  rw [cancel,List.getElem?_map] at found
  obtain ⟨before,present,rfl⟩ := Option.map_eq_some_iff.mp found
  unfold Callback.cancel
  split
  next queued =>
    subst queued
    exact Or.inl ⟨present,rfl⟩
  next other => exact Or.inr ⟨present,other⟩

theorem get_cancel_other (found : callbacks[k]? = some callback) (other : callback ≠ ⟨context,.queued⟩) :
    (cancel context callbacks)[k]? = some callback := by
  rw [cancel,List.getElem?_map,found]
  exact congrArg some (if_neg other)

theorem unqueued_cancel : Unqueued context (cancel context callbacks) := by
  intro k callback found
  rcases get_cancel found with ⟨_,rfl⟩ | ⟨_,other⟩
  · simp
  · exact other

theorem Follows.refl (callback : Callback) : Follows callback callback := ⟨rfl,id,id,id⟩

theorem Follows.run : Follows ⟨context,.queued⟩ ⟨context,.running⟩ := ⟨rfl,by simp,fun _ => rfl,fun _ => rfl⟩

theorem Follows.lock {object : Nat} : Follows ⟨context,.running⟩ ⟨context,.unlocking object⟩ :=
  ⟨rfl,by simp,fun _ => rfl,fun _ => rfl⟩

theorem Follows.finish {point : Point} : Follows ⟨context,point⟩ ⟨context,.ended⟩ :=
  ⟨rfl,by simp,by simp [Callback.uses],by simp [Callback.inFlight]⟩

theorem Settles.refl (callbacks : List Callback) : Settles callbacks callbacks :=
  fun _ callback found => ⟨callback,found,.refl callback⟩

theorem settles_cancel : Settles callbacks (cancel context callbacks) := by
  intro k callback found
  rcases get_cancel found with ⟨present,rfl⟩ | ⟨present,_⟩
  · exact ⟨_,present,rfl,by simp,by simp [Callback.uses],by simp [Callback.inFlight]⟩
  · exact ⟨callback,present,.refl callback⟩

theorem settles_set {old : Callback} (found : callbacks[k]? = some old) (follows : Follows old callback) :
    Settles callbacks (callbacks.set k callback) := by
  intro j next present
  rcases get_set present with ⟨rfl,rfl⟩ | ⟨_,kept⟩
  · exact ⟨old,found,follows⟩
  · exact ⟨next,kept,.refl next⟩

section Settled
variable {before after : List Callback} (settles : Settles before after)
include settles

theorem Settles.unqueued (unqueued : Unqueued context before) : Unqueued context after := by
  rintro k callback found rfl
  obtain ⟨⟨other,point⟩,present,follows⟩ := settles k _ found
  obtain rfl : context = other := follows.context
  obtain rfl : point = .queued := follows.queued rfl
  exact unqueued k _ present rfl

theorem Settles.quiet (quiet : Quiet context before) : Quiet context after := by
  intro k callback found same
  obtain ⟨old,present,follows⟩ := settles k callback found
  have silent := quiet k old present (follows.context.symm.trans same)
  exact Bool.eq_false_iff.mpr fun flying => Bool.false_ne_true (silent.symm.trans (follows.inFlight flying))

theorem Settles.flying (holds : Nat → Prop)
    (every : Every (fun _ callback => callback.inFlight = true → holds callback.context) before) :
    Every (fun _ callback => callback.inFlight = true → holds callback.context) after := by
  intro k callback found flying
  obtain ⟨old,present,follows⟩ := settles k callback found
  rw [follows.context]
  exact every k old present (follows.inFlight flying)

theorem Settles.contexts (holds : Nat → Prop) (every : Every (fun _ callback => holds callback.context) before) :
    Every (fun _ callback => holds callback.context) after := by
  intro k callback found
  obtain ⟨old,present,follows⟩ := settles k callback found
  rw [follows.context]
  exact every k old present

end Settled

section Owners
variable {owns owned : Nat → Option Nat} {pointer pointed : Nat → Nat} {made i other : Nat}

/-- Each context made that an object owns points back at that object. -/
structure Refers (owns : Nat → Option Nat) (pointer : Nat → Nat) (made : Nat) : Prop where
  owner : ∀ i c, owns i = some c → pointer c = i
  made : ∀ i c, owns i = some c → c < made

theorem Refers.shrink (refers : Refers owns pointer made) (shrinks : ∀ i c, owned i = some c → owns i = some c) :
    Refers owned pointer made :=
  ⟨fun i c own => refers.owner i c (shrinks i c own),fun i c own => refers.made i c (shrinks i c own)⟩

/-- An object is given a new context that points at it. -/
theorem Refers.make (refers : Refers owns pointer made) (own : owned i = some made)
    (others : ∀ j, j ≠ i → owned j = owns j) (back : pointed made = i) (older : ∀ c, c < made → pointed c = pointer c) :
    Refers owned pointed (made + 1) := by
  have cases_own (j c : Nat) (has : owned j = some c) : (j = i ∧ c = made) ∨ owns j = some c := by
    by_cases same : j = i
    · subst same
      exact Or.inl ⟨rfl,(Option.some.inj (own.symm.trans has)).symm⟩
    · exact Or.inr ((others j same).symm.trans has)
  constructor
  · intro j c has
    rcases cases_own j c has with ⟨rfl,rfl⟩ | before
    · exact back
    · rw [older c (refers.made j c before)]
      exact refers.owner j c before
  · intro j c has
    rcases cases_own j c has with ⟨rfl,rfl⟩ | before
    · exact Nat.lt_succ_self c
    · exact Nat.lt_succ_of_lt (refers.made j c before)

/-- An object that takes over what another owns and is referred to takes over nothing. -/
theorem moved_none (owner : ∀ j c, owns j = some c → pointer c = j) (different : i ≠ other) (taken : owned i = owns other)
    (moved : ∀ j c, owned j = some c → pointer c = j) : owns other = none := by
  by_contra source
  obtain ⟨c,own⟩ := Option.ne_none_iff_exists'.mp source
  exact different ((moved i c (taken.trans own)).symm.trans (owner other c own))

theorem update_shrinks {Object : Type*} (member : Object → Option Nat) (objects : Nat → Object) (i : Nat) (object : Object)
    (shrinks : member object = none ∨ member object = member (objects i)) (j c : Nat)
    (own : member (Function.update objects i object j) = some c) : member (objects j) = some c := by
  by_cases same : j = i
  · subst same
    rw [Function.update_self] at own
    rcases shrinks with empty | kept
    · simp [empty] at own
    · rw [← kept,own]
  · rw [Function.update_of_ne same] at own
    exact own

end Owners

theorem Callback.uses_inFlight (uses : callback.uses = true) : callback.inFlight = true := by
  obtain ⟨context,point⟩ := callback
  cases point <;> first | rfl | contradiction

end Ezthread.Callbacks
