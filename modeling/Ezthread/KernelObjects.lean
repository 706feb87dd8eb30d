import Ezthread.Handles
import Ezthread.Transition

/-! `Mutex`, `Event` and `Semaphore` objects over the kernel's handle table. The
three own their handle alike but build the result of `OpenExisting` differently. -/
namespace Ezthread.KernelObjects
open Transition Activation Handles

inductive Kind
  | mutex
  | event
  | semaphore
  deriving DecidableEq

def Kind.createFailed : Kind → String
  | .mutex => "CreateMutex failed"
  | .event => "CreateEvent failed"
  | .semaphore => "CreateSemaphore failed"

def Kind.openFailed : Kind → String
  | .mutex => "OpenMutex failed"
  | .event => "OpenEvent failed"
  | .semaphore => "OpenSemaphore failed"

/-- `m_handle`, null being 0. -/
structure Object where
  kind : Kind
  handle : Nat
  deriving DecidableEq

/-- A slot without an object is storage not constructed yet or destroyed. -/
structure State where
  objects : List (Option Object)
  kernel : Table Unit
  deriving DecidableEq

def init (slots : Nat) : State := ⟨List.replicate slots none,Table.empty⟩

def State.put (s : State) (i : Nat) (object : Option Object) : State := {s with objects := s.objects.set i object}

def closeHandle (kernel : Table Unit) (object : Object) : Table Unit :=
  if object.handle ≠ 0 then kernel.close object.handle else kernel

/-- The constructor of a kind in a vacant slot, `created` being what the kernel's
create call returns; a constructor that throws leaves the slot vacant. -/
def construct (s : State) (i : Nat) (kind : Kind) (created : Option Nat) : Option (State × Except String Unit) :=
  match created with
  | some handle => (s.kernel.create handle ()).map fun kernel => ({s with kernel := kernel}.put i (some ⟨kind,handle⟩),.ok ())
  | none => some (s,.error kind.createFailed)

/-- `OpenExisting`, its local object being the result; `opened` is what the open call
returns, and `closes` says whether the handle the local was built with is closed
before it is overwritten. -/
def openExisting (closes : Bool) (kind : Kind) (s : State) (i : Nat) (opened created : Option Nat) :
    Option (State × Except String Unit) :=
  match opened with
  | some handle => do
      let kernel ← s.kernel.create handle ()
      let (s,result) ← construct {s with kernel := kernel} i kind created
      match created with
      | some own =>
          let kernel := if closes then s.kernel.close own else s.kernel
          some ({s with kernel := kernel}.put i (some ⟨kind,handle⟩),result)
      | none => some (s,result)
  | none => some (s,.error kind.openFailed)

def mutexOpenExisting := openExisting false .mutex

def eventOpenExisting := openExisting false .event

def semaphoreOpenExisting := openExisting true .semaphore

def Kind.openExisting : Kind → State → Nat → Option Nat → Option Nat → Option (State × Except String Unit)
  | .mutex => mutexOpenExisting
  | .event => eventOpenExisting
  | .semaphore => semaphoreOpenExisting

inductive Label
  | construct (i : Nat) (kind : Kind) (created : Option Nat)
  | openExisting (i : Nat) (kind : Kind) (opened created : Option Nat)
  | moveConstruct (i j : Nat)
  | moveAssign (i j : Nat)
  | destroy (i : Nat)

/-- Moves are between objects of one kind. -/
def step (s : State) : Label → Option State
  | .construct i kind created =>
      match s.objects[i]? with
      | some none => (construct s i kind created).map Prod.fst
      | _ => none
  | .openExisting i kind opened created =>
      match s.objects[i]? with
      | some none => (kind.openExisting s i opened created).map Prod.fst
      | _ => none
  | .moveConstruct i j =>
      match s.objects[i]?, s.objects[j]? with
      | some none, some (some other) => some ((s.put j (some {other with handle := 0})).put i (some other))
      | _, _ => none
  | .moveAssign i j =>
      match s.objects[i]?, s.objects[j]? with
      | some (some object), some (some other) =>
          if object.kind ≠ other.kind then none
          else if i = j then some s
          else some ({s with kernel := closeHandle s.kernel object}.put j (some {other with handle := 0}) |>.put i (some other))
      | _, _ => none
  | .destroy i =>
      match s.objects[i]? with
      | some (some object) => some ({s with kernel := closeHandle s.kernel object}.put i none)
      | _ => none

/-- An `OpenExisting` that closes all it obtains but does not return: one that could
not open, or a semaphore's whose own construction succeeds. -/
def Label.returnsAll : Label → Bool
  | .openExisting _ .semaphore opened created => opened.isNone || created.isSome
  | .openExisting _ _ opened _ => opened.isNone
  | _ => true

/-- The handle a call obtains and leaves to nobody. -/
def Label.leaked : Label → Option Nat
  | .openExisting _ _ (some handle) none => some handle
  | .openExisting _ .semaphore (some _) (some _) => none
  | .openExisting _ _ (some _) (some own) => some own
  | _ => none

def holds (slot : Option Object) : Option Nat :=
  slot.bind fun object => if object.handle = 0 then none else some object.handle

section Steps
variable {s t : State} {i j : Nat} {object other : Object} {kind : Kind} {handle : Nat}

theorem returnsAll_iff (label : Label) : label.returnsAll = true ↔ label.leaked = none := by
  cases label with
  | openExisting i kind opened created =>
    cases kind <;> cases opened <;> cases created <;> simp [Label.returnsAll,Label.leaked]
  | construct | moveConstruct | moveAssign | destroy => simp [Label.returnsAll,Label.leaked]

theorem holds_handle (positive : handle ≠ 0) : holds (some ⟨kind,handle⟩) = some handle := by simp [holds,positive]

theorem holds_null (null : object.handle = 0) : holds (some object) = none := by simp [holds,null]

/-- Beside the handles nobody held in `s`, nobody holds the extra ones in `t`. -/
def Accounts (extra : Nat → Prop) (s t : State) : Prop :=
  Ledger holds t.objects t.kernel ∧ ∀ k, Stray holds t.objects t.kernel k ↔ extra k ∨ Stray holds s.objects s.kernel k

variable {extra : Nat → Prop} {slot : Option Object}

theorem accounts_same (ledger : Ledger holds s.objects s.kernel) : Accounts (fun _ => False) s s :=
  ⟨ledger,fun _ => by rw [false_or]⟩

theorem Accounts.congr {other : Nat → Prop} (accounts : Accounts extra s t) (same : ∀ k, extra k ↔ other k) :
    Accounts other s t :=
  ⟨accounts.1,fun k => (accounts.2 k).trans (or_congr_left (same k))⟩

theorem Accounts.create {kernel : Table Unit} (accounts : Accounts extra s t)
    (created : t.kernel.create handle () = some kernel) :
    Accounts (fun k => k = handle ∨ extra k) s {t with kernel := kernel} :=
  ⟨accounts.1.create created,fun k => by rw [stray_create accounts.1 created,accounts.2,or_assoc]⟩

theorem Accounts.take (kind : Kind) (accounts : Accounts extra s t) (found : t.objects[i]? = some slot) (null : holds slot = none)
    (positive : handle ≠ 0) (fresh : ¬ s.kernel.Open handle) (obtained : extra handle) :
    Accounts (fun k => k ≠ handle ∧ extra k) s (t.put i (some ⟨kind,handle⟩)) := by
  obtain ⟨ledger,strays⟩ := accounts
  have owns : holds (some ⟨kind,handle⟩) = some handle := holds_handle positive
  obtain ⟨opened,unheld⟩ := (strays handle).mpr (.inl obtained)
  refine ⟨ledger.take found null owns opened unheld,fun k => ?_⟩
  have taken := stray_take (t := t.kernel) found null owns k
  have others : Stray holds s.objects s.kernel k → k ≠ handle := by
    intro stray same
    subst same
    exact fresh stray.1
  rw [State.put,taken,strays,and_or_left,and_iff_right_of_imp others]

theorem Accounts.drop {own : Nat} (accounts : Accounts extra s t) (found : t.objects[i]? = some (some ⟨kind,own⟩))
    (positive : own ≠ 0) : Accounts (fun k => k = own ∨ extra k) s (t.put i (some ⟨kind,0⟩)) := by
  obtain ⟨ledger,strays⟩ := accounts.1.drop found (holds_handle positive) (holds_null rfl : holds (some ⟨kind,0⟩) = none)
  exact ⟨ledger,fun k => by rw [State.put,strays,accounts.2,or_assoc]⟩

theorem Accounts.close {next : Option Object} (accounts : Accounts extra s t) (found : t.objects[i]? = some (some object))
    (positive : object.handle ≠ 0) (null : holds next = none) :
    Accounts extra s ({t with kernel := t.kernel.close object.handle}.put i next) := by
  have owns : holds (some object) = some object.handle := holds_handle positive
  exact ⟨(accounts.1.close found owns null).1,fun k => by rw [← accounts.2]; exact stray_close accounts.1 found owns null k⟩

theorem Accounts.construct (kind : Kind) {kernel : Table Unit} (accounts : Accounts extra s t) (vacant : t.objects[i]? = some none)
    (fresh : ¬ s.kernel.Open handle) (created : t.kernel.create handle () = some kernel) :
    Accounts extra s ({t with kernel := kernel}.put i (some ⟨kind,handle⟩)) := by
  obtain ⟨positive,unopened,_⟩ := create_fresh created
  refine ((accounts.create created).take kind vacant rfl positive fresh (.inl rfl)).congr fun k => ?_
  constructor
  · exact fun given => given.2.resolve_left given.1
  · intro beside
    refine ⟨fun same => ?_,.inr beside⟩
    subst same
    exact unopened ((accounts.2 k).mpr (.inl beside)).1

theorem openExisting_accounts {closes : Bool} {opened created : Option Nat} {result : Except String Unit}
    (ledger : Ledger holds s.objects s.kernel) (vacant : s.objects[i]? = some none)
    (called : openExisting closes kind s i opened created = some (t,result)) :
    Accounts (fun k => opened ≠ none ∧ (created = none ∧ opened = some k ∨ closes = false ∧ created = some k)) s t := by
  cases opened with
  | none =>
    cases called
    exact (accounts_same ledger).congr fun k => by simp
  | some handle =>
    obtain ⟨kernel,found,rest⟩ := Option.bind_eq_some_iff.mp called
    obtain ⟨positive,fresh,_⟩ := create_fresh found
    have obtained := (accounts_same ledger).create found
    cases created with
    | none =>
      cases rest
      exact obtained.congr fun k => by simp [eq_comm]
    | some own =>
      obtain ⟨constructed,built,rest⟩ := Option.bind_eq_some_iff.mp rest
      obtain ⟨table,second,rfl⟩ := Option.map_eq_some_iff.mp built
      obtain ⟨nonnull,unopened,_⟩ := create_fresh second
      have apart : own ≠ handle ∧ ¬ s.kernel.Open own := by
        have opens := mt (create_opens found own).mpr unopened
        exact not_or.mp opens
      have built := obtained.construct kind vacant apart.2 second
      have here : (s.objects.set i (some (Object.mk kind own)))[i]? = some (some ⟨kind,own⟩) := get_self vacant
      cases closes with
      | true =>
        cases rest
        have emptied := built.close here nonnull (holds_null rfl : holds (some ⟨kind,0⟩) = none)
        have taken := emptied.take kind (get_self here) (holds_null rfl) positive fresh (.inl rfl)
        simp only [State.put,List.set_set] at taken ⊢
        exact taken.congr fun k => by simp
      | false =>
        cases rest
        have emptied := built.drop here nonnull
        have taken := emptied.take kind (get_self here) (holds_null rfl) positive fresh (.inr (.inl rfl))
        simp only [State.put,List.set_set] at taken ⊢
        refine taken.congr fun k => ?_
        constructor
        · intro given
          have same : k = own := given.2.resolve_right (not_or.mpr ⟨given.1,id⟩)
          exact ⟨nofun,.inr ⟨trivial,congrArg some same.symm⟩⟩
        · intro given
          obtain rfl : own = k := Option.some.inj (given.2.resolve_left fun wrong => nomatch wrong.1).2
          exact ⟨apart.1,.inl rfl⟩

theorem openExisting_leaked {opened created : Option Nat} {result : Except String Unit}
    (ledger : Ledger holds s.objects s.kernel) (vacant : s.objects[i]? = some none)
    (called : kind.openExisting s i opened created = some (t,result)) :
    Accounts (fun k => (Label.openExisting i kind opened created).leaked = some k) s t := by
  cases kind <;> refine (openExisting_accounts ledger vacant called).congr fun k => ?_ <;>
    cases opened <;> cases created <;> simp [Label.leaked]

/-- A destroyed object, or one about to take another's handle. -/
theorem release_accounts {next : Option Object} (ledger : Ledger holds s.objects s.kernel)
    (found : s.objects[i]? = some (some object)) (null : holds next = none) :
    Accounts (fun _ => False) s ({s with kernel := closeHandle s.kernel object}.put i next) := by
  unfold closeHandle
  split
  next positive => exact (accounts_same ledger).close found positive null
  next gone =>
    have same : holds next = holds (some object) := null.trans (holds_null (not_not.mp gone)).symm
    exact ⟨ledger.keep found same,fun k => by rw [false_or]; exact stray_keep found same k⟩

theorem Accounts.pass (accounts : Accounts extra s t) (apart : i ≠ j) (taking : t.objects[i]? = some slot)
    (giving : t.objects[j]? = some (some other)) (empty : holds slot = none) :
    Accounts extra s ((t.put j (some {other with handle := 0})).put i (some other)) :=
  ⟨accounts.1.pass apart taking giving empty rfl (holds_null rfl),fun k =>
    (stray_pass accounts.1 apart taking giving empty rfl (holds_null rfl) k).trans (accounts.2 k)⟩

theorem leaked_step {label : Label} (ledger : Ledger holds s.objects s.kernel) (taken : step s label = some t) :
    Accounts (fun k => label.leaked = some k) s t := by
  cases label with
  | construct i kind created =>
    simp only [step] at taken
    split at taken
    next vacant =>
      obtain ⟨⟨_,result⟩,constructed,rfl⟩ := Option.map_eq_some_iff.mp taken
      cases created with
      | none =>
        cases constructed
        exact (accounts_same ledger).congr fun k => by simp [Label.leaked]
      | some handle =>
        obtain ⟨kernel,found,same⟩ := Option.map_eq_some_iff.mp constructed
        cases same
        refine ((accounts_same ledger).construct _ vacant (create_fresh found).2.1 found).congr fun k => ?_
        simp [Label.leaked]
    next => contradiction
  | openExisting i kind opened created =>
    simp only [step] at taken
    split at taken
    next vacant =>
      obtain ⟨⟨_,result⟩,called,rfl⟩ := Option.map_eq_some_iff.mp taken
      exact openExisting_leaked ledger vacant called
    next => contradiction
  | moveConstruct i j =>
    simp only [step] at taken
    split at taken
    next other vacant present =>
      cases taken
      have apart : i ≠ j := by
        intro same
        subst same
        cases vacant.symm.trans present
      exact ((accounts_same ledger).pass apart vacant present rfl).congr fun k => by simp [Label.leaked]
    next => contradiction
  | moveAssign i j =>
    simp only [step] at taken
    split at taken
    next object other found present =>
      split at taken
      next => contradiction
      next =>
        split at taken
        next =>
          cases taken
          exact (accounts_same ledger).congr fun k => by simp [Label.leaked]
        next apart =>
          cases taken
          have released := release_accounts ledger found (holds_null rfl : holds (some ⟨object.kind,0⟩) = none)
          have passed := released.pass apart (get_self found)
            (by rw [State.put,List.getElem?_set_ne apart]; exact present) (holds_null rfl)
          simp only [State.put,List.set_comm _ _ apart,List.set_set] at passed ⊢
          exact passed.congr fun k => by simp [Label.leaked]
    next => contradiction
  | destroy i =>
    simp only [step] at taken
    split at taken
    next object found =>
      cases taken
      exact (release_accounts ledger found rfl).congr fun k => by simp [Label.leaked]
    next => contradiction

end Steps

theorem kept_obeys {s t : State} {labels : List Label} (initial : Ledger holds s.objects s.kernel)
    (reached : run step s labels = some t) (kept : Kept holds s.objects s.kernel) :
    Kept holds t.objects t.kernel ↔ Obeys step (fun _ label => label.returnsAll = true) s labels := by
  refine @last_iff_obeys _ _ _ (fun s => Ledger holds s.objects s.kernel) (fun s => Kept holds s.objects s.kernel) _
    (fun s label t ledger taken => (leaked_step ledger taken).1) ?_ ?_ ?_ _ _ _ initial kept reached
  · intro s label t ledger kept returns taken
    have strays := (leaked_step ledger taken).2
    refine kept_iff.mpr fun k stray => ?_
    rcases (strays k).mp stray with leaked | old
    · rw [(returnsAll_iff label).mp returns] at leaked
      contradiction
    · exact kept_iff.mp kept k old
  · intro s label t ledger breach taken kept
    obtain ⟨k,leaked⟩ := Option.ne_none_iff_exists'.mp (mt (returnsAll_iff label).mpr breach)
    exact kept_iff.mp kept k (((leaked_step ledger taken).2 k).mpr (.inl leaked))
  · intro s label t ledger broken taken kept
    refine broken (kept_iff.mpr fun k stray => ?_)
    exact kept_iff.mp kept k (((leaked_step ledger taken).2 k).mpr (.inr stray))

/-- Nothing closed is ever used; and once every object is destroyed each handle that a
create or open call has returned has been closed once, if and only if every
`OpenExisting` that opened something was a semaphore's and built its object. -/
theorem closed_once_iff {slots : Nat} {labels : List Label} {s : State} (reached : run step (init slots) labels = some s) :
    s.kernel.misused = false ∧
    ((∀ slot ∈ s.objects, slot = none) →
      ((∀ h ∈ s.kernel.handles, h.closes = 1) ↔ ∀ label ∈ labels, label.returnsAll = true)) := by
  have initial : Ledger holds (init slots).objects (init slots).kernel :=
    Ledger.empty fun slot member => by rw [List.eq_of_mem_replicate member]; rfl
  have ledger := run_invariant (fun s => Ledger holds s.objects s.kernel)
    (fun s label t ledger taken => (leaked_step ledger taken).1) initial reached
  refine ⟨ledger.sound,fun destroyed => ?_⟩
  have empty : ∀ slot ∈ s.objects, holds slot = none := by
    intro slot member
    rw [destroyed slot member]
    rfl
  have fresh : Kept holds (init slots).objects (init slots).kernel := by
    intro k held
    obtain ⟨n,h,found,_⟩ := held
    simp [init,Table.empty] at found
  rw [← ledger.closed_once empty,kept_obeys initial reached fresh]
  exact ⟨fun obeyed => obeys_labels obeyed reached,fun all => obeys_of_labels (fun label member _ => all label member) _⟩

/-- A named mutex and a second object for it: the two objects destroyed, the mutex
that `OpenExisting` built its result on is still open. -/
theorem openExisting_leaks :
    ∃ s, run step (init 2) [.construct 0 .mutex (some 4),.openExisting 1 .mutex (some 8) (some 12),.destroy 1,.destroy 0] =
        some s ∧ (∀ slot ∈ s.objects, slot = none) ∧ ¬ ∀ h ∈ s.kernel.handles, h.closes = 1 :=
  ⟨_,rfl,by decide,by decide⟩

/-- The semaphore's `OpenExisting` in the same place leaks nothing. -/
theorem closed_once_iff_semaphore :
    ∃ s, run step (init 2) [.construct 0 .semaphore (some 4),.openExisting 1 .semaphore (some 8) (some 12),.moveAssign 0 1,
        .destroy 1,.destroy 0] = some s ∧ ∀ h ∈ s.kernel.handles, h.closes = 1 := by
  obtain ⟨s,reached,destroyed⟩ : ∃ s, run step (init 2) [.construct 0 .semaphore (some 4),
      .openExisting 1 .semaphore (some 8) (some 12),.moveAssign 0 1,.destroy 1,.destroy 0] = some s ∧
      ∀ slot ∈ s.objects, slot = none := ⟨_,rfl,by decide⟩
  exact ⟨s,reached,((closed_once_iff reached).2 destroyed).mpr (by decide)⟩

end Ezthread.KernelObjects
