import Ezthread.ThreadLocals

/-! What the values of a `ThreadLocal` contain. Slots and indices are the system's and are
used again; to its callers an object is a cell of its own for each thread. -/
namespace Ezthread.ThreadLocal
open Transition Activation
open Mutex (DWORD ThreadException)

variable {α : Type*}

inductive Reply (α : Type*)
  | value (value : α)
  | answer (value : Bool)

/-- What the calling thread does with the reference it is returned. -/
inductive Access (α : Type*)
  | read
  | write (value : α)

/-- `contents` is the memory that the `T`s are in; `replies` is none of the program, and
lists what every call so far has come to. -/
structure Stored (α : Type*) where
  tls : State
  contents : Nat → α
  replies : List (Except Thrown (Reply α))

inductive StoredLabel (α : Type*)
  | system (label : Label)
  | use (thread i : Nat) (method : Method) (answers : Answers) (access : Access α)

def Method.creates : Method → Bool
  | .get | .arrow | .dereference => true
  | .getConst | .arrowConst | .dereferenceConst | .hasValue => false

/-- A const method returns a reference that cannot be written through. -/
def Access.permits (method : Method) : Access α → Bool
  | .read => true
  | .write _ => method.creates

def Access.apply (access : Access α) (address : Nat) (contents : Nat → α) : Nat → α :=
  match access with
  | .read => contents
  | .write value => Function.update contents address value

/-- `new T()` gives the new `T` its value. -/
def defaulted [Inhabited α] (thread : Nat) (index : DWORD) (method : Method) (answers : Answers) (s : Stored α) : Nat → α :=
  match answers.address with
  | some ptr =>
      if method.creates ∧ getPointer thread index s.tls = none then Function.update s.contents ptr default else s.contents
  | none => s.contents

def Stored.use [Inhabited α] (thread : Nat) (index : DWORD) (method : Method) (answers : Answers) (access : Access α)
    (s : Stored α) : Stored α :=
  let contents := defaulted thread index method answers s
  match method.call thread index answers s.tls with
  | (.ok (.reference address),tls) =>
      let after := access.apply address contents
      ⟨tls,after,s.replies ++ [.ok (.value (after address))]⟩
  | (.ok (.answer value),tls) => ⟨tls,contents,s.replies ++ [.ok (.answer value)]⟩
  | (.error thrown,tls) => ⟨tls,contents,s.replies ++ [.error thrown]⟩

def storedStep [Inhabited α] (s : Stored α) : StoredLabel α → Option (Stored α)
  | .system (.call _ _ _ _) => none
  | .system label => (step s.tls label).map fun tls => {s with tls := tls}
  | .use thread i method answers access =>
      if thread ∈ s.tls.threads ∧ answers.address.all (fun address => !s.tls.heap address) ∧ access.permits method then
        match s.tls.objects[i]? with
        | some ⟨index,true⟩ => some (s.use thread index method answers access)
        | _ => none
      else none

def storedInit (contents : Nat → α) : Stored α := ⟨init,contents,[]⟩

/-- What the object is for: for each object and thread a cell, empty until used. -/
structure Cells (α : Type*) where
  cell : Nat → Nat → Option α
  replies : List (Except Thrown (Reply α))

def Cells.reply (s : Cells α) (reply : Except Thrown (Reply α)) : Cells α := {s with replies := s.replies ++ [reply]}

/-- The thread's own cell of the object is read, or written, and given back. -/
def Cells.access (s : Cells α) (i thread : Nat) (value : α) (access : Access α) : Cells α :=
  let after := match access with
    | .read => value
    | .write written => written
  Cells.reply {s with cell := Function.update s.cell i (Function.update (s.cell i) thread (some after))} (.ok (.value after))

def Cells.use [Inhabited α] (s : Cells α) (thread i : Nat) (method : Method) (answers : Answers) (access : Access α) : Cells α :=
  match method with
  | .hasValue => s.reply (.ok (.answer (s.cell i thread).isSome))
  | .getConst | .arrowConst | .dereferenceConst =>
      match s.cell i thread with
      | some value => s.access i thread value access
      | none => s.reply (.error (.exception ⟨"Thread-local value not initialized",answers.lastError⟩))
  | .get | .arrow | .dereference =>
      match s.cell i thread with
      | some value => s.access i thread value access
      | none =>
          if answers.address = none then s.reply (.error .badAlloc)
          else if answers.stored then s.access i thread default access
          else s.reply (.error (.exception ⟨"TlsSetValue failed",answers.lastError⟩))

/-- The end of an object or of a thread empties its cells. -/
def Cells.step [Inhabited α] (s : Cells α) : StoredLabel α → Cells α
  | .system (.destroy i) => {s with cell := Function.update s.cell i fun _ => none}
  | .system (.exitThread thread) => {s with cell := fun i => Function.update (s.cell i) thread none}
  | .system _ => s
  | .use thread i method answers access => s.use thread i method answers access

def Cells.init : Cells α := ⟨fun _ _ => none,[]⟩

def Stored.Contains (s : Stored α) (i thread : Nat) (value : α) : Prop :=
  ∃ address, s.tls.Holds i thread address ∧ s.contents address = value

/-- A cell is full if and only if the thread has a value of the object, and then with what it contains. -/
structure Mirrors (s : Stored α) (cells : Cells α) : Prop where
  cell : ∀ i thread value, cells.cell i thread = some value ↔ s.Contains i thread value
  replies : s.replies = cells.replies

section Cells
variable {s : Stored α} {cells : Cells α} {tls : State} {i thread address : Nat} {index : DWORD} {answers : Answers}

theorem State.Holds.unique {other : Nat} (first : tls.Holds i thread address) (second : tls.Holds i thread other) :
    address = other := by
  obtain ⟨index,found,_,value⟩ := first
  obtain ⟨same,present,_,shares⟩ := second
  cases found.symm.trans present
  exact Option.some.inj (value.symm.trans shares)

/-- What a thread does with its own value changes no other cell, for no other has the address. -/
theorem mirrors_access {contents : Nat → α} {value : α} (access : Access α) (sound : Sound tls)
    (holds : tls.Holds i thread address) (own : contents address = value)
    (others : ∀ j other v, ¬ (j = i ∧ other = thread) → (cells.cell j other = some v ↔
      ∃ a, tls.Holds j other a ∧ contents a = v)) :
    Mirrors ⟨tls,access.apply address contents,cells.replies ++ [.ok (.value (access.apply address contents address))]⟩
      (cells.access i thread value access) := by
  have after : (match access with | .read => value | .write written => written) = access.apply address contents address := by
    cases access with
    | read => exact own.symm
    | write written => simp [Access.apply]
  refine ⟨fun j other v => ?_,by simp only [Cells.access,Cells.reply,after]⟩
  by_cases same : j = i ∧ other = thread
  · obtain ⟨rfl,rfl⟩ := same
    simp only [Cells.access,Cells.reply,Function.update_self,after,Option.some.injEq]
    constructor
    · intro equal
      exact ⟨address,holds,equal⟩
    · intro given
      obtain ⟨a,has,equal⟩ := given
      exact holds.unique has ▸ equal
  · have cell : (cells.access i thread value access).cell j other = cells.cell j other := by
      simp only [Cells.access,Cells.reply]
      by_cases object : j = i
      · subst object
        rw [Function.update_self,Function.update_of_ne (fun equal => same ⟨rfl,equal⟩)]
      · rw [Function.update_of_ne object]
    rw [cell,others j other v same]
    refine exists_congr fun a => and_congr_right fun has => ?_
    have apart : a ≠ address := by
      rintro rfl
      obtain ⟨rfl,rfl⟩ := sound.single _ _ _ _ _ has holds
      exact same ⟨rfl,rfl⟩
    cases access with
    | read => exact Iff.rfl
    | write written => simp only [Access.apply,Function.update_of_ne apart]

theorem Mirrors.reply (mirrors : Mirrors s cells) (reply : Except Thrown (Reply α)) :
    Mirrors {s with replies := s.replies ++ [reply]} (cells.reply reply) :=
  ⟨mirrors.cell,by simp only [Cells.reply,mirrors.replies]⟩

theorem Mirrors.full (mirrors : Mirrors s cells) (holds : s.tls.Holds i thread address) :
    cells.cell i thread = some (s.contents address) := (mirrors.cell i thread _).mpr ⟨address,holds,rfl⟩

theorem Mirrors.empty (mirrors : Mirrors s cells) (found : s.tls.objects[i]? = some ⟨index,true⟩)
    (null : s.tls.slots index thread = none) : cells.cell i thread = none := by
  by_contra full
  obtain ⟨value,same⟩ := Option.ne_none_iff_exists'.mp full
  obtain ⟨address,⟨other,present,_,has⟩,_⟩ := (mirrors.cell i thread value).mp same
  cases found.symm.trans present
  rw [null] at has
  contradiction

/-- A `T` that was not there before is nobody's value. -/
theorem Sound.fresh {ptr other : Nat} (sound : Sound tls) (free : tls.heap ptr = false) (holds : tls.Holds i other address) :
    address ≠ ptr := by
  rintro rfl
  exact Bool.false_ne_true (free.symm.trans (sound.valued _ _ _ holds))

theorem creating_call {method : Method} (creates : method.creates = true) (thread : Nat) (index : DWORD) (answers : Answers)
    (s : State) : method.call thread index answers s = refer (get thread index answers s) := by
  cases method with
  | get | arrow | dereference => rfl
  | getConst | arrowConst | dereferenceConst | hasValue => contradiction

theorem Cells.access_cell (cells : Cells α) (j other : Nat) (value : α) (access : Access α)
    (apart : ¬ (j = i ∧ other = thread)) : (cells.access j other value access).cell i thread = cells.cell i thread := by
  simp only [Cells.access,Cells.reply]
  by_cases object : i = j
  · subst object
    rw [Function.update_self,Function.update_of_ne (fun equal => apart ⟨rfl,equal.symm⟩)]
  · rw [Function.update_of_ne object]

variable [Inhabited α]

theorem defaulted_present (thread : Nat) (index : DWORD) (method : Method) (answers : Answers)
    (value : s.tls.slots index thread = some address) : defaulted thread index method answers s = s.contents := by
  unfold defaulted
  split
  next ptr _ => simp [getPointer,tlsGetValue,value]
  next => rfl

theorem defaulted_const {method : Method} (const : method.creates = false) (thread : Nat) (index : DWORD) (answers : Answers) :
    defaulted thread index method answers s = s.contents := by
  unfold defaulted
  split
  next ptr _ => simp [const]
  next => rfl

theorem defaulted_fresh {method : Method} (creates : method.creates = true) {ptr : Nat} (offered : answers.address = some ptr)
    {thread : Nat} (null : s.tls.slots index thread = none) :
    defaulted thread index method answers s = Function.update s.contents ptr default := by
  simp [defaulted,offered,creates,getPointer,tlsGetValue,null]

/-- Every method finds a value that is there, and no other cell changes. -/
theorem Mirrors.use_full (mirrors : Mirrors s cells) (sound : Sound s.tls) (found : s.tls.objects[i]? = some ⟨index,true⟩)
    (running : thread ∈ s.tls.threads) (value : s.tls.slots index thread = some address) {method : Method}
    (refers : method ≠ .hasValue) (access : Access α) :
    Mirrors (s.use thread index method answers access) (cells.use thread i method answers access) := by
  have holds : s.tls.Holds i thread address := ⟨index,found,running,value⟩
  have called : method.call thread index answers s.tls = (.ok (.reference address),s.tls) := by
    cases method with
    | get | arrow | dereference =>
      simp [Method.call,refer,arrow,dereference,get,getPointer,tlsGetValue,value,Except.map]
    | getConst | arrowConst | dereferenceConst =>
      simp [Method.call,refer,arrowConst,dereferenceConst,getConst,getPointer,tlsGetValue,value,Except.map]
    | hasValue => exact absurd rfl refers
  have used : cells.use thread i method answers access = cells.access i thread (s.contents address) access := by
    cases method with
    | hasValue => exact absurd rfl refers
    | _ => simp only [Cells.use,mirrors.full holds]
  simp only [Stored.use,called,used,defaulted_present thread index method answers value,mirrors.replies]
  exact mirrors_access access sound holds rfl fun j other v _ => mirrors.cell j other v

/-- A creating method that finds none makes the thread's own, or tells why it could not. -/
theorem Mirrors.use_creating (mirrors : Mirrors s cells) (sound : Sound s.tls) (found : s.tls.objects[i]? = some ⟨index,true⟩)
    (running : thread ∈ s.tls.threads) (null : s.tls.slots index thread = none)
    (free : answers.address.all (fun address => !s.tls.heap address) = true) {method : Method}
    (creates : method.creates = true) (access : Access α) :
    Mirrors (s.use thread index method answers access) (cells.use thread i method answers access) := by
  have used : cells.use thread i method answers access =
      if answers.address = none then cells.reply (.error .badAlloc)
      else if answers.stored then cells.access i thread default access
      else cells.reply (.error (.exception ⟨"TlsSetValue failed",answers.lastError⟩)) := by
    cases method with
    | get | arrow | dereference => simp only [Cells.use,mirrors.empty found null]
    | getConst | arrowConst | dereferenceConst | hasValue => contradiction
  rw [used]
  cases offered : answers.address with
  | none =>
    simp only [Stored.use,creating_call creates,refer,get,getPointer,tlsGetValue,null,offered,defaulted,Except.map,if_true]
    exact mirrors.reply _
  | some ptr =>
    have unused : s.tls.heap ptr = false := by simpa [offered] using free
    have others (j other : Nat) (v : α) : cells.cell j other = some v ↔
        ∃ a, s.tls.Holds j other a ∧ Function.update s.contents ptr default a = v := by
      rw [mirrors.cell]
      refine exists_congr fun a => and_congr_right fun has => ?_
      rw [Function.update_of_ne (sound.fresh unused has)]
    cases stored : answers.stored with
    | false =>
      simp only [Stored.use,creating_call creates,refer,get,getPointer,tlsGetValue,null,offered,setPointer,stored,Except.map,
        defaulted_fresh creates offered null,Bool.false_eq_true,reduceCtorEq,if_false]
      exact ⟨others,by simp only [Cells.reply,mirrors.replies]⟩
    | true =>
      simp only [Stored.use,creating_call creates,refer,get,getPointer,tlsGetValue,null,offered,setPointer,stored,Except.map,
        defaulted_fresh creates offered null,reduceCtorEq,if_true,if_false,mirrors.replies]
      have held (k other a : Nat) := @store_held s.tls sound.indexed i thread ptr index found running null k other a
      refine mirrors_access access (sound.moves (.store thread i method answers index ptr found running null unused))
        ((held i thread ptr).mpr (Or.inl ⟨rfl,rfl,rfl⟩)) (Function.update_self ..) fun j other v apart => ?_
      rw [others]
      refine exists_congr fun a => and_congr_left fun _ => ?_
      rw [held]
      exact ⟨Or.inr,fun given => given.resolve_left fun same => apart ⟨same.1,same.2.1⟩⟩

theorem Mirrors.use_empty (mirrors : Mirrors s cells) (found : s.tls.objects[i]? = some ⟨index,true⟩)
    (null : s.tls.slots index thread = none) {method : Method} (const : method.creates = false) (refers : method ≠ .hasValue)
    (access : Access α) : Mirrors (s.use thread index method answers access) (cells.use thread i method answers access) := by
  have used : cells.use thread i method answers access =
      cells.reply (.error (.exception ⟨"Thread-local value not initialized",answers.lastError⟩)) := by
    cases method with
    | get | arrow | dereference => contradiction
    | getConst | arrowConst | dereferenceConst => simp only [Cells.use,mirrors.empty found null]
    | hasValue => exact absurd rfl refers
  have called : method.call thread index answers s.tls =
      (.error (.exception ⟨"Thread-local value not initialized",answers.lastError⟩),s.tls) := by
    cases method with
    | get | arrow | dereference => contradiction
    | getConst | arrowConst | dereferenceConst =>
      simp [Method.call,refer,arrowConst,dereferenceConst,getConst,getPointer,tlsGetValue,null,Except.map]
    | hasValue => exact absurd rfl refers
  simp only [Stored.use,called,used,defaulted_const const]
  exact mirrors.reply _

theorem Mirrors.use_hasValue (mirrors : Mirrors s cells) (found : s.tls.objects[i]? = some ⟨index,true⟩)
    (running : thread ∈ s.tls.threads) (access : Access α) :
    Mirrors (s.use thread index .hasValue answers access) (cells.use thread i .hasValue answers access) := by
  have same : (cells.cell i thread).isSome = hasValue thread index s.tls := by
    cases value : s.tls.slots index thread with
    | none => simp [hasValue,getPointer,tlsGetValue,value,mirrors.empty found value]
    | some address => simp [hasValue,getPointer,tlsGetValue,value,mirrors.full ⟨index,found,running,value⟩]
  have const : Method.hasValue.creates = false := rfl
  simp only [Stored.use,Method.call,Cells.use,same,defaulted_const const]
  exact mirrors.reply _

theorem Mirrors.use (mirrors : Mirrors s cells) (sound : Sound s.tls) (found : s.tls.objects[i]? = some ⟨index,true⟩)
    (running : thread ∈ s.tls.threads) (free : answers.address.all (fun address => !s.tls.heap address) = true)
    (method : Method) (access : Access α) :
    Mirrors (s.use thread index method answers access) (cells.use thread i method answers access) := by
  by_cases asks : method = .hasValue
  · subst asks
    exact mirrors.use_hasValue found running access
  cases value : s.tls.slots index thread with
  | some address => exact mirrors.use_full sound found running value asks access
  | none =>
    cases creates : method.creates with
    | true => exact mirrors.use_creating sound found running value free creates access
    | false => exact mirrors.use_empty found value creates asks access

/-- The steps of the system leave the contents alone; those that end an object or a thread empty its cells. -/
theorem Mirrors.system {label : Label} (mirrors : Mirrors s cells) (sound : Sound s.tls)
    (calls : ∀ thread i method answers, label ≠ .call thread i method answers) (taken : step s.tls label = some tls) :
    Mirrors {s with tls := tls} (cells.step (.system label)) := by
  cases step_moves taken with
  | construct answer lastError free =>
    exact ⟨fun j other v => by simp only [Cells.step,Stored.Contains,construct_held sound.indexed free,mirrors.cell],mirrors.replies⟩
  | refuse => exact mirrors
  | destroy j index indices found others =>
    refine ⟨fun k other v => ?_,mirrors.replies⟩
    simp only [Cells.step,Stored.Contains,destroy_held]
    by_cases same : k = j
    · subst same
      simp
    · simp [same,mirrors.cell,Stored.Contains]
  | createThread thread absent =>
    exact ⟨fun j other v => by simp only [Cells.step,Stored.Contains,createThread_held absent,mirrors.cell],mirrors.replies⟩
  | exitThread thread running =>
    refine ⟨fun k other v => ?_,mirrors.replies⟩
    simp only [Cells.step,Stored.Contains,exitThread_held]
    by_cases same : other = thread
    · subst same
      simp
    · simp [same,mirrors.cell,Stored.Contains]
  | keep | store | discard => exact absurd rfl (calls _ _ _ _)

theorem mirrors_step {t : Stored α} {label : StoredLabel α} (known : Sound s.tls ∧ Mirrors s cells)
    (taken : storedStep s label = some t) : Sound t.tls ∧ Mirrors t (cells.step label) := by
  obtain ⟨sound,mirrors⟩ := known
  cases label with
  | system label =>
    cases label with
    | call => contradiction
    | _ =>
      obtain ⟨tls,stepped,rfl⟩ := Option.map_eq_some_iff.mp taken
      exact ⟨sound.moves (step_moves stepped),mirrors.system sound (fun _ _ _ _ => by simp) stepped⟩
  | use thread i method answers access =>
    simp only [storedStep] at taken
    split at taken
    next given =>
      split at taken
      next index found =>
        cases taken
        have called : step s.tls (.call thread i method answers) = some (method.call thread index answers s.tls).2 := by
          simp only [step,given.1,given.2.1,found,and_self,if_true]
        have moved : (s.use thread index method answers access).tls = (method.call thread index answers s.tls).2 := by
          unfold Stored.use
          split <;> simp_all
        exact ⟨moved ▸ sound.moves (step_moves called),mirrors.use sound found given.1 given.2.1 method access⟩
      next => contradiction
    next => contradiction

theorem sound_cells {contents : Nat → α} {labels : List (StoredLabel α)}
    (reached : run storedStep (storedInit contents) labels = some s) :
    Sound s.tls ∧ Mirrors s (labels.foldl Cells.step Cells.init) := by
  have initial : Sound (storedInit contents).tls ∧ Mirrors (storedInit contents) Cells.init := by
    refine ⟨sound_init,fun i thread value => ⟨fun full => absurd full (Option.some_ne_none value).symm,fun given => ?_⟩,rfl⟩
    obtain ⟨address,holds,_⟩ := given
    exact absurd holds (holds_init i thread address)
  exact run_history (fun state past => Sound state.tls ∧ Mirrors state (past.foldl Cells.step Cells.init))
    (fun state past label next known taken => by
      rw [List.foldl_append]
      exact mirrors_step known taken)
    [] initial reached

/-- Whatever indices, slots and addresses the system uses again, every call comes to what it would
with a cell of its own for each object and thread. -/
theorem cells_refined {contents : Nat → α} {labels : List (StoredLabel α)}
    (reached : run storedStep (storedInit contents) labels = some s) :
    s.replies = (labels.foldl Cells.step Cells.init).replies ∧
      ∀ i thread value, (labels.foldl Cells.step Cells.init).cell i thread = some value ↔ s.Contains i thread value := by
  obtain ⟨_,mirrors⟩ := sound_cells reached
  exact ⟨mirrors.replies,mirrors.cell⟩

/-- The step touches the thread's cell of the object, or ends one of the two. -/
def StoredLabel.concerns (i thread : Nat) : StoredLabel α → Bool
  | .system (.destroy j) => j == i
  | .system (.exitThread other) => other == thread
  | .system _ => false
  | .use other j _ _ _ => j == i && other == thread

theorem Cells.use_cell (cells : Cells α) (other j : Nat) (method : Method) (answers : Answers) (access : Access α)
    (apart : ¬ (j = i ∧ other = thread)) : (cells.use other j method answers access).cell i thread = cells.cell i thread := by
  cases method with
  | hasValue => rfl
  | getConst | arrowConst | dereferenceConst =>
    simp only [Cells.use]
    split
    next value _ => exact cells.access_cell j other value access apart
    next => rfl
  | get | arrow | dereference =>
    simp only [Cells.use]
    split
    next value _ => exact cells.access_cell j other value access apart
    next =>
      split_ifs
      next => rfl
      next => exact cells.access_cell j other default access apart
      next => rfl

theorem Cells.unconcerned (cells : Cells α) {label : StoredLabel α} (apart : label.concerns i thread = false) :
    (cells.step label).cell i thread = cells.cell i thread := by
  cases label with
  | use other j method answers access =>
    exact cells.use_cell other j method answers access (by simpa [StoredLabel.concerns] using apart)
  | system label =>
    cases label with
    | destroy j =>
      have different : i ≠ j := by rintro rfl; simp [StoredLabel.concerns] at apart
      simp only [Cells.step,Function.update_of_ne different]
    | exitThread other =>
      have different : thread ≠ other := by rintro rfl; simp [StoredLabel.concerns] at apart
      simp only [Cells.step,Function.update_of_ne different]
    | construct | createThread | call => rfl

/-- What a use makes of the cell, and its reply, are decided by what the cell contains. -/
theorem Cells.use_same (first second : Cells α) (method : Method) (access : Access α)
    (same : first.cell i thread = second.cell i thread) :
    (first.use thread i method answers access).cell i thread = (second.use thread i method answers access).cell i thread ∧
      (first.use thread i method answers access).replies.getLast? =
        (second.use thread i method answers access).replies.getLast? := by
  cases method with
  | hasValue => exact ⟨same,by simp [Cells.use,Cells.reply,same]⟩
  | getConst | arrowConst | dereferenceConst =>
    simp only [Cells.use,same]
    split
    next => simp [Cells.access,Cells.reply]
    next => simp [Cells.reply,same]
  | get | arrow | dereference =>
    simp only [Cells.use,same]
    split
    next => simp [Cells.access,Cells.reply]
    next =>
      split_ifs
      next => simp [Cells.reply,same]
      next => simp [Cells.access,Cells.reply]
      next => simp [Cells.reply,same]

theorem Cells.concerned_same (first second : Cells α) {label : StoredLabel α} (own : label.concerns i thread = true)
    (same : first.cell i thread = second.cell i thread) :
    (first.step label).cell i thread = (second.step label).cell i thread := by
  cases label with
  | use other j method answers access =>
    obtain ⟨rfl,rfl⟩ : j = i ∧ other = thread := by simpa [StoredLabel.concerns] using own
    exact (first.use_same second method access same).1
  | system label =>
    cases label with
    | destroy j =>
      obtain rfl : j = i := by simpa [StoredLabel.concerns] using own
      simp only [Cells.step,Function.update_self]
    | exitThread other =>
      obtain rfl : other = thread := by simpa [StoredLabel.concerns] using own
      simp only [Cells.step,Function.update_self]
    | construct | createThread | call => contradiction

/-- Only the steps that concern a cell decide what it contains. -/
theorem Cells.foldl_concerned (labels : List (StoredLabel α)) (first second : Cells α)
    (same : first.cell i thread = second.cell i thread) :
    (labels.foldl Cells.step first).cell i thread =
      ((labels.filter (·.concerns i thread)).foldl Cells.step second).cell i thread := by
  induction labels generalizing first second with
  | nil => exact same
  | cons label rest ih =>
    cases own : label.concerns i thread with
    | true =>
      simp only [List.filter_cons,own,if_true,List.foldl_cons]
      exact ih (first.step label) (second.step label) (first.concerned_same second own same)
    | false =>
      simp only [List.filter_cons,own,Bool.false_eq_true,if_false,List.foldl_cons]
      exact ih (first.step label) second ((first.unconcerned own).trans same)

/-- Two runs that differ only in what other threads do with the object, and in what any thread does
with others, leave the same value in it and reply alike to the next use. -/
theorem values_isolated {contents other : Nat → α} {first second : List (StoredLabel α)} {t : Stored α} (i thread : Nat)
    (reached : run storedStep (storedInit contents) first = some s) (ended : run storedStep (storedInit other) second = some t)
    (same : first.filter (·.concerns i thread) = second.filter (·.concerns i thread)) :
    (∀ value, s.Contains i thread value ↔ t.Contains i thread value) ∧
      ∀ method answers access after last, storedStep s (.use thread i method answers access) = some after →
        storedStep t (.use thread i method answers access) = some last → after.replies.getLast? = last.replies.getLast? := by
  have alike : (first.foldl Cells.step Cells.init).cell i thread = (second.foldl Cells.step Cells.init).cell i thread := by
    rw [Cells.foldl_concerned first Cells.init Cells.init rfl,same,← Cells.foldl_concerned second Cells.init Cells.init rfl]
  refine ⟨fun value => ?_,fun method answers access after last taken stepped => ?_⟩
  · rw [← (sound_cells reached).2.cell,alike,(sound_cells ended).2.cell]
  · rw [(mirrors_step (sound_cells reached) taken).2.replies,(mirrors_step (sound_cells ended) stepped).2.replies]
    exact (Cells.use_same _ _ method access alike).2

def reuses : List (StoredLabel Nat) :=
  [.system (.createThread 0),.system (.createThread 1),.system (.construct 5 0),.use 0 0 .get ⟨some 100,true,0⟩ (.write 7),
    .use 1 0 .get ⟨some 200,true,0⟩ (.write 9),.use 0 0 .getConst ⟨none,true,0⟩ .read,.system (.destroy 0),
    .system (.construct 5 0),.use 1 1 .hasValue ⟨none,true,0⟩ .read,.use 0 1 .arrow ⟨some 300,true,0⟩ .read]

theorem cells_refined_reuses : ∃ s, run storedStep (storedInit fun _ => 1) reuses = some s ∧
    s.replies[2]? = some (.ok (.value 7)) ∧ s.replies[3]? = some (.ok (.answer false)) ∧
    s.replies[4]? = some (.ok (.value 0)) ∧ s.replies = (reuses.foldl Cells.step Cells.init).replies := by
  obtain ⟨s,reached⟩ : ∃ s, run storedStep (storedInit fun _ => 1) reuses = some s := ⟨_,rfl⟩
  have refined := (cells_refined reached).1
  exact ⟨s,reached,by rw [refined]; rfl,by rw [refined]; rfl,by rw [refined]; rfl,refined⟩

theorem values_isolated_alone : ∃ s t, run storedStep (storedInit fun _ => 1) (reuses.take 5) = some s ∧
    run storedStep (storedInit fun _ => 2)
      [.system (.createThread 0),.system (.construct 6 0),.use 0 0 .get ⟨some 100,true,0⟩ (.write 7)] = some t ∧
    ∀ value, s.Contains 0 0 value ↔ t.Contains 0 0 value := by
  obtain ⟨s,reached⟩ : ∃ s, run storedStep (storedInit fun _ => 1) (reuses.take 5) = some s := ⟨_,rfl⟩
  obtain ⟨t,ended⟩ : ∃ t, run storedStep (storedInit fun _ => 2)
      [.system (.createThread 0),.system (.construct 6 0),.use 0 0 .get ⟨some 100,true,0⟩ (.write 7)] = some t := ⟨_,rfl⟩
  exact ⟨s,t,reached,ended,(values_isolated 0 0 reached ended rfl).1⟩

end Cells

end Ezthread.ThreadLocal
