import Ezthread.ThreadLocalContents

/-! `ThreadLocal<T*>` of tls.cpp: the slot of a thread leads to a box that has its
pointer. A box that `TlsSetValue` refuses is used all the same, by that call and by
no other; no box is ever deleted. -/
namespace Ezthread.ThreadLocal.Pointers
open Transition
open Mutex (DWORD)

variable {α : Type*}

/-- A null pointer is `none`, and so is what `new T*(nullptr)` has in it. -/
def slot (thread : Nat) (index : DWORD) (answers : Answers) (s : Stored (Option α)) : Except Thrown Nat × Stored (Option α) :=
  match tlsGetValue thread index s.tls with
  | some slot => (.ok slot,s)
  | none =>
      match answers.address with
      | none => (.error .badAlloc,s)
      | some slot =>
          let made := new slot s.tls
          (.ok slot,⟨if answers.stored then tlsSetValue thread index slot made else made,
            Function.update s.contents slot none,s.replies⟩)

def get (thread : Nat) (index : DWORD) (answers : Answers) (s : Stored (Option α)) :
    Except Thrown (Option α) × Stored (Option α) :=
  let (found,t) := slot thread index answers s
  (found.map t.contents,t)

def arrow (thread : Nat) (index : DWORD) (answers : Answers) (s : Stored (Option α)) :
    Except Thrown (Option α) × Stored (Option α) := get thread index answers s

def getConst (thread : Nat) (index lastError : DWORD) (s : Stored (Option α)) : Except Thrown (Option α) :=
  match (tlsGetValue thread index s.tls).bind s.contents with
  | none => .error (.exception ⟨"Thread-local value not initialized",lastError⟩)
  | some pointer => .ok (some pointer)

def arrowConst (thread : Nat) (index lastError : DWORD) (s : Stored (Option α)) : Except Thrown (Option α) :=
  getConst thread index lastError s

/-- The result is what the pointer is after the access through the reference. -/
def dereference (thread : Nat) (index : DWORD) (answers : Answers) (access : Access (Option α)) (s : Stored (Option α)) :
    Except Thrown (Option α) × Stored (Option α) :=
  match slot thread index answers s with
  | (.ok slot,t) =>
      let after := access.apply slot t.contents
      (.ok (after slot),{t with contents := after})
  | (.error thrown,t) => (.error thrown,t)

def dereferenceConst (thread : Nat) (index lastError : DWORD) (s : Stored (Option α)) : Except Thrown (Option α) :=
  match tlsGetValue thread index s.tls with
  | none => .error (.exception ⟨"Thread-local value not initialized",lastError⟩)
  | some slot => .ok (s.contents slot)

def hasValue (thread : Nat) (index : DWORD) (s : Stored (Option α)) : Bool :=
  match tlsGetValue thread index s.tls with
  | none => false
  | some slot => (s.contents slot).isSome

def call (thread : Nat) (index : DWORD) (answers : Answers) (access : Access (Option α)) (s : Stored (Option α)) :
    Method → Except Thrown (Reply (Option α)) × Stored (Option α)
  | .get => let (result,t) := get thread index answers s; (result.map .value,t)
  | .arrow => let (result,t) := arrow thread index answers s; (result.map .value,t)
  | .dereference => let (result,t) := dereference thread index answers access s; (result.map .value,t)
  | .getConst => ((getConst thread index answers.lastError s).map .value,s)
  | .arrowConst => ((arrowConst thread index answers.lastError s).map .value,s)
  | .dereferenceConst => ((dereferenceConst thread index answers.lastError s).map .value,s)
  | .hasValue => (.ok (.answer (hasValue thread index s)),s)

/-- Only `operator*` returns a reference that can be written through. -/
def permits (access : Access α) (method : Method) : Bool :=
  match access with
  | .read => true
  | .write _ => method == .dereference

def step (s : Stored (Option α)) : StoredLabel (Option α) → Option (Stored (Option α))
  | .system (.call _ _ _ _) => none
  | .system label => (ThreadLocal.step s.tls label).map fun tls => {s with tls := tls}
  | .use thread i method answers access =>
      if thread ∈ s.tls.threads ∧ answers.address.all (fun address => !s.tls.heap address) ∧ permits access method then
        match s.tls.objects[i]? with
        | some ⟨index,true⟩ =>
            let (reply,t) := call thread index answers access s method
            some {t with replies := t.replies ++ [reply]}
        | _ => none
      else none

/-- A cell is empty where the thread has no box of the object. -/
def uses (s : Cells (Option α)) (thread i : Nat) (method : Method) (answers : Answers) (access : Access (Option α)) :
    Cells (Option α) :=
  let uninitialized := .error (.exception ⟨"Thread-local value not initialized",answers.lastError⟩)
  match method with
  | .hasValue => s.reply (.ok (.answer (s.cell i thread).join.isSome))
  | .getConst | .arrowConst =>
      s.reply (match (s.cell i thread).join with
        | some pointer => .ok (.value (some pointer))
        | none => uninitialized)
  | .dereferenceConst =>
      s.reply (match s.cell i thread with
        | some pointer => .ok (.value pointer)
        | none => uninitialized)
  | .get | .arrow | .dereference =>
      match s.cell i thread with
      | some pointer => s.access i thread pointer access
      | none =>
          if answers.address = none then s.reply (.error .badAlloc)
          else if answers.stored then s.access i thread none access
          else s.reply (.ok (.value (match access with
            | .read => none
            | .write pointer => pointer)))

def cellsStep (s : Cells (Option α)) : StoredLabel (Option α) → Cells (Option α)
  | .use thread i method answers access => uses s thread i method answers access
  | .system label => s.step (.system label)

/-- The step leaves a box behind that no thread finds again: one that `TlsSetValue`
refused, or that of a thread or an object that ends. -/
def loses (s : Stored (Option α)) : StoredLabel (Option α) → Bool
  | .system label => label.abandons s.tls
  | .use thread i method answers _ =>
      match s.tls.objects[i]? with
      | some object => method.creates && (tlsGetValue thread object.m_tlsIndex s.tls).isNone &&
          answers.address.isSome && !answers.stored
      | none => false

variable {s t : Stored (Option α)} {cells : Cells (Option α)} {tls : State} {i thread box : Nat} {index : DWORD}
  {answers : Answers} {access : Access (Option α)} {method : Method}

theorem sound_new (sound : Sound tls) (free : tls.heap box = false) : Sound (new box tls) where
  indexed := ⟨sound.indexed.used,sound.indexed.apart⟩
  valued j other address holds := by
    have there := sound.valued j other address holds
    have apart := sound.fresh free holds
    simpa [ThreadLocal.new,apart] using there
  single := sound.single
  ledger address := by
    have before := sound.ledger address
    by_cases same : address = box
    · subst same
      simp only [free] at before
      simp [ThreadLocal.new,before]
    · simp [ThreadLocal.new,same,Ne.symm same,before]

/-- `Get` and `operator->` read what `operator*` gives a reference to. -/
theorem creating_call (creates : method.creates = true) (permitted : permits access method = true) :
    call thread index answers access s method = call thread index answers access s .dereference := by
  cases method with
  | dereference => rfl
  | get | arrow =>
    cases access with
    | write => contradiction
    | read =>
      simp only [call,arrow,get,dereference]
      cases slot thread index answers s with
      | mk found t => cases found <;> rfl
  | getConst | arrowConst | dereferenceConst | hasValue => contradiction

theorem creating_uses (creates : method.creates = true) :
    uses cells thread i method answers access = uses cells thread i .dereference answers access := by
  cases method with
  | get | arrow | dereference => rfl
  | getConst | arrowConst | dereferenceConst | hasValue => contradiction

theorem slot_present (value : s.tls.slots index thread = some box) : slot thread index answers s = (.ok box,s) := by
  simp [slot,tlsGetValue,value]

def replied (called : Except Thrown (Reply (Option α)) × Stored (Option α)) : Stored (Option α) :=
  {called.2 with replies := called.2.replies ++ [called.1]}

theorem full_mirrors (mirrors : Mirrors s cells) (sound : Sound s.tls) (holds : s.tls.Holds i thread box)
    (value : s.tls.slots index thread = some box) :
    Mirrors (replied (call thread index answers access s .dereference))
      (uses cells thread i .dereference answers access) := by
  simp only [call,dereference,slot_present value,uses,mirrors.full holds,replied,Except.map,mirrors.replies]
  exact mirrors_access access sound holds rfl fun j other v _ => mirrors.cell j other v

/-- A box that was not there before is nobody's, so filling it changes no cell. -/
theorem fresh_others (mirrors : Mirrors s cells) (sound : Sound s.tls) (free : s.tls.heap box = false)
    (pointer : Option α) (j other : Nat) (v : Option α) : cells.cell j other = some v ↔
      ∃ a, s.tls.Holds j other a ∧ Function.update s.contents box pointer a = v := by
  rw [mirrors.cell]
  refine exists_congr fun a => and_congr_right fun has => ?_
  rw [Function.update_of_ne (sound.fresh free has)]

theorem empty_mirrors (mirrors : Mirrors s cells) (sound : Sound s.tls) (found : s.tls.objects[i]? = some ⟨index,true⟩)
    (running : thread ∈ s.tls.threads) (null : s.tls.slots index thread = none)
    (free : answers.address.all (fun address => !s.tls.heap address) = true) :
    Mirrors (replied (call thread index answers access s .dereference))
      (uses cells thread i .dereference answers access) := by
  cases offered : answers.address with
  | none =>
    simp only [call,dereference,slot,tlsGetValue,null,offered,uses,mirrors.empty found null,replied,Except.map,if_true]
    exact mirrors.reply _
  | some box =>
    have unused : s.tls.heap box = false := by simpa [offered] using free
    cases stored : answers.stored with
    | false =>
      simp only [call,dereference,slot,tlsGetValue,null,offered,stored,uses,mirrors.empty found null,replied,Except.map,
        Bool.false_eq_true,reduceCtorEq,if_false]
      cases access with
      | read =>
        refine ⟨fresh_others mirrors sound unused none,?_⟩
        simp [Access.apply,Cells.reply,mirrors.replies]
      | write pointer =>
        refine ⟨?_,by simp [Access.apply,Cells.reply,mirrors.replies]⟩
        simpa [Access.apply,Cells.reply,Stored.Contains,ThreadLocal.new,State.Holds] using
          fresh_others mirrors sound unused pointer
    | true =>
      simp only [call,dereference,slot,tlsGetValue,null,offered,stored,uses,mirrors.empty found null,replied,Except.map,
        reduceCtorEq,if_true,if_false,mirrors.replies]
      have held (k other a : Nat) := @store_held s.tls sound.indexed i thread box index found running null k other a
      refine mirrors_access access (sound.moves (.store thread i .get answers index box found running null unused))
        ((held i thread box).mpr (Or.inl ⟨rfl,rfl,rfl⟩)) (Function.update_self ..) fun j other v apart => ?_
      rw [fresh_others mirrors sound unused none]
      refine exists_congr fun a => and_congr_left fun _ => ?_
      rw [held]
      exact ⟨Or.inr,fun given => given.resolve_left fun same => apart ⟨same.1,same.2.1⟩⟩

/-- The methods that make no box tell what the cell has in it. -/
theorem const_mirrors (mirrors : Mirrors s cells) (found : s.tls.objects[i]? = some ⟨index,true⟩)
    (running : thread ∈ s.tls.threads) (const : method.creates = false) :
    Mirrors (replied (call thread index answers access s method)) (uses cells thread i method answers access) := by
  have same : cells.cell i thread = (s.tls.slots index thread).map s.contents := by
    cases value : s.tls.slots index thread with
    | none => exact mirrors.empty found value
    | some box => exact mirrors.full ⟨index,found,running,value⟩
  cases method with
  | get | arrow | dereference => contradiction
  | getConst | arrowConst =>
    cases value : s.tls.slots index thread with
    | none =>
      simp only [call,arrowConst,getConst,tlsGetValue,value,uses,same,replied,Option.map_none]
      exact mirrors.reply _
    | some box =>
      cases pointer : s.contents box with
      | none =>
        simp only [call,arrowConst,getConst,tlsGetValue,value,pointer,uses,same,replied,Option.map_some,Option.bind_some]
        exact mirrors.reply _
      | some target =>
        simp only [call,arrowConst,getConst,tlsGetValue,value,pointer,uses,same,replied,Option.map_some,Option.bind_some]
        exact mirrors.reply _
  | dereferenceConst =>
    cases value : s.tls.slots index thread with
    | none =>
      simp only [call,dereferenceConst,tlsGetValue,value,uses,same,replied,Option.map_none]
      exact mirrors.reply _
    | some box =>
      simp only [call,dereferenceConst,tlsGetValue,value,uses,same,replied,Option.map_some]
      exact mirrors.reply _
  | hasValue =>
    cases value : s.tls.slots index thread with
    | none =>
      simp only [call,hasValue,tlsGetValue,value,uses,same,replied,Option.map_none]
      exact mirrors.reply _
    | some box =>
      simp only [call,hasValue,tlsGetValue,value,uses,same,replied,Option.map_some]
      exact mirrors.reply _

theorem mirrors_use (mirrors : Mirrors s cells) (sound : Sound s.tls) (found : s.tls.objects[i]? = some ⟨index,true⟩)
    (running : thread ∈ s.tls.threads) (free : answers.address.all (fun address => !s.tls.heap address) = true)
    (permitted : permits access method = true) :
    Mirrors (replied (call thread index answers access s method)) (uses cells thread i method answers access) := by
  cases creates : method.creates with
  | false => exact const_mirrors mirrors found running creates
  | true =>
    rw [creating_call creates permitted,creating_uses creates]
    cases value : s.tls.slots index thread with
    | some box => exact full_mirrors mirrors sound ⟨index,found,running,value⟩ value
    | none => exact empty_mirrors mirrors sound found running value free

/-- What a use does to the slots and the memory, and whether it leaves a box behind. -/
inductive Leaves (s : Stored (Option α)) (thread i : Nat) : Bool → State → Prop
  | keep : Leaves s thread i false s.tls
  | store (index : DWORD) (box : Nat) (found : s.tls.objects[i]? = some ⟨index,true⟩) (running : thread ∈ s.tls.threads)
      (null : s.tls.slots index thread = none) (free : s.tls.heap box = false) :
      Leaves s thread i false (tlsSetValue thread index box (ThreadLocal.new box s.tls))
  | lose (box : Nat) (free : s.tls.heap box = false) : Leaves s thread i true (ThreadLocal.new box s.tls)

theorem call_tls (creates : method.creates = true) :
    (call thread index answers access s method).2.tls = (slot thread index answers s).2.tls := by
  cases method with
  | get | arrow => rfl
  | dereference =>
    simp only [call,dereference]
    cases slot thread index answers s with
    | mk found t => cases found <;> rfl
  | getConst | arrowConst | dereferenceConst | hasValue => contradiction

theorem step_leaves (taken : step s (.use thread i method answers access) = some t) :
    Leaves s thread i (loses s (.use thread i method answers access)) t.tls := by
  simp only [step] at taken
  split at taken
  next given =>
    split at taken
    next index found =>
      cases taken
      cases creates : method.creates with
      | false =>
        have same : (call thread index answers access s method).2.tls = s.tls := by
          cases method with
          | get | arrow | dereference => contradiction
          | getConst | arrowConst | dereferenceConst | hasValue => rfl
        simpa [loses,found,creates,same] using Leaves.keep
      | true =>
        simp only [call_tls creates,loses,found,creates,Bool.true_and]
        cases value : s.tls.slots index thread with
        | some box =>
          simpa [slot,tlsGetValue,value] using Leaves.keep
        | none =>
          cases offered : answers.address with
          | none => simpa [slot,tlsGetValue,value,offered] using Leaves.keep
          | some box =>
            have free : s.tls.heap box = false := by simpa [offered] using given.2.1
            cases stored : answers.stored with
            | false => simpa [slot,tlsGetValue,value,offered,stored] using Leaves.lose box free
            | true =>
              simpa [slot,tlsGetValue,value,offered,stored] using Leaves.store index box found given.1 value free
    next => contradiction
  next => contradiction

theorem Leaves.sound {lost : Bool} (leaves : Leaves s thread i lost tls) (sound : Sound s.tls) :
    Sound tls := by
  cases leaves with
  | keep => exact sound
  | store index box found running null free =>
    exact sound.moves (.store thread i .get ⟨none,true,0⟩ index box found running null free)
  | lose box free => exact sound_new sound free

theorem Leaves.kept (leaves : Leaves s thread i false tls) (sound : Sound s.tls) (kept : s.tls.Kept) :
    tls.Kept := by
  cases leaves with
  | keep => exact kept
  | store index box found running null free =>
    exact kept.moves sound rfl (.store thread i .get ⟨none,true,0⟩ index box found running null free)

theorem Leaves.lost (leaves : Leaves s thread i true tls) (sound : Sound s.tls) : ¬ tls.Kept := by
  intro kept
  cases leaves with
  | lose box free =>
    obtain ⟨j,other,holds⟩ := kept box (Function.update_self ..)
    exact sound.fresh free holds rfl

theorem Leaves.deleted {lost : Bool} (leaves : Leaves s thread i lost tls) : tls.deleted = s.tls.deleted := by
  cases leaves <;> rfl

theorem step_system {label : Label} (taken : step s (.system label) = some t) :
    ∃ tls, ThreadLocal.step s.tls label = some tls ∧ t = {s with tls := tls} ∧
      ∀ thread i method answers, label ≠ .call thread i method answers := by
  cases label with
  | call => contradiction
  | _ =>
    obtain ⟨tls,stepped,rfl⟩ := Option.map_eq_some_iff.mp taken
    exact ⟨tls,stepped,rfl,fun _ _ _ _ => by simp⟩

theorem step_sound {label : StoredLabel (Option α)} (taken : step s label = some t) (sound : Sound s.tls) :
    Sound t.tls := by
  cases label with
  | system label =>
    obtain ⟨tls,stepped,rfl,_⟩ := step_system taken
    exact sound.moves (step_moves stepped)
  | use thread i method answers access => exact (step_leaves taken).sound sound

theorem step_mirrors {label : StoredLabel (Option α)} (mirrors : Mirrors s cells) (sound : Sound s.tls)
    (taken : step s label = some t) : Mirrors t (cellsStep cells label) := by
  cases label with
  | system label =>
    obtain ⟨tls,stepped,rfl,calls⟩ := step_system taken
    exact mirrors.system sound calls stepped
  | use thread i method answers access =>
    simp only [step] at taken
    split at taken
    next given =>
      split at taken
      next index found =>
        cases taken
        exact mirrors_use mirrors sound found given.1 given.2.1 given.2.2
      next => contradiction
    next => contradiction

theorem sound_pointers {contents : Nat → Option α} {labels : List (StoredLabel (Option α))}
    (reached : run step (storedInit contents) labels = some s) :
    Sound s.tls ∧ Mirrors s (labels.foldl cellsStep Cells.init) := by
  have initial : Sound (storedInit contents).tls ∧ Mirrors (storedInit contents) Cells.init := by
    refine ⟨sound_init,fun i thread pointer => ⟨fun full => ?_,fun given => ?_⟩,rfl⟩
    · exact absurd full (Option.some_ne_none pointer).symm
    · obtain ⟨box,holds,_⟩ := given
      exact absurd holds (holds_init i thread box)
  exact run_history (fun state past => Sound state.tls ∧ Mirrors state (past.foldl cellsStep Cells.init))
    (fun state past label next known taken => by
      rw [List.foldl_append]
      exact ⟨step_sound taken known.1,step_mirrors known.2 known.1 taken⟩)
    [] initial reached

/-- Every call on a `ThreadLocal<T*>` comes to what it would with a cell of its own for
each object and thread, empty until a box is made that `TlsSetValue` takes. -/
theorem pointers_refined {contents : Nat → Option α} {labels : List (StoredLabel (Option α))}
    (reached : run step (storedInit contents) labels = some s) :
    s.replies = (labels.foldl cellsStep Cells.init).replies ∧
      ∀ i thread pointer, (labels.foldl cellsStep Cells.init).cell i thread = some pointer ↔ s.Contains i thread pointer := by
  obtain ⟨_,mirrors⟩ := sound_pointers reached
  exact ⟨mirrors.replies,mirrors.cell⟩

theorem step_keeps {label : StoredLabel (Option α)} (taken : step s label = some t) (sound : Sound s.tls)
    (kept : s.tls.Kept) (loses : loses s label = false) : t.tls.Kept := by
  cases label with
  | system label =>
    obtain ⟨tls,stepped,rfl,_⟩ := step_system taken
    exact kept.moves sound loses (step_moves stepped)
  | use thread i method answers access =>
    have leaves := step_leaves taken
    rw [loses] at leaves
    exact leaves.kept sound kept

theorem step_loses {label : StoredLabel (Option α)} (taken : step s label = some t) (sound : Sound s.tls)
    (lost : loses s label = true) : ¬ t.tls.Kept := by
  cases label with
  | system label =>
    obtain ⟨tls,stepped,rfl,_⟩ := step_system taken
    have moves := step_moves stepped
    exact fun kept => sound.abandons_leaks lost moves ((sound.moves moves).reclaims kept)
  | use thread i method answers access =>
    have leaves := step_leaves taken
    rw [lost] at leaves
    exact leaves.lost sound

theorem step_deleted {label : StoredLabel (Option α)} (taken : step s label = some t) :
    t.tls.deleted = s.tls.deleted := by
  cases label with
  | system label =>
    obtain ⟨tls,stepped,rfl,calls⟩ := step_system taken
    cases step_moves stepped with
    | discard => exact absurd rfl (calls _ _ _ _)
    | _ => rfl
  | use thread i method answers access =>
    exact (step_leaves taken).deleted

/-- No box is ever deleted, and all the boxes in memory are in use all along a run if
and only if in no step `TlsSetValue` refuses a box and none ends a thread or an object
that has one. -/
theorem boxes_kept_iff {contents : Nat → Option α} {labels : List (StoredLabel (Option α))}
    (reached : run step (storedInit contents) labels = some s) : s.tls.deleted = [] ∧
    (Along step (fun u => u.tls.Kept) (storedInit contents) labels ↔
      Obeys step (fun u label => loses u label = false) (storedInit contents) labels) := by
  have kept : init.Kept := fun _ there => absurd there Bool.false_ne_true
  refine ⟨?_,?_⟩
  · exact run_invariant (fun u => u.tls.deleted = [])
      (fun u label v none taken => (step_deleted taken).trans none) rfl reached
  exact along_iff_obeys
    (fun u label v (known : Sound u.tls ∧ u.tls.Kept) stays taken =>
      ⟨step_sound taken known.1,step_keeps taken known.1 known.2 stays⟩)
    (fun _ known => known.2)
    (fun u label v known lost taken => step_loses taken known.1 (by simpa using lost)) ⟨sound_init,kept⟩ reached

def writes : List (StoredLabel (Option Nat)) :=
  [.system (.createThread 0),.system (.construct 5 0),.use 0 0 .get ⟨some 100,true,0⟩ .read,
    .use 0 0 .dereference ⟨none,true,0⟩ (.write (some 9)),.use 0 0 .getConst ⟨none,true,0⟩ .read]

def refusedWrites : List (StoredLabel (Option Nat)) :=
  [.system (.createThread 0),.system (.construct 5 0),.use 0 0 .dereference ⟨some 100,false,0⟩ (.write (some 7)),
    .use 0 0 .get ⟨some 200,true,0⟩ .read,.use 0 0 .hasValue ⟨none,true,0⟩ .read]

/-- What is written into a box that was refused is not there at the next call. -/
theorem pointers_refined_refused : ∃ s, run step (storedInit fun _ => none) refusedWrites = some s ∧
    s.replies[0]? = some (.ok (.value (some 7))) ∧ s.replies[1]? = some (.ok (.value none)) ∧
    s.replies[2]? = some (.ok (.answer false)) ∧ s.replies = (refusedWrites.foldl cellsStep Cells.init).replies := by
  obtain ⟨s,reached⟩ : ∃ s, run step (storedInit fun _ => none) refusedWrites = some s := ⟨_,rfl⟩
  have refined := (pointers_refined reached).1
  exact ⟨s,reached,by rw [refined]; rfl,by rw [refined]; rfl,by rw [refined]; rfl,refined⟩

theorem boxes_kept_iff_stored : ∃ s, run step (storedInit fun _ => none) writes = some s ∧
    Along step (fun u => u.tls.Kept) (storedInit fun _ => none) writes := by
  obtain ⟨s,reached⟩ : ∃ s, run step (storedInit fun _ => none) writes = some s := ⟨_,rfl⟩
  exact ⟨s,reached,(boxes_kept_iff reached).2.mpr (by decide)⟩

end Ezthread.ThreadLocal.Pointers
