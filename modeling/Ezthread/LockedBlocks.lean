import Ezthread.Monitor

/-! Monitors with the lock: each access of a block is a step of its own, taken by the
call that holds the lock, and a call waits for the lock at its entry and after a sleep.
Such a machine does what the monitor of its blocks does, and the other way round. -/
namespace Ezthread.Monitor
open Transition Activation

variable {Operation Data Frame Result : Type*}

/-- What a call has still to do before it gives the lock up. -/
inductive Code (Data Frame Result : Type*)
  | read (rest : Data → Code Data Frame Result)
  | write (change : Data → Data) (rest : Code Data Frame Result)
  | notifyAll (rest : Code Data Frame Result)
  | finish (exit : Exit Frame Result)

/-- The code as one block. -/
def Code.block : Code Data Frame Result → Data → Block Data Frame Result
  | .read rest,data => (rest data).block data
  | .write change rest,data => rest.block (change data)
  | .notifyAll rest,data => {rest.block data with notifyAll := true}
  | .finish exit,data => ⟨data,false,exit⟩

/-- `immediate` tells which operations return without the lock. -/
structure Source (Operation Data Frame Result : Type*) where
  immediate : Operation → Option Result
  enter : Operation → Code Data Frame Result
  resume : Operation → Frame → Bool → Code Data Frame Result
  timed : Operation → Bool

def Source.program (source : Source Operation Data Frame Result) : Program Operation Data Frame Result where
  enter operation data :=
    match source.immediate operation with
    | some result => ⟨data,false,.leave result⟩
    | none => (source.enter operation).block data
  resume operation frame result := (source.resume operation frame result).block
  timed := source.timed

inductive Place (Data Frame Result : Type*)
  | outside (point : Point Frame Result)
  | inside (code : Code Data Frame Result)

structure Activity (Operation Data Frame Result : Type*) where
  operation : Operation
  place : Place Data Frame Result

structure Locked (Operation Data Frame Result : Type*) where
  data : Data
  owner : Option Nat
  calls : List (Activity Operation Data Frame Result)

inductive LockedLabel (Operation : Type*)
  | invoke (operation : Operation)
  | refuse (i : Nat)
  | lock (i : Nat)
  | access (i : Nat)
  | wake (i : Nat)
  | timeout (i : Nat)
  | announce (i : Nat)

def lockedInit (data : Data) : Locked Operation Data Frame Result := ⟨data,none,[]⟩

def Call.outside (call : Call Operation Frame Result) : Activity Operation Data Frame Result :=
  ⟨call.operation,.outside call.point⟩

def Activity.notify (activity : Activity Operation Data Frame Result) : Activity Operation Data Frame Result :=
  match activity.place with
  | .outside point => (Call.notify ⟨activity.operation,point⟩).outside
  | .inside _ => activity

/-- The code a call runs once it has the lock. -/
def Source.starts (source : Source Operation Data Frame Result) (operation : Operation) :
    Point Frame Result → Option (Code Data Frame Result)
  | .entering =>
      match source.immediate operation with
      | some _ => none
      | none => some (source.enter operation)
  | .woken frame result => some (source.resume operation frame result)
  | _ => none

def Locked.goto (s : Locked Operation Data Frame Result) (i : Nat) (operation : Operation)
    (place : Place Data Frame Result) : Locked Operation Data Frame Result :=
  {s with calls := s.calls.set i ⟨operation,place⟩}

/-- One access by the holder of the lock; its last one gives the lock up. -/
def Locked.access (s : Locked Operation Data Frame Result) (i : Nat) (operation : Operation) :
    Code Data Frame Result → Locked Operation Data Frame Result
  | .read rest => s.goto i operation (.inside (rest s.data))
  | .write change rest => ({s with data := change s.data} : Locked Operation Data Frame Result).goto i operation (.inside rest)
  | .notifyAll rest =>
      ({s with calls := s.calls.map Activity.notify} : Locked Operation Data Frame Result).goto i operation (.inside rest)
  | .finish exit => ({s with owner := none} : Locked Operation Data Frame Result).goto i operation (.outside exit.point)

def lockedStep (source : Source Operation Data Frame Result) (s : Locked Operation Data Frame Result) :
    LockedLabel Operation → Option (Locked Operation Data Frame Result)
  | .invoke operation => some {s with calls := s.calls ++ [⟨operation,.outside .entering⟩]}
  | .refuse i =>
      match s.calls[i]? with
      | some ⟨operation,.outside .entering⟩ =>
          (source.immediate operation).map fun result => s.goto i operation (.outside (.returned result))
      | _ => none
  | .lock i =>
      match s.calls[i]? with
      | some ⟨operation,.outside point⟩ =>
          if s.owner = none then
            (source.starts operation point).map fun code =>
              ({s with owner := some i} : Locked Operation Data Frame Result).goto i operation (.inside code)
          else none
      | _ => none
  | .access i =>
      match s.calls[i]? with
      | some ⟨operation,.inside code⟩ => some (s.access i operation code)
      | _ => none
  | .wake i =>
      match s.calls[i]? with
      | some ⟨operation,.outside (.asleep frame _)⟩ => some (s.goto i operation (.outside (.woken frame true)))
      | _ => none
  | .timeout i =>
      match s.calls[i]? with
      | some ⟨operation,.outside (.asleep frame _)⟩ =>
          if source.timed operation then some (s.goto i operation (.outside (.woken frame false))) else none
      | _ => none
  | .announce i =>
      match s.calls[i]? with
      | some ⟨operation,.outside (.announcing result)⟩ =>
          some (({s with calls := s.calls.map Activity.notify} : Locked Operation Data Frame Result).goto i operation
            (.outside (.returned result)))
      | _ => none

/-- A block some of whose notifications have already been given. -/
def Block.after (seen : Bool) (block : Block Data Frame Result) : Block Data Frame Result :=
  {block with notifyAll := seen || block.notifyAll}

/-- The calls of a monitor while the call at `i` is in its block and has notified, or not yet. -/
def overlay (seen : Bool) (calls : List (Call Operation Frame Result)) (i : Nat) (operation : Operation)
    (code : Code Data Frame Result) : List (Activity Operation Data Frame Result) :=
  ((notifyIf seen calls).map Call.outside).set i ⟨operation,.inside code⟩

/-- The monitor runs a block when the call that ran it gives the lock up: until then what
is left of the block makes of the data now what the whole block made of them before. -/
inductive Refines (source : Source Operation Data Frame Result) :
    Locked Operation Data Frame Result → State Operation Data Frame Result → Prop
  | free (data calls) : Refines source ⟨data,none,calls.map Call.outside⟩ ⟨data,calls⟩
  | busy (data now seen calls i operation point first code) (found : calls[i]? = some ⟨operation,point⟩)
      (begun : source.starts operation point = some first) (same : first.block data = (code.block now).after seen) :
      Refines source ⟨now,some i,overlay seen calls i operation code⟩ ⟨data,calls⟩

section Notifications
variable {calls : List (Call Operation Frame Result)} {seen : Bool} {i j : Nat} {operation other : Operation}

theorem notifyIf_set {call : Call Operation Frame Result} (awake : ∀ frame notified, call.point ≠ .asleep frame notified)
    (seen : Bool) (calls : List (Call Operation Frame Result)) (j : Nat) :
    notifyIf seen (calls.set j call) = (notifyIf seen calls).set j call := by
  cases seen with
  | false => rfl
  | true => simp only [notifyIf,if_true,List.map_set,notify_awake awake]

theorem notifyIf_append {call : Call Operation Frame Result} (awake : ∀ frame notified, call.point ≠ .asleep frame notified)
    (seen : Bool) (calls : List (Call Operation Frame Result)) : notifyIf seen (calls ++ [call]) = notifyIf seen calls ++ [call] := by
  cases seen with
  | false => rfl
  | true => simp only [notifyIf,if_true,List.map_append,List.map_cons,List.map_nil,notify_awake awake]

theorem notify_notify (call : Call Operation Frame Result) : call.notify.notify = call.notify := by
  obtain ⟨operation,point⟩ := call
  cases point <;> rfl

theorem notifyIf_map (seen : Bool) (calls : List (Call Operation Frame Result)) :
    notifyIf seen (calls.map Call.notify) = (notifyIf seen calls).map Call.notify := by
  cases seen <;> rfl

theorem notifyIf_notified (seen : Bool) (calls : List (Call Operation Frame Result)) :
    (notifyIf seen calls).map Call.notify = notifyIf true calls := by
  cases seen with
  | false => rfl
  | true => simp [notifyIf,notify_notify]

theorem notify_outside (calls : List (Call Operation Frame Result)) :
    (calls.map Call.outside : List (Activity Operation Data Frame Result)).map Activity.notify =
      (calls.map Call.notify).map Call.outside := by
  rw [List.map_map,List.map_map]
  rfl

theorem get_outside {place : Place Data Frame Result} (found : (calls.map Call.outside)[j]? = some ⟨operation,place⟩) :
    ∃ point, place = .outside point ∧ calls[j]? = some ⟨operation,point⟩ := by
  rw [List.getElem?_map] at found
  obtain ⟨call,present,same⟩ := Option.map_eq_some_iff.mp found
  cases same
  exact ⟨call.point,rfl,present⟩

/-- A notification changes no more of a call than whether it has been notified. -/
theorem get_notified {point : Point Frame Result} (found : (notifyIf seen calls)[j]? = some ⟨operation,point⟩) :
    ∃ before, calls[j]? = some ⟨operation,before⟩ ∧
      (point = before ∨ ∃ frame notified, before = .asleep frame notified ∧ point = .asleep frame true) := by
  obtain ⟨⟨owner,before⟩,present,same | notified⟩ := get_notifyIf found
  · cases same
    exact ⟨point,present,Or.inl rfl⟩
  · cases before <;> cases notified <;> first
      | exact ⟨_,present,Or.inl rfl⟩
      | exact ⟨_,present,Or.inr ⟨_,_,rfl,rfl⟩⟩

theorem get_overlay {code : Code Data Frame Result} {place : Place Data Frame Result}
    (found : (overlay seen calls i operation code)[j]? = some ⟨other,place⟩) :
    (j = i ∧ other = operation ∧ place = .inside code) ∨
      (j ≠ i ∧ ∃ point, place = .outside point ∧ (notifyIf seen calls)[j]? = some ⟨other,point⟩) := by
  rcases get_set found with ⟨same,equal⟩ | ⟨apart,kept⟩
  · cases equal
    exact Or.inl ⟨same,rfl,rfl⟩
  · exact Or.inr ⟨apart,get_outside kept⟩

end Notifications

section Access
variable {source : Source Operation Data Frame Result} {calls : List (Call Operation Frame Result)} {seen : Bool} {i : Nat}
  {operation : Operation} {now : Data}

theorem overlay_set (code next : Code Data Frame Result) :
    (overlay seen calls i operation code).set i ⟨operation,.inside next⟩ = overlay seen calls i operation next := by
  rw [overlay,List.set_set]
  rfl

theorem overlay_notify (code next : Code Data Frame Result) :
    ((overlay seen calls i operation code).map Activity.notify).set i ⟨operation,.inside next⟩ =
      overlay true calls i operation next := by
  rw [overlay,List.map_set,List.set_set,notify_outside,notifyIf_notified]
  rfl

theorem overlay_leave (code : Code Data Frame Result) (point : Point Frame Result) :
    (overlay seen calls i operation code).set i ⟨operation,.outside point⟩ =
      ((notifyIf seen calls).set i ⟨operation,point⟩).map Call.outside := by
  rw [overlay,List.set_set,List.map_set]
  rfl

theorem length_notifyIf (seen : Bool) (calls : List (Call Operation Frame Result)) :
    (notifyIf seen calls).length = calls.length := by
  cases seen with
  | false => rfl
  | true => exact List.length_map Call.notify

theorem get_inside (code : Code Data Frame Result) (inside : i < calls.length) :
    (overlay seen calls i operation code)[i]? = some ⟨operation,.inside code⟩ := by
  rw [overlay,List.getElem?_set_self]
  rwa [List.length_map,length_notifyIf]

theorem access_read (rest : Data → Code Data Frame Result) (inside : i < calls.length) :
    lockedStep source ⟨now,some i,overlay seen calls i operation (.read rest)⟩ (.access i) =
      some ⟨now,some i,overlay seen calls i operation (rest now)⟩ := by
  simp only [lockedStep,get_inside _ inside,Locked.access,Locked.goto,overlay_set]

theorem access_write (change : Data → Data) (rest : Code Data Frame Result) (inside : i < calls.length) :
    lockedStep source ⟨now,some i,overlay seen calls i operation (.write change rest)⟩ (.access i) =
      some ⟨change now,some i,overlay seen calls i operation rest⟩ := by
  simp only [lockedStep,get_inside _ inside,Locked.access,Locked.goto,overlay_set]

theorem access_notifyAll (rest : Code Data Frame Result) (inside : i < calls.length) :
    lockedStep source ⟨now,some i,overlay seen calls i operation (.notifyAll rest)⟩ (.access i) =
      some ⟨now,some i,overlay true calls i operation rest⟩ := by
  simp only [lockedStep,get_inside _ inside,Locked.access,Locked.goto,overlay_notify]

theorem access_finish (exit : Exit Frame Result) (inside : i < calls.length) :
    lockedStep source ⟨now,some i,overlay seen calls i operation (.finish exit)⟩ (.access i) =
      some ⟨now,none,((notifyIf seen calls).set i ⟨operation,exit.point⟩).map Call.outside⟩ := by
  simp only [lockedStep,get_inside _ inside,Locked.access,Locked.goto,overlay_leave]

/-- The holder of the lock alone comes to the end of its block. -/
theorem accesses_block (source : Source Operation Data Frame Result) (operation : Operation) (code : Code Data Frame Result)
    (now : Data) (seen : Bool) (inside : i < calls.length) :
    ∃ n, run (lockedStep source) ⟨now,some i,overlay seen calls i operation code⟩ (List.replicate n (.access i)) =
      some ⟨(code.block now).data,none,
        ((notifyIf (seen || (code.block now).notifyAll) calls).set i ⟨operation,(code.block now).exit.point⟩).map
          Call.outside⟩ := by
  induction code generalizing now seen with
  | read rest ih =>
    obtain ⟨n,reached⟩ := ih now now seen
    exact ⟨n + 1,run_step (access_read rest inside) reached⟩
  | write change rest ih =>
    obtain ⟨n,reached⟩ := ih (change now) seen
    exact ⟨n + 1,run_step (access_write change rest inside) reached⟩
  | notifyAll rest ih =>
    obtain ⟨n,reached⟩ := ih now true
    refine ⟨n + 1,run_step (access_notifyAll rest inside) ?_⟩
    simpa [Code.block] using reached
  | finish exit =>
    refine ⟨1,run_step (access_finish exit inside) ?_⟩
    simp only [Code.block,Bool.or_false]
    rfl

end Access

section Simulation
variable {source : Source Operation Data Frame Result} {s next : Locked Operation Data Frame Result}
  {t : State Operation Data Frame Result}

theorem starts_awake {operation : Operation} {point : Point Frame Result} {code : Code Data Frame Result}
    (begun : source.starts operation point = some code) (frame : Frame) (notified : Bool) :
    point ≠ .asleep frame notified := by
  rintro rfl
  contradiction

/-- A step of the monitor by which a call runs the block it starts with. -/
theorem step_starts {operation : Operation} {point : Point Frame Result} {code : Code Data Frame Result} {i : Nat}
    (found : t.calls[i]? = some ⟨operation,point⟩) (begun : source.starts operation point = some code) :
    ∃ label, step source.program t label = some (t.perform i operation (code.block t.data)) := by
  cases point with
  | entering =>
    refine ⟨.enter i,?_⟩
    simp only [Source.starts] at begun
    split at begun
    next => contradiction
    next locks =>
      cases begun
      simp only [step,found,Source.program,locks]
  | woken frame result =>
    cases begun
    exact ⟨.resume i,by simp only [step,found]; rfl⟩
  | asleep | announcing | returned => contradiction

theorem step_immediate {operation : Operation} {result : Result} {i : Nat}
    (found : t.calls[i]? = some ⟨operation,.entering⟩) (immediate : source.immediate operation = some result) :
    step source.program t (.enter i) = some (t.goto i ⟨operation,.returned result⟩) := by
  simp only [step,found,Source.program,immediate]
  rfl

/-- The last access of a block is the monitor's step. -/
theorem refines_finish {data now : Data} {seen : Bool} {calls : List (Call Operation Frame Result)} {i : Nat}
    {operation : Operation} {point : Point Frame Result} {first : Code Data Frame Result} {exit : Exit Frame Result}
    (found : calls[i]? = some ⟨operation,point⟩) (begun : source.starts operation point = some first)
    (same : first.block data = (Code.block (.finish exit) now).after seen) :
    ∃ label, step source.program ⟨data,calls⟩ label = some ⟨now,(notifyIf seen calls).set i ⟨operation,exit.point⟩⟩ := by
  obtain ⟨label,taken⟩ := step_starts (t := ⟨data,calls⟩) found begun
  refine ⟨label,taken.trans ?_⟩
  rw [same]
  simp only [State.perform,Code.block,Block.after,Bool.or_false]

/-- Outside its blocks a call of either machine is at the same point, notified or not. -/
theorem Refines.outside {j : Nat} {operation : Operation} {point : Point Frame Result} (refines : Refines source s t)
    (found : s.calls[j]? = some ⟨operation,.outside point⟩) : ∃ before, t.calls[j]? = some ⟨operation,before⟩ ∧
      (point = before ∨ ∃ frame notified, before = .asleep frame notified ∧ point = .asleep frame true) := by
  cases refines with
  | free data calls =>
    obtain ⟨before,same,present⟩ := get_outside found
    cases same
    exact ⟨point,present,Or.inl rfl⟩
  | busy data now seen calls i holder held first code =>
    rcases get_overlay found with ⟨_,_,same⟩ | ⟨_,before,same,present⟩
    · contradiction
    · cases same
      exact get_notified present

theorem Refines.asleep {j : Nat} {operation : Operation} {frame : Frame} {notified : Bool} (refines : Refines source s t)
    (found : s.calls[j]? = some ⟨operation,.outside (.asleep frame notified)⟩) :
    ∃ before, t.calls[j]? = some ⟨operation,.asleep frame before⟩ := by
  obtain ⟨before,present,same | ⟨_,flag,asleep,same⟩⟩ := refines.outside found
  · exact ⟨notified,same ▸ present⟩
  · cases same
    exact ⟨flag,asleep ▸ present⟩

theorem Refines.goto {j : Nat} {operation : Operation} {point after : Point Frame Result} (refines : Refines source s t)
    (found : s.calls[j]? = some ⟨operation,.outside point⟩) (awake : ∀ frame notified, after ≠ .asleep frame notified) :
    Refines source (s.goto j operation (.outside after)) (t.goto j ⟨operation,after⟩) := by
  cases refines with
  | free data calls =>
    have moved : (calls.map Call.outside).set j (⟨operation,.outside after⟩ : Activity Operation Data Frame Result) =
        (calls.set j ⟨operation,after⟩).map Call.outside := by
      rw [List.map_set]
      rfl
    simp only [Locked.goto,State.goto,moved]
    exact .free data _
  | busy data now seen calls i holder held first code present begun same =>
    rcases get_overlay found with ⟨_,_,inside⟩ | ⟨apart,_⟩
    · contradiction
    · have moved : (overlay seen calls i holder code).set j ⟨operation,.outside after⟩ =
          overlay seen (calls.set j ⟨operation,after⟩) i holder code := by
        rw [overlay,overlay,notifyIf_set awake,List.map_set,List.set_comm _ _ apart.symm]
        rfl
      simp only [Locked.goto,State.goto,moved]
      exact .busy data now seen _ i holder held first code (by rw [List.getElem?_set_ne apart]; exact present) begun same

theorem Refines.notify (refines : Refines source s t) :
    Refines source {s with calls := s.calls.map Activity.notify} {t with calls := t.calls.map Call.notify} := by
  cases refines with
  | free data calls =>
    rw [notify_outside]
    exact .free data _
  | busy data now seen calls i holder held first code present begun same =>
    have moved : (overlay seen calls i holder code).map Activity.notify = overlay seen (calls.map Call.notify) i holder code := by
      rw [overlay,overlay,List.map_set,notify_outside,notifyIf_map]
      rfl
    rw [moved]
    refine .busy data now seen _ i holder held first code ?_ begun same
    rw [List.getElem?_map,present]
    exact congrArg some (notify_awake (starts_awake begun))

theorem Refines.invoke (refines : Refines source s t) (operation : Operation) :
    Refines source {s with calls := s.calls ++ [⟨operation,.outside .entering⟩]}
      {t with calls := t.calls ++ [⟨operation,.entering⟩]} := by
  cases refines with
  | free data calls =>
    have grown : Refines source _ _ := Refines.free data (calls ++ [⟨operation,.entering⟩])
    rw [List.map_append] at grown
    exact grown
  | busy data now seen calls i holder held first code present begun same =>
    have moved : overlay seen calls i holder code ++ [⟨operation,.outside .entering⟩] =
        overlay seen (calls ++ [⟨operation,.entering⟩]) i holder code := by
      rw [overlay,overlay,notifyIf_append (by simp),List.map_append,List.set_append_left]
      · rfl
      · rw [List.length_map,length_notifyIf]
        exact get_lt present
    simp only [moved]
    exact .busy data now seen _ i holder held first code (get_grows present) begun same

theorem Refines.lock {i : Nat} {operation : Operation} {point : Point Frame Result} {code : Code Data Frame Result}
    (refines : Refines source s t) (found : s.calls[i]? = some ⟨operation,.outside point⟩) (free : s.owner = none)
    (begun : source.starts operation point = some code) :
    Refines source (({s with owner := some i} : Locked Operation Data Frame Result).goto i operation (.inside code)) t := by
  cases refines with
  | free data calls =>
    obtain ⟨before,same,present⟩ := get_outside found
    cases same
    exact .busy data data false calls i operation point code code present begun rfl
  | busy => contradiction

theorem Refines.access {i : Nat} {operation : Operation} {code : Code Data Frame Result} (refines : Refines source s t)
    (found : s.calls[i]? = some ⟨operation,.inside code⟩) :
    ∃ labels u, run (step source.program) t labels = some u ∧ Refines source (s.access i operation code) u := by
  cases refines with
  | free data calls =>
    obtain ⟨_,same,_⟩ := get_outside found
    contradiction
  | busy data now seen calls j holder held first rest present begun same =>
    rcases get_overlay found with ⟨rfl,rfl,inside⟩ | ⟨_,_,outside,_⟩
    · cases inside
      cases code with
      | read rest =>
        refine ⟨[],_,rfl,?_⟩
        simp only [Locked.access,Locked.goto,overlay_set]
        exact .busy data now seen calls i operation held first _ present begun same
      | write change rest =>
        refine ⟨[],_,rfl,?_⟩
        simp only [Locked.access,Locked.goto,overlay_set]
        exact .busy data (change now) seen calls i operation held first rest present begun same
      | notifyAll rest =>
        refine ⟨[],_,rfl,?_⟩
        simp only [Locked.access,Locked.goto,overlay_notify]
        refine .busy data now true calls i operation held first rest present begun (same.trans ?_)
        simp [Code.block,Block.after]
      | finish exit =>
        obtain ⟨label,taken⟩ := refines_finish present begun same
        refine ⟨[label],_,run_step taken rfl,?_⟩
        simp only [Locked.access,Locked.goto,overlay_leave]
        exact .free now _
    · contradiction

/-- Each step of the machine with the lock is none of the monitor, or one. -/
theorem refines_step {label : LockedLabel Operation} (refines : Refines source s t)
    (taken : lockedStep source s label = some next) :
    ∃ labels u, run (step source.program) t labels = some u ∧ Refines source next u := by
  cases label with
  | invoke operation =>
    cases taken
    exact ⟨[.invoke operation],_,rfl,refines.invoke operation⟩
  | refuse i =>
    simp only [lockedStep] at taken
    split at taken
    next operation found =>
      obtain ⟨result,immediate,rfl⟩ := Option.map_eq_some_iff.mp taken
      obtain ⟨before,present,rfl | ⟨_,_,_,same⟩⟩ := refines.outside found
      · exact ⟨[.enter i],t.goto i ⟨operation,.returned result⟩,run_step (step_immediate present immediate) rfl,
          refines.goto found (by simp)⟩
      · contradiction
    next => contradiction
  | lock i =>
    simp only [lockedStep] at taken
    split at taken
    next operation point found =>
      split at taken
      next free =>
        obtain ⟨code,begun,rfl⟩ := Option.map_eq_some_iff.mp taken
        exact ⟨[],t,rfl,refines.lock found free begun⟩
      next => contradiction
    next => contradiction
  | access i =>
    simp only [lockedStep] at taken
    split at taken
    next operation code found =>
      cases taken
      exact refines.access found
    next => contradiction
  | wake i =>
    simp only [lockedStep] at taken
    split at taken
    next operation frame notified found =>
      cases taken
      obtain ⟨notified,present⟩ := refines.asleep found
      exact ⟨[.wake i],t.goto i ⟨operation,.woken frame true⟩,run_step (by simp only [step,present]) rfl,
        refines.goto found (by simp)⟩
    next => contradiction
  | timeout i =>
    simp only [lockedStep] at taken
    split at taken
    next operation frame notified found =>
      split at taken
      next timed =>
        cases taken
        obtain ⟨notified,present⟩ := refines.asleep found
        have times : source.program.timed operation = true := timed
        exact ⟨[.timeout i],t.goto i ⟨operation,.woken frame false⟩,
          run_step (by simp only [step,present,times,if_true]) rfl,refines.goto found (by simp)⟩
      next => contradiction
    next => contradiction
  | announce i =>
    simp only [lockedStep] at taken
    split at taken
    next operation result found =>
      cases taken
      obtain ⟨before,present,same⟩ := refines.outside found
      rcases same with rfl | ⟨_,_,_,equal⟩
      · refine ⟨[.announce i],State.goto {t with calls := t.calls.map Call.notify} i ⟨operation,.returned result⟩,
          run_step (by simp only [step,present]; rfl) rfl,?_⟩
        have announcing : (s.calls.map Activity.notify)[i]? = some ⟨operation,.outside (.announcing result)⟩ := by
          rw [List.getElem?_map,found]
          rfl
        exact refines.notify.goto announcing (by simp)
      · contradiction
    next => contradiction

theorem refines_run {data : Data} {labels : List (LockedLabel Operation)}
    (reached : run (lockedStep source) (lockedInit data) labels = some s) :
    ∃ labels t, run (step source.program) (init data) labels = some t ∧ Refines source s t := by
  refine run_invariant (fun s => ∃ labels t, run (step source.program) (init data) labels = some t ∧ Refines source s t)
    (fun s label next known taken => ?_) ⟨[],_,rfl,.free data []⟩ reached
  obtain ⟨past,t,before,refines⟩ := known
  obtain ⟨labels,u,after,later⟩ := refines_step refines taken
  exact ⟨past ++ labels,u,run_trans before after,later⟩

end Simulation

section Blocks
variable {source : Source Operation Data Frame Result} {t u : State Operation Data Frame Result}

def State.unlocked (t : State Operation Data Frame Result) : Locked Operation Data Frame Result :=
  ⟨t.data,none,t.calls.map Call.outside⟩

theorem get_unlocked {i : Nat} {operation : Operation} {point : Point Frame Result}
    (found : t.calls[i]? = some ⟨operation,point⟩) : t.unlocked.calls[i]? = some ⟨operation,.outside point⟩ := by
  rw [State.unlocked,List.getElem?_map,found]
  rfl

theorem unlocked_goto (t : State Operation Data Frame Result) (i : Nat) (operation : Operation) (point : Point Frame Result) :
    (t.goto i ⟨operation,point⟩).unlocked = t.unlocked.goto i operation (.outside point) := by
  simp only [State.unlocked,State.goto,Locked.goto,List.map_set]
  rfl

/-- A block of the monitor is the lock, its accesses one after the other, and the unlock. -/
theorem perform_accesses {i : Nat} {operation : Operation} {point : Point Frame Result} {code : Code Data Frame Result}
    (found : t.calls[i]? = some ⟨operation,point⟩) (begun : source.starts operation point = some code) :
    ∃ labels, run (lockedStep source) t.unlocked labels =
      some (t.perform i operation (code.block t.data)).unlocked := by
  obtain ⟨n,reached⟩ := accesses_block source operation code t.data false (get_lt found)
  have taken : lockedStep source t.unlocked (.lock i) = some ⟨t.data,some i,overlay false t.calls i operation code⟩ := by
    simp only [lockedStep,get_unlocked found,begun]
    rfl
  refine ⟨.lock i :: List.replicate n (.access i),run_step taken (reached.trans ?_)⟩
  rw [Bool.false_or]
  rfl

/-- What the monitor does in one step the machine with the lock can do alone. -/
theorem step_accesses {label : Label Operation} (taken : step source.program t label = some u) :
    ∃ labels, run (lockedStep source) t.unlocked labels = some u.unlocked := by
  cases step_moves source.program t u label taken with
  | invoke operation =>
    refine ⟨[.invoke operation],run_step rfl ?_⟩
    simp only [State.unlocked,List.map_append]
    rfl
  | enter i operation found =>
    cases locks : source.immediate operation with
    | none =>
      have begun : source.starts operation .entering = some (source.enter operation) := by simp only [Source.starts,locks]
      simpa only [Source.program,locks] using perform_accesses found begun
    | some result =>
      have same := Option.some.inj (taken.symm.trans (step_immediate found locks))
      rw [same,unlocked_goto]
      exact ⟨[.refuse i],run_step (by simp only [lockedStep,get_unlocked found,locks,Option.map_some]) rfl⟩
  | wake i operation frame notified found =>
    rw [unlocked_goto]
    exact ⟨[.wake i],run_step (by simp only [lockedStep,get_unlocked found]) rfl⟩
  | timeout i operation frame notified found timed =>
    rw [unlocked_goto]
    have times : source.timed operation = true := timed
    exact ⟨[.timeout i],run_step (by simp only [lockedStep,get_unlocked found,times,if_true]) rfl⟩
  | resume i operation frame result found => exact perform_accesses found rfl
  | announce i operation result found =>
    have taken : lockedStep source t.unlocked (.announce i) =
        some (State.goto {t with calls := t.calls.map Call.notify} i ⟨operation,.returned result⟩).unlocked := by
      simp only [lockedStep,get_unlocked found,unlocked_goto]
      simp only [State.unlocked,notify_outside]
    exact ⟨[.announce i],run_step taken rfl⟩

theorem accesses_run {data : Data} {labels : List (Label Operation)}
    (reached : run (step source.program) (init data) labels = some t) :
    ∃ labels, run (lockedStep source) (lockedInit data) labels = some t.unlocked := by
  refine run_invariant (fun t => ∃ labels, run (lockedStep source) (lockedInit data) labels = some t.unlocked)
    (fun t label u known taken => ?_) ⟨[],rfl⟩ reached
  obtain ⟨past,before⟩ := known
  obtain ⟨labels,after⟩ := step_accesses taken
  exact ⟨past ++ labels,run_trans before after⟩

theorem outside_injective :
    Function.Injective (Call.outside : Call Operation Frame Result → Activity Operation Data Frame Result) := by
  intro first second same
  obtain ⟨operation,point⟩ := first
  obtain ⟨other,later⟩ := second
  cases same
  rfl

theorem unlocked_injective :
    Function.Injective (State.unlocked : State Operation Data Frame Result → Locked Operation Data Frame Result) := by
  intro first second same
  have calls := List.map_injective_iff.mpr outside_injective (congrArg Locked.calls same)
  obtain ⟨data,_⟩ := first
  obtain ⟨other,_⟩ := second
  obtain rfl : data = other := congrArg Locked.data same
  exact congrArg _ calls

theorem Refines.unlocked {s : Locked Operation Data Frame Result} (refines : Refines source s t) (free : s.owner = none) :
    s = t.unlocked := by
  cases refines with
  | free => rfl
  | busy => contradiction

/-- Nothing but its own accesses is between a call and the end of its block. -/
theorem Refines.released {s : Locked Operation Data Frame Result} (refines : Refines source s t) :
    ∃ i n u, run (lockedStep source) s (List.replicate n (.access i)) = some (State.unlocked u) := by
  cases refines with
  | free data calls => exact ⟨0,0,⟨data,calls⟩,rfl⟩
  | busy data now seen calls i operation point first code found =>
    obtain ⟨n,reached⟩ := accesses_block source operation code now seen (get_lt found)
    exact ⟨i,n,⟨_,_⟩,reached⟩

end Blocks

/-- The accesses of the source make up the blocks of the program: wherever the lock is
free the two machines reach the same states, calls return alike, what is inside a block
is the one call that holds the lock, and its own accesses alone set the lock free. -/
structure Atomic (source : Source Operation Data Frame Result) (program : Program Operation Data Frame Result)
    (data : Data) : Prop where
  unlocked : ∀ t : State Operation Data Frame Result,
    (∃ labels, run (lockedStep source) (lockedInit data) labels = some t.unlocked) ↔
      ∃ labels, run (step program) (init data) labels = some t
  returned : ∀ (labels : List (LockedLabel Operation)) (s : Locked Operation Data Frame Result), run (lockedStep source) (lockedInit data) labels = some s →
    ∃ (labels : List (Label Operation)) (t : State Operation Data Frame Result),
      run (step program) (init data) labels = some t ∧ ∀ (i : Nat) (operation : Operation) (result : Result),
      s.calls[i]? = some ⟨operation,.outside (.returned result)⟩ → t.calls[i]? = some ⟨operation,.returned result⟩
  exclusive : ∀ (labels : List (LockedLabel Operation)) (s : Locked Operation Data Frame Result),
    run (lockedStep source) (lockedInit data) labels = some s →
    ∀ (i : Nat) (operation : Operation) (code : Code Data Frame Result), s.calls[i]? = some ⟨operation,.inside code⟩ → s.owner = some i

  released : ∀ (labels : List (LockedLabel Operation)) (s : Locked Operation Data Frame Result),
    run (lockedStep source) (lockedInit data) labels = some s →
    ∃ i n t, run (lockedStep source) s (List.replicate n (.access i)) = some (State.unlocked t)

theorem source_atomic {source : Source Operation Data Frame Result} {program : Program Operation Data Frame Result}
    (same : source.program = program) (data : Data) : Atomic source program data where
  unlocked t := by
    subst same
    constructor
    · intro given
      obtain ⟨_,reached⟩ := given
      obtain ⟨labels,u,found,refines⟩ := refines_run reached
      obtain rfl : t = u := unlocked_injective (refines.unlocked rfl)
      exact ⟨labels,found⟩
    · intro given
      obtain ⟨_,reached⟩ := given
      exact accesses_run reached
  returned labels s reached := by
    subst same
    obtain ⟨past,t,found,refines⟩ := refines_run reached
    refine ⟨past,t,found,fun i operation result answered => ?_⟩
    obtain ⟨before,present,rfl | ⟨_,_,_,same⟩⟩ := refines.outside answered
    · exact present
    · contradiction
  exclusive labels s reached i operation code inside := by
    obtain ⟨_,t,_,refines⟩ := refines_run reached
    cases refines with
    | free =>
      obtain ⟨_,same,_⟩ := get_outside inside
      contradiction
    | busy =>
      rcases get_overlay inside with ⟨rfl,_⟩ | ⟨_,_,same,_⟩
      · rfl
      · contradiction
  released labels s reached := by
    obtain ⟨_,_,_,refines⟩ := refines_run reached
    exact refines.released

end Ezthread.Monitor
