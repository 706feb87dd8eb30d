import Ezthread.LockFreeStackHistory

/-! The nodes of `LockFreeStack` from `new` to `delete`. `Push` allocates one, `Pop`
unlinks one and deletes none, and the destructor, run when no call is in progress,
deletes those that `m_head` still leads to. -/
namespace Ezthread.LockFreeStack
open Transition Activation Lifo

variable {α : Type*} {moved : α → α}

def Label.allocates : Label α → Option Nat
  | .alloc _ address => some address
  | _ => none

/-- The step takes the data out of an unlinked node, and its `Pop` returns. -/
def Label.popReturns (s : State α) : Label α → Bool
  | .access i =>
      match s.calls[i]? with
      | some ⟨.pop,.takeData _⟩ => true
      | _ => false
  | _ => false

/-- `current` is the loop variable of the destructor. -/
inductive Phase
  | alive
  | destructor (current : Option Nat)
deriving DecidableEq

/-- The heap of `stack` holds the nodes that are allocated and not yet deleted;
`allocated` and `deleted` record every `new Node` and every `delete`. -/
structure Lifetime (α : Type*) where
  stack : State α
  allocated : List Nat
  deleted : List Nat
  phase : Phase

def Lifetime.init : Lifetime α := ⟨LockFreeStack.init,[],[],.alive⟩

inductive Act (α : Type*)
  | operate (label : Label α)
  | destroy
  | deleteCurrent

def Lifetime.step (moved : α → α) (s : Lifetime α) : Act α → Option (Lifetime α)
  | .operate label =>
      match s.phase with
      | .alive => (LockFreeStack.step moved s.stack label).map fun stack =>
          {s with stack := stack, allocated := s.allocated ++ label.allocates.toList}
      | .destructor _ => none
  | .destroy =>
      match s.phase with
      | .alive =>
          if s.stack.calls.all (fun call => call.point.finished) then
            some {s with phase := .destructor s.stack.head}
          else none
      | .destructor _ => none
  | .deleteCurrent =>
      match s.phase with
      | .destructor (some current) => (s.stack.heap current).map fun node =>
          {s with
            stack := {s.stack with heap := Function.update s.stack.heap current none}
            deleted := s.deleted ++ [current]
            phase := .destructor node.next}
      | _ => none

def Act.popReturns (s : Lifetime α) : Act α → Bool
  | .operate label => label.popReturns s.stack
  | _ => false

def Reachable (heap : Nat → Option (Node α)) (head : Option Nat) (address : Nat) : Prop :=
  ∃ cells, Chain heap head cells ∧ address ∈ cells.map Prod.fst

def State.Holds (s : State α) (address : Nat) : Prop :=
  Held (fun call : Call α => call.point.owned) s.calls address

/-- The node whose field the next access of a call reads or writes. -/
def Point.dereferences : Point α → Option Nat
  | .linkNext newNode _ => some newNode
  | .readNext current | .takeData current => some current
  | _ => none

def Lifetime.root (s : Lifetime α) : Option Nat :=
  match s.phase with
  | .alive => s.stack.head
  | .destructor current => current

def Lifetime.Dereferences (s : Lifetime α) (address : Nat) : Prop :=
  match s.phase with
  | .alive => Held (fun call : Call α => call.point.dereferences) s.stack.calls address
  | .destructor current => current = some address

/-- No node leaks: while the stack lives, each one not yet deleted is reachable from
`m_head` or held by a call; the destructor still reaches what it has to delete; and
once it has returned each one was deleted once. -/
structure Lifetime.Reclaims (s : Lifetime α) : Prop where
  accounted : ∀ address ∈ s.allocated, address ∉ s.deleted →
    Reachable s.stack.heap s.root address ∨ s.stack.Holds address
  unread : ∀ address, s.Dereferences address → address ∉ s.deleted
  once : s.phase = .destructor none → ∀ address ∈ s.allocated, s.deleted.count address = 1

theorem Chain.unique {heap : Nat → Option (Node α)} {head : Option Nat} {cells others : List (Nat × α)}
    (chain : Chain heap head cells) (other : Chain heap head others) : cells = others := by
  induction cells generalizing head others with
  | nil =>
    cases others with
    | nil => rfl
    | cons cell rest => exact absurd (chain.symm.trans other.1) (by simp)
  | cons cell rest ih =>
    obtain ⟨top,next,present,tail⟩ := chain
    cases others with
    | nil => exact absurd (top.symm.trans other) (by simp)
    | cons second remaining =>
      obtain ⟨sameTop,link,found,after⟩ := other
      obtain ⟨address,value⟩ := cell
      obtain ⟨first,data⟩ := second
      obtain rfl : address = first := Option.some.inj (top.symm.trans sameTop)
      cases Option.some.inj (present.symm.trans found)
      rw [ih tail after]

theorem Chain.reachable_iff {heap : Nat → Option (Node α)} {head : Option Nat} {cells : List (Nat × α)}
    (chain : Chain heap head cells) (address : Nat) : Reachable heap head address ↔ address ∈ cells.map Prod.fst := by
  constructor
  · intro given
    obtain ⟨others,other,member⟩ := given
    rw [chain.unique other]
    exact member
  · exact fun member => ⟨cells,chain,member⟩

theorem unreachable_null {heap : Nat → Option (Node α)} {address : Nat} : ¬ Reachable heap none address := by
  intro reached
  have empty : Chain heap none [] := rfl
  simpa using (empty.reachable_iff address).mp reached

theorem Chain.top {heap : Nat → Option (Node α)} {head : Option Nat} {cells : List (Nat × α)} {address : Nat}
    (chain : Chain heap head cells) (top : head = some address) : ∃ node, heap address = some node := by
  cases cells with
  | nil => exact absurd (chain.symm.trans top) (by simp)
  | cons cell rest =>
    obtain ⟨first,next,present,_⟩ := chain
    obtain rfl : cell.1 = address := Option.some.inj (first.symm.trans top)
    exact ⟨_,present⟩

theorem Chain.reachable_cons {heap : Nat → Option (Node α)} {head next : Option Nat} {rest : List (Nat × α)}
    {address : Nat} {value : α} (chain : Chain heap head ((address,value) :: rest)) (tail : Chain heap next rest)
    (other : Nat) : Reachable heap head other ↔ other = address ∨ Reachable heap next other := by
  rw [chain.reachable_iff,tail.reachable_iff,List.map_cons,List.mem_cons]

theorem Chain.apart {s : State α} {cells : List (Nat × α)} {i address : Nat} {call : Call α}
    (apart : ∀ address ∈ cells.map Prod.fst, Unowned s.calls address) (found : s.calls[i]? = some call)
    (owns : call.point.owned = some address) : address ∉ cells.map Prod.fst :=
  fun member => apart address member i call found owns

theorem Chain.update {heap : Nat → Option (Node α)} {head : Option Nat} {cells : List (Nat × α)}
    (chain : Chain heap head cells) {address : Nat} (absent : address ∉ cells.map Prod.fst) (content : Option (Node α)) :
    Chain (Function.update heap address content) head cells := by
  refine chain.frame fun other member => ?_
  have different : other ≠ address := by rintro rfl; exact absent member
  exact Function.update_of_ne different content heap

theorem Chain.pop {heap : Nat → Option (Node α)} {head next : Option Nat} {cells : List (Nat × α)} {current : Nat}
    {data : α} (chain : Chain heap head cells) (top : head = some current) (present : heap current = some ⟨data,next⟩) :
    ∃ value rest, cells = (current,value) :: rest ∧ Chain heap next rest := by
  cases cells with
  | nil => simp [Chain,top] at chain
  | cons cell rest =>
    obtain ⟨address,value⟩ := cell
    obtain ⟨first,link,linked,tail⟩ := chain
    obtain rfl : address = current := Option.some.inj (first.symm.trans top)
    obtain rfl : link = next := congrArg Node.next (Option.some.inj (linked.symm.trans present))
    exact ⟨value,rest,rfl,tail⟩

theorem update_live {heap : Nat → Option (Node α)} {address : Nat} {node : Node α} (present : heap address = some node)
    (after : Node α) (other : Nat) : (Function.update heap address (some after) other).isSome = (heap other).isSome := by
  by_cases same : other = address
  · subst same
    simp [present]
  · rw [Function.update_of_ne same]

/-- What a step does to the custody of the nodes: a node is allocated into the hands of a
call, passes from them to the chain or back, or leaves them as the `Pop` returns. -/
inductive Transfer (s t : State α) (label : Label α) : Prop
  | allocate (address : Nat) (new : label.allocates = some address) (fresh : s.heap address = none)
      (live : ∀ other, (t.heap other).isSome ↔ other = address ∨ (s.heap other).isSome)
      (reach : ∀ other, Reachable t.heap t.head other ↔ Reachable s.heap s.head other)
      (held : ∀ other, t.Holds other ↔ other = address ∨ s.Holds other)
      (stays : label.popReturns s = false)
  | quiet (old : label.allocates = none) (live : ∀ other, (t.heap other).isSome = (s.heap other).isSome)
      (reach : ∀ other, Reachable t.heap t.head other ↔ Reachable s.heap s.head other)
      (held : ∀ other, t.Holds other ↔ s.Holds other) (stays : label.popReturns s = false)
  | publish (address : Nat) (old : label.allocates = none) (live : ∀ other, (t.heap other).isSome = (s.heap other).isSome)
      (reach : ∀ other, Reachable t.heap t.head other ↔ other = address ∨ Reachable s.heap s.head other)
      (held : ∀ other, t.Holds other ↔ other ≠ address ∧ s.Holds other) (stays : label.popReturns s = false)
  | unlink (address : Nat) (old : label.allocates = none) (live : ∀ other, (t.heap other).isSome = (s.heap other).isSome)
      (reach : ∀ other, Reachable s.heap s.head other ↔ other = address ∨ Reachable t.heap t.head other)
      (held : ∀ other, t.Holds other ↔ other = address ∨ s.Holds other) (stays : label.popReturns s = false)
  | release (address : Nat) (old : label.allocates = none) (live : ∀ other, (t.heap other).isSome = (s.heap other).isSome)
      (reach : ∀ other, Reachable t.heap t.head other ↔ Reachable s.heap s.head other)
      (held : ∀ other, t.Holds other ↔ other ≠ address ∧ s.Holds other)
      (present : (s.heap address).isSome) (unreached : ¬ Reachable s.heap s.head address)
      (returns : label.popReturns s = true)

/-- A step that moves one call to a point with the same node in its hands, and writes no
node but that one. -/
theorem Transfer.keep {s : State α} {label : Label α} {i : Nat} {old next : Call α} {after : Nat → Option (Node α)}
    (inv : Inv s) (found : s.calls[i]? = some old) (same : next.point.owned = old.point.owned)
    (written : after = s.heap ∨ ∃ address node changed, old.point.owned = some address ∧ s.heap address = some node ∧
      after = Function.update s.heap address (some changed))
    (quiet : label.allocates = none) (stays : label.popReturns s = false) :
    Transfer s {s.goto i next with heap := after} label := by
  obtain ⟨cells,chain,_,_,apart⟩ := inv.chain
  have held (other : Nat) := Held.keep_iff (fun call : Call α => call.point.owned) next found same other
  rcases written with rfl | ⟨address,node,changed,owns,present,rfl⟩
  · exact .quiet quiet (fun _ => rfl) (fun _ => Iff.rfl) held stays
  · refine .quiet quiet (update_live present changed) (fun other => ?_) held stays
    have absent := Chain.apart apart found owns
    exact ((chain.update absent (some changed)).reachable_iff other).trans (chain.reachable_iff other).symm

theorem Transfer.live_iff {s t : State α} {label : Label α} (transfer : Transfer s t label) (address : Nat) :
    (t.heap address).isSome ↔ address ∈ label.allocates ∨ (s.heap address).isSome := by
  cases transfer with
  | allocate new allocates _ live _ _ _ => rw [live,allocates,Option.mem_some_iff,eq_comm]
  | quiet old live _ _ _ => simp [old,live]
  | publish _ old live _ _ _ => simp [old,live]
  | unlink _ old live _ _ _ => simp [old,live]
  | release _ old live _ _ _ _ _ => simp [old,live]

theorem step_transfer {s t : State α} {label : Label α} (inv : Inv s) (taken : step moved s label = some t) :
    Transfer s t label := by
  obtain ⟨cells,chain,_,_,apart⟩ := inv.chain
  cases label with
  | invoke operation =>
    cases taken
    exact .quiet rfl (fun _ => rfl) (fun _ => Iff.rfl) (fun other => Held.append_iff rfl other) rfl
  | alloc i address =>
    simp only [step] at taken
    split at taken
    next value found =>
      split at taken
      · next free =>
        cases taken
        have fresh : s.heap address = none := by simpa using free
        have absent : address ∉ cells.map Prod.fst := by
          intro member
          obtain ⟨node,present⟩ := chain.allocated member
          simp [fresh] at present
        refine .allocate address rfl fresh (fun other => ?_) (fun other => ?_)
          (Held.gain_iff (fun call : Call α => call.point.owned) _ found rfl rfl) rfl
        · by_cases same : other = address <;> simp [same]
        · exact ((chain.update absent _).reachable_iff other).trans (chain.reachable_iff other).symm
      · contradiction
    next => contradiction
  | fail i =>
    simp only [step] at taken
    split at taken
    next value newNode oldHead found =>
      cases taken
      exact .keep inv found rfl (.inl rfl) rfl rfl
    next current next found =>
      cases taken
      refine .keep inv found ?_ (.inl rfl) rfl rfl
      cases s.head <;> rfl
    next => contradiction
  | access i =>
    obtain ⟨call,found,accessed⟩ := Option.bind_eq_some_iff.mp taken
    unfold advance at accessed
    split at accessed
    next value newNode =>
      cases accessed
      exact .keep inv found rfl (.inl rfl) rfl (by simp [Label.popReturns,found])
    next value newNode oldHead =>
      obtain ⟨node,present,rfl⟩ := Option.map_eq_some_iff.mp accessed
      exact .keep inv found rfl (.inr ⟨newNode,node,_,rfl,present,rfl⟩) rfl (by simp [Label.popReturns,found])
    next value newNode oldHead =>
      split at accessed
      · next same =>
        subst same
        cases accessed
        have linked := (inv.facts i _ found).2
        have grown : Chain s.heap (some newNode) ((newNode,value) :: cells) := ⟨rfl,s.head,linked,chain⟩
        exact .publish newNode rfl (fun _ => rfl) (grown.reachable_cons chain)
          (Held.release_iff _ inv.owners found rfl rfl) (by simp [Label.popReturns,found])
      · cases accessed
        exact .keep inv found rfl (.inl rfl) rfl (by simp [Label.popReturns,found])
    next =>
      cases accessed
      refine .keep inv found ?_ (.inl rfl) rfl (by simp [Label.popReturns,found])
      cases s.head <;> rfl
    next current =>
      obtain ⟨node,present,rfl⟩ := Option.map_eq_some_iff.mp accessed
      exact .keep inv found rfl (.inl rfl) rfl (by simp [Label.popReturns,found])
    next current next =>
      split at accessed
      · next top =>
        obtain ⟨node,present,rfl⟩ := Option.map_eq_some_iff.mp accessed
        obtain ⟨_,read,seen⟩ := inv.facts i _ found
        obtain ⟨value,rest,rfl,tail⟩ := chain.pop top seen
        exact .unlink current rfl (fun _ => rfl) (chain.reachable_cons tail)
          (Held.gain_iff (fun call : Call α => call.point.owned) _ found rfl rfl) (by simp [Label.popReturns,found])
      · cases accessed
        refine .keep inv found ?_ (.inl rfl) rfl (by simp [Label.popReturns,found])
        cases s.head <;> rfl
    next current =>
      obtain ⟨node,present,rfl⟩ := Option.map_eq_some_iff.mp accessed
      have absent := Chain.apart apart found rfl
      refine .release current rfl (update_live present _) (fun other => ?_)
        (Held.release_iff _ inv.owners found rfl rfl) (by simp [present]) ?_ (by simp [Label.popReturns,found])
      · exact ((chain.update absent _).reachable_iff other).trans (chain.reachable_iff other).symm
      · exact fun reached => absent ((chain.reachable_iff current).mp reached)
    next => contradiction

/-- All that can happen in the life of a stack, with the guards. -/
inductive Lifetime.Moves (moved : α → α) (s : Lifetime α) : Act α → Lifetime α → Prop
  | operate (label stack) (alive : s.phase = .alive) (taken : LockFreeStack.step moved s.stack label = some stack) :
      Moves moved s (.operate label) {s with stack := stack, allocated := s.allocated ++ label.allocates.toList}
  | destroy (alive : s.phase = .alive) (finished : ∀ call ∈ s.stack.calls, call.point.finished = true) :
      Moves moved s .destroy {s with phase := .destructor s.stack.head}
  | deleteCurrent (current node) (loops : s.phase = .destructor (some current))
      (present : s.stack.heap current = some node) :
      Moves moved s .deleteCurrent {s with
        stack := {s.stack with heap := Function.update s.stack.heap current none}
        deleted := s.deleted ++ [current]
        phase := .destructor node.next}

theorem Lifetime.step_moves {s t : Lifetime α} {act : Act α} (taken : s.step moved act = some t) : s.Moves moved act t := by
  unfold Lifetime.step at taken
  split at taken
  next label =>
    split at taken
    next alive =>
      obtain ⟨stack,operated,rfl⟩ := Option.map_eq_some_iff.mp taken
      exact .operate label stack alive operated
    next => contradiction
  next =>
    split at taken
    next alive =>
      split at taken
      · next finished =>
        cases taken
        exact .destroy alive (List.all_eq_true.mp finished)
      · contradiction
    next => contradiction
  next =>
    split at taken
    next current loops =>
      obtain ⟨node,present,rfl⟩ := Option.map_eq_some_iff.mp taken
      exact .deleteCurrent current node loops present
    next => contradiction

def Lifetime.Stands (s : Lifetime α) : Prop :=
  match s.phase with
  | .alive => Inv s.stack ∧ s.deleted = []
  | .destructor current =>
      (∃ cells, Chain s.stack.heap current cells ∧ (cells.map Prod.fst).Nodup) ∧ ∀ address, ¬ s.stack.Holds address

/-- What holds in every run: the heap and the two records agree, no node is deleted
twice, and the destructor walks a chain of nodes that are there. -/
structure Lifetime.Sound (s : Lifetime α) : Prop where
  ledger : ∀ address, address ∈ s.allocated ↔ (s.stack.heap address).isSome ∨ address ∈ s.deleted
  apart : ∀ address ∈ s.deleted, s.stack.heap address = none
  distinct : s.deleted.Nodup
  stands : s.Stands

def Lifetime.Placed (s : Lifetime α) : Prop :=
  ∀ address, (s.stack.heap address).isSome → Reachable s.stack.heap s.root address ∨ s.stack.Holds address

theorem Lifetime.Sound.lives {s : Lifetime α} (sound : s.Sound) (alive : s.phase = .alive) :
    Inv s.stack ∧ s.deleted = [] := by
  simpa only [Lifetime.Stands,alive] using sound.stands

theorem Lifetime.Sound.loops {s : Lifetime α} {current : Option Nat} (sound : s.Sound)
    (loops : s.phase = .destructor current) :
    (∃ cells, Chain s.stack.heap current cells ∧ (cells.map Prod.fst).Nodup) ∧ ∀ address, ¬ s.stack.Holds address := by
  simpa only [Lifetime.Stands,loops] using sound.stands

theorem finished_unheld {calls : List (Call α)} (finished : ∀ call ∈ calls, call.point.finished = true) (address : Nat) :
    ¬ Held (fun call : Call α => call.point.owned) calls address := by
  intro held
  obtain ⟨j,call,found,owns⟩ := held
  have ended := finished call (List.mem_of_getElem? found)
  rcases call with ⟨operation,point⟩
  cases point <;> simp_all [Point.owned,Point.fresh,Point.finished]

theorem Lifetime.Sound.init : (Lifetime.init : Lifetime α).Sound where
  ledger := by simp [Lifetime.init,LockFreeStack.init]
  apart := by simp [Lifetime.init]
  distinct := List.nodup_nil
  stands := ⟨inv_init,rfl⟩

theorem Lifetime.Sound.moves {s t : Lifetime α} {act : Act α} (sound : s.Sound) (moves : s.Moves moved act t) : t.Sound := by
  cases moves with
  | operate label stack alive taken =>
    obtain ⟨inv,none⟩ := sound.lives alive
    refine ⟨fun address => ?_,?_,?_,?_⟩
    · have known := sound.ledger address
      rw [none] at known ⊢
      rw [List.mem_append,known,Option.mem_toList,(step_transfer inv taken).live_iff]
      simp [or_comm]
    · simp [none]
    · exact sound.distinct
    · simp only [Lifetime.Stands,alive]
      exact ⟨inv.moves (LockFreeStack.step_moves moved _ _ label taken),none⟩
  | destroy alive finished =>
    obtain ⟨cells,chain,distinct,_,_⟩ := (sound.lives alive).1.chain
    exact ⟨sound.ledger,sound.apart,sound.distinct,⟨cells,chain,distinct⟩,finished_unheld finished⟩
  | deleteCurrent current node loops present =>
    obtain ⟨⟨cells,chain,distinct⟩,unheld⟩ := sound.loops loops
    obtain ⟨value,rest,rfl,tail⟩ := chain.pop rfl present
    obtain ⟨absent,apart⟩ := List.nodup_cons.mp distinct
    refine ⟨fun address => ?_,fun address member => ?_,?_,⟨rest,tail.update absent none,apart⟩,unheld⟩
    · by_cases same : address = current
      · subst same
        simp [sound.ledger,present]
      · simp [sound.ledger,same]
    · by_cases same : address = current
      · simp [same]
      · simpa [same] using sound.apart address (by simpa [same] using member)
    · refine List.nodup_append.mpr ⟨sound.distinct,List.nodup_singleton _,?_⟩
      intro deleted before other last same
      rw [List.mem_singleton.mp last] at same
      subst same
      simp [sound.apart _ before] at present

theorem Lifetime.Placed.moves {s t : Lifetime α} {act : Act α} (placed : s.Placed) (sound : s.Sound)
    (stays : act.popReturns s = false) (moves : s.Moves moved act t) : t.Placed := by
  cases moves with
  | operate label stack alive taken =>
    have before (address : Nat) (live : (s.stack.heap address).isSome) :
        Reachable s.stack.heap s.stack.head address ∨ s.stack.Holds address := by
      simpa [Lifetime.root,alive] using placed address live
    intro address live
    simp only [Lifetime.root,alive]
    cases step_transfer (sound.lives alive).1 taken with
    | allocate new _ _ lives reach held _ =>
      rw [reach,held]
      rcases (lives address).mp live with rfl | old
      · exact Or.inr (Or.inl rfl)
      · exact (before address old).imp_right Or.inr
    | quiet _ lives reach held _ =>
      rw [reach,held]
      exact before address (lives address ▸ live)
    | publish new _ lives reach held _ =>
      rw [reach,held]
      by_cases same : address = new
      · exact Or.inl (Or.inl same)
      · exact (before address (lives address ▸ live)).imp Or.inr (And.intro same)
    | unlink old _ lives reach held _ =>
      rw [held]
      rcases before address (lives address ▸ live) with reached | owned
      · exact ((reach address).mp reached).elim (fun same => Or.inr (Or.inl same)) Or.inl
      · exact Or.inr (Or.inr owned)
    | release _ _ _ _ _ _ _ returns => exact absurd (stays.symm.trans returns) Bool.false_ne_true
  | destroy alive finished =>
    intro address live
    simpa [Lifetime.root,alive] using placed address live
  | deleteCurrent current node loops present =>
    obtain ⟨⟨cells,chain,distinct⟩,unheld⟩ := sound.loops loops
    obtain ⟨value,rest,rfl,tail⟩ := chain.pop rfl present
    have absent := (List.nodup_cons.mp distinct).1
    intro address live
    have other : address ≠ current := by rintro rfl; simp at live
    have known := placed address (by simpa [other] using live)
    simp only [Lifetime.root,loops] at known ⊢
    rcases known with reached | owned
    · refine Or.inl (((tail.update absent none).reachable_iff address).mpr ?_)
      simpa [other] using (chain.reachable_iff address).mp reached
    · exact absurd owned (unheld address)

theorem Lifetime.Sound.unread {s : Lifetime α} (sound : s.Sound) (address : Nat) (reads : s.Dereferences address) :
    address ∉ s.deleted := by
  intro gone
  cases phase : s.phase with
  | alive => simp [(sound.lives phase).2] at gone
  | destructor current =>
    simp only [Lifetime.Dereferences,phase] at reads
    obtain ⟨⟨cells,chain,_⟩,_⟩ := sound.loops phase
    obtain ⟨node,present⟩ := chain.top reads
    simp [sound.apart address gone] at present

theorem Lifetime.Sound.reclaims {s : Lifetime α} (sound : s.Sound) (placed : s.Placed) : s.Reclaims where
  accounted address member kept := placed address (((sound.ledger address).mp member).resolve_right kept)
  unread := sound.unread
  once returned address member := by
    have gone : address ∈ s.deleted := by
      by_contra kept
      rcases placed address (((sound.ledger address).mp member).resolve_right kept) with reached | owned
      · simp only [Lifetime.root,returned] at reached
        exact unreachable_null reached
      · exact (sound.loops returned).2 address owned
    exact List.count_eq_one_of_mem sound.distinct gone

theorem Lifetime.Sound.release_leaks {s t : Lifetime α} {act : Act α} (sound : s.Sound)
    (returns : act.popReturns s = true) (moves : s.Moves moved act t) : ¬ t.Reclaims := by
  have after := sound.moves moves
  cases moves with
  | operate label stack alive taken =>
    obtain ⟨inv,none⟩ := sound.lives alive
    intro reclaims
    cases step_transfer inv taken with
    | release address _ lives reach held present unreached _ =>
      have allocated := (after.ledger address).mpr (Or.inl ((lives address).trans present))
      have kept : address ∉ s.deleted := by simp [none]
      rcases reclaims.accounted address allocated kept with reached | owned
      · simp only [Lifetime.root,alive] at reached
        exact unreached ((reach address).mp reached)
      · exact ((held address).mp owned).1 rfl
    | allocate _ _ _ _ _ _ stays => exact absurd (stays.symm.trans returns) Bool.false_ne_true
    | quiet _ _ _ _ stays => exact absurd (stays.symm.trans returns) Bool.false_ne_true
    | publish _ _ _ _ _ stays => exact absurd (stays.symm.trans returns) Bool.false_ne_true
    | unlink _ _ _ _ _ stays => exact absurd (stays.symm.trans returns) Bool.false_ne_true
  | destroy | deleteCurrent => contradiction

theorem Lifetime.sound_run {acts : List (Act α)} {s : Lifetime α}
    (reached : run (Lifetime.step moved) Lifetime.init acts = some s) : s.Sound :=
  run_invariant Lifetime.Sound (fun _ _ _ sound taken => sound.moves (Lifetime.step_moves taken)) .init reached

/-- Whatever the calls do, no access and no turn of the destructor's loop meets a deleted node. -/
theorem never_reads_deleted {acts : List (Act α)} {s : Lifetime α}
    (reached : run (Lifetime.step moved) Lifetime.init acts = some s) (address : Nat) (reads : s.Dereferences address) :
    address ∉ s.deleted :=
  (Lifetime.sound_run reached).unread address reads

theorem destructor_loops (moved : α → α) {cells : List (Nat × α)} {s : Lifetime α} {current : Option Nat}
    (loops : s.phase = .destructor current) (chain : Chain s.stack.heap current cells)
    (distinct : (cells.map Prod.fst).Nodup) :
    ∃ t, run (Lifetime.step moved) s (List.replicate cells.length .deleteCurrent) = some t ∧ t.phase = .destructor none := by
  induction cells generalizing s current with
  | nil =>
    rw [chain] at loops
    exact ⟨s,rfl,loops⟩
  | cons cell rest ih =>
    obtain ⟨top,next,present,tail⟩ := chain
    obtain ⟨absent,apart⟩ := List.nodup_cons.mp distinct
    obtain ⟨t,reached,ended⟩ := ih (s := {s with
      stack := {s.stack with heap := Function.update s.stack.heap cell.1 none}
      deleted := s.deleted ++ [cell.1]
      phase := .destructor next}) rfl (tail.update absent none) apart
    refine ⟨t,run_step ?_ reached,ended⟩
    simp [Lifetime.step,loops,top,present]

/-- The destructor returns, whatever the calls before it have done. -/
theorem destructor_returns {acts : List (Act α)} {s : Lifetime α}
    (reached : run (Lifetime.step moved) Lifetime.init acts = some s) (alive : s.phase = .alive)
    (finished : s.stack.calls.all (fun call => call.point.finished) = true) :
    ∃ n t, run (Lifetime.step moved) Lifetime.init (acts ++ .destroy :: List.replicate n .deleteCurrent) = some t ∧
      t.phase = .destructor none := by
  obtain ⟨cells,chain,distinct,_⟩ := ((Lifetime.sound_run reached).lives alive).1.chain
  obtain ⟨t,looped,ended⟩ := destructor_loops moved (s := {s with phase := .destructor s.stack.head}) rfl chain distinct
  have destroyed : Lifetime.step moved s .destroy = some {s with phase := .destructor s.stack.head} := by
    simp only [Lifetime.step,alive,finished,if_true]
  exact ⟨cells.length,t,run_trans reached (run_step destroyed looped),ended⟩

theorem reclaims_iff_no_pop_returns (moved : α → α) {acts : List (Act α)} {s : Lifetime α}
    (reached : run (Lifetime.step moved) Lifetime.init acts = some s) :
    Along (Lifetime.step moved) Lifetime.Reclaims Lifetime.init acts ↔
      Obeys (Lifetime.step moved) (fun before act => act.popReturns before = false) Lifetime.init acts := by
  have preserved (before : Lifetime α) (act : Act α) (after : Lifetime α) (known : before.Sound ∧ before.Placed)
      (stays : act.popReturns before = false) (taken : before.step moved act = some after) : after.Sound ∧ after.Placed := by
    have moves := Lifetime.step_moves taken
    exact ⟨known.1.moves moves,known.2.moves known.1 stays moves⟩
  have breach (before : Lifetime α) (act : Act α) (after : Lifetime α) (known : before.Sound ∧ before.Placed)
      (returns : ¬ act.popReturns before = false) (taken : before.step moved act = some after) : ¬ after.Reclaims :=
    known.1.release_leaks (by simpa using returns) (Lifetime.step_moves taken)
  have placed : (Lifetime.init : Lifetime α).Placed := by
    intro address live
    simp [Lifetime.init,init] at live
  exact along_iff_obeys preserved (fun _ known => known.1.reclaims known.2) breach ⟨.init,placed⟩ reached

def pushes : List (Act Nat) :=
  [.operate (.invoke .pop),.operate (.access 0),.operate (.invoke (.push 7)),.operate (.alloc 1 100),.operate (.access 1),
    .operate (.access 1),.operate (.access 1)]

theorem reclaims_of_pushes : ∃ s, run (Lifetime.step id) Lifetime.init (pushes ++ [.destroy,.deleteCurrent]) = some s ∧
    Along (Lifetime.step id) Lifetime.Reclaims Lifetime.init (pushes ++ [.destroy,.deleteCurrent]) := by
  obtain ⟨s,reached⟩ : ∃ s, run (Lifetime.step id) Lifetime.init (pushes ++ [.destroy,.deleteCurrent]) = some s := ⟨_,rfl⟩
  exact ⟨s,reached,(reclaims_iff_no_pop_returns id reached).mpr (by decide)⟩

theorem popped_node_leaks :
    ∃ s, run (Lifetime.step id) Lifetime.init (pushes ++ [.operate (.invoke .pop),.operate (.access 2),.operate (.access 2),
        .operate (.access 2),.operate (.access 2),.destroy]) = some s ∧
      s.phase = .destructor none ∧ s.allocated = [100] ∧ s.deleted = [] ∧ ¬ s.Reclaims := by
  refine ⟨_,rfl,rfl,rfl,rfl,fun reclaims => ?_⟩
  have once := reclaims.once rfl 100 (List.mem_singleton_self 100)
  contradiction

end Ezthread.LockFreeStack
