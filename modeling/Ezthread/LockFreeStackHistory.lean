import Ezthread.LockFreeStack

/-! The stack that `m_head` leads to. Nodes are private to a `Push` until its
exchange and to a `Pop` after its own, and in between no next pointer changes,
so each successful exchange acts on the abstract stack alone. -/
namespace Ezthread.LockFreeStack
open Transition Activation Lifo

variable {α : Type*} {moved : α → α} {s t : State α}

/-- The nodes met from a head pointer, with their values. Being a list, the
chain is finite; its addresses being distinct, it is acyclic. -/
def Chain (heap : Nat → Option (Node α)) : Option Nat → List (Nat × α) → Prop
  | head, [] => head = none
  | head, (address,value) :: rest =>
      head = some address ∧ ∃ next, heap address = some ⟨value,next⟩ ∧ Chain heap next rest

def Point.fresh : Point α → Option Nat
  | .loadHead newNode | .linkNext newNode _ | .publish newNode _ => some newNode
  | _ => none

/-- The node no other call may write: a fresh one, or one a `Pop` has unlinked. -/
def Point.owned : Point α → Option Nat
  | .takeData current => some current
  | point => point.fresh

/-- The node a `Pop` has found at the head and not unlinked. -/
def Point.visited : Point α → Option Nat
  | .readNext current | .unlink current _ => some current
  | _ => none

def Point.finished : Point α → Bool
  | .pushed | .popped _ | .empty => true
  | _ => false

def eventsOf (history : List (Event Nat α)) (i : Nat) : List (Event Nat α) :=
  history.filter (fun event => event.caller == i)

/-- What a call knows of its nodes, and the exchanges it has made. -/
def Fact (heap : Nat → Option (Node α)) (events : List (Event Nat α)) (i : Nat) : Call α → Prop
  | ⟨.push _,.start⟩ | ⟨.pop,.start⟩ | ⟨.pop,.empty⟩ => events = []
  | ⟨.push value,.loadHead newNode⟩ | ⟨.push value,.linkNext newNode _⟩ =>
      events = [] ∧ ∃ next, heap newNode = some ⟨value,next⟩
  | ⟨.push value,.publish newNode oldHead⟩ => events = [] ∧ heap newNode = some ⟨value,oldHead⟩
  | ⟨.push value,.pushed⟩ => events = [.push i value]
  | ⟨.pop,.readNext current⟩ => events = [] ∧ ∃ node, heap current = some node
  | ⟨.pop,.unlink current next⟩ => events = [] ∧ ∃ value, heap current = some ⟨value,next⟩
  | ⟨.pop,.takeData current⟩ => ∃ value next, heap current = some ⟨value,next⟩ ∧ events = [.pop i value]
  | ⟨.pop,.popped value⟩ => events = [.pop i value]
  | _ => False

def Unowned (calls : List (Call α)) (address : Nat) : Prop :=
  ∀ (j : Nat) (call : Call α), calls[j]? = some call → call.point.owned ≠ some address

def Published (calls : List (Call α)) : Prop :=
  ∀ (i j : Nat) (a b : Call α) (address : Nat), calls[i]? = some a → calls[j]? = some b →
    a.point.visited = some address → b.point.fresh ≠ some address

structure Inv (s : State α) : Prop where
  chain : ∃ cells, Chain s.heap s.head cells ∧ (cells.map Prod.fst).Nodup ∧
    Leaves s.history (cells.map Prod.snd) ∧ ∀ address ∈ cells.map Prod.fst, Unowned s.calls address
  facts : Every (fun i call => Fact s.heap (eventsOf s.history i) i call) s.calls
  owners : Exclusive (fun call => call.point.owned) s.calls
  published : Published s.calls
  callers : ∀ event ∈ s.history, event.caller < s.calls.length

theorem Chain.frame {heap after : Nat → Option (Node α)} {head : Option Nat} {cells : List (Nat × α)}
    (chain : Chain heap head cells) (same : ∀ address ∈ cells.map Prod.fst, after address = heap address) :
    Chain after head cells := by
  induction cells generalizing head with
  | nil => exact chain
  | cons cell rest ih =>
    obtain ⟨address,value⟩ := cell
    obtain ⟨top,next,present,tail⟩ := chain
    refine ⟨top,next,?_,ih tail (fun other member => same other (by simp [member]))⟩
    rw [same address (by simp)]
    exact present

theorem Chain.allocated {heap : Nat → Option (Node α)} {head : Option Nat} {cells : List (Nat × α)}
    (chain : Chain heap head cells) {address : Nat} (member : address ∈ cells.map Prod.fst) :
    ∃ node, heap address = some node := by
  induction cells generalizing head with
  | nil => simp at member
  | cons cell rest ih =>
    obtain ⟨first,value⟩ := cell
    obtain ⟨_,next,present,tail⟩ := chain
    rcases List.mem_cons.mp member with rfl | inside
    · exact ⟨_,present⟩
    · exact ih tail inside

theorem Fact.frame {heap after : Nat → Option (Node α)} {events : List (Event Nat α)} {i : Nat}
    {call : Call α} (fact : Fact heap events i call)
    (owned : ∀ address, call.point.owned = some address → after address = heap address)
    (visited : ∀ address node, call.point.visited = some address → heap address = some node →
      ∃ changed, after address = some changed ∧ changed.next = node.next) :
    Fact after events i call := by
  rcases call with ⟨operation,point⟩
  cases operation with
  | push value =>
    cases point with
    | start | pushed => exact fact
    | loadHead newNode | linkNext newNode oldHead | publish newNode oldHead =>
      simp only [Fact] at fact ⊢
      rw [owned newNode rfl]
      exact fact
    | _ => exact fact.elim
  | pop =>
    cases point with
    | start | empty | popped value => exact fact
    | readNext current =>
      obtain ⟨none,node,present⟩ := fact
      obtain ⟨changed,found,_⟩ := visited current node rfl present
      exact ⟨none,changed,found⟩
    | unlink current next =>
      obtain ⟨none,value,present⟩ := fact
      obtain ⟨⟨data,link⟩,found,same⟩ := visited current _ rfl present
      cases same
      exact ⟨none,data,found⟩
    | takeData current =>
      obtain ⟨value,next,present,events⟩ := fact
      exact ⟨value,next,(owned current rfl).trans present,events⟩
    | _ => exact fact.elim

theorem Fact.owned_allocated {heap : Nat → Option (Node α)} {events : List (Event Nat α)} {i : Nat}
    {call : Call α} (fact : Fact heap events i call) {address : Nat}
    (owns : call.point.owned = some address) : ∃ node, heap address = some node := by
  rcases call with ⟨operation,point⟩
  cases point with
  | loadHead newNode | linkNext newNode oldHead =>
    cases owns
    cases operation with
    | push value =>
      obtain ⟨_,next,present⟩ := fact
      exact ⟨_,present⟩
    | pop => exact fact.elim
  | publish newNode oldHead =>
    cases owns
    cases operation with
    | push value => exact ⟨_,fact.2⟩
    | pop => exact fact.elim
  | takeData current =>
    cases owns
    cases operation with
    | push value => exact fact.elim
    | pop =>
      obtain ⟨value,next,present,_⟩ := fact
      exact ⟨_,present⟩
  | _ => simp [Point.owned,Point.fresh] at owns

theorem Fact.visited_allocated {heap : Nat → Option (Node α)} {events : List (Event Nat α)} {i : Nat}
    {call : Call α} (fact : Fact heap events i call) {address : Nat}
    (visits : call.point.visited = some address) : ∃ node, heap address = some node := by
  rcases call with ⟨operation,point⟩
  cases point with
  | readNext current =>
    cases visits
    cases operation with
    | push value => exact fact.elim
    | pop => exact fact.2
  | unlink current next =>
    cases visits
    cases operation with
    | push value => exact fact.elim
    | pop =>
      obtain ⟨_,value,present⟩ := fact
      exact ⟨_,present⟩
  | _ => simp [Point.visited] at visits

theorem fresh_owned {point : Point α} {address : Nat} (fresh : point.fresh = some address) :
    point.owned = some address := by
  cases point <;> simp_all [Point.fresh,Point.owned]

theorem visited_unowned {point : Point α} {address : Nat} (visited : point.visited = some address) :
    point.owned = none := by
  cases point <;> simp_all [Point.visited,Point.owned,Point.fresh]

theorem eventsOf_append_self (history : List (Event Nat α)) (event : Event Nat α) :
    eventsOf (history ++ [event]) event.caller = eventsOf history event.caller ++ [event] := by
  simp [eventsOf]

theorem eventsOf_append_other (history : List (Event Nat α)) (event : Event Nat α) {j : Nat}
    (other : j ≠ event.caller) : eventsOf (history ++ [event]) j = eventsOf history j := by
  simp [eventsOf,Ne.symm other]

theorem Unowned.set {calls : List (Call α)} {i address : Nat} {next : Call α}
    (unowned : Unowned calls address) (own : next.point.owned ≠ some address) :
    Unowned (calls.set i next) address := by
  intro j call found
  rcases get_set found with ⟨rfl,rfl⟩ | ⟨_,kept⟩
  · exact own
  · exact unowned j call kept

theorem Unowned.append {calls : List (Call α)} {address : Nat} {operation : Operation α}
    (unowned : Unowned calls address) : Unowned (calls ++ [⟨operation,.start⟩]) address := by
  intro j call found
  rcases get_append found with kept | ⟨rfl,rfl⟩
  · exact unowned j call kept
  · simp [Point.owned,Point.fresh]

theorem Published.set {calls : List (Call α)} {i : Nat} {old next : Call α} (published : Published calls)
    (found : calls[i]? = some old)
    (visits : ∀ address, next.point.visited = some address → old.point.visited = some address ∨
      Unowned calls address)
    (makes : ∀ address, next.point.fresh = some address → old.point.fresh = some address ∨
      ∀ (j : Nat) (call : Call α), calls[j]? = some call → call.point.visited ≠ some address) :
    Published (calls.set i next) := by
  intro m n a b address first second visited fresh
  rcases get_set first with ⟨rfl,rfl⟩ | ⟨_,keptFirst⟩ <;>
    rcases get_set second with ⟨rfl,rfl⟩ | ⟨_,keptSecond⟩
  · have owned := fresh_owned fresh
    simp [visited_unowned visited] at owned
  · rcases visits address visited with before | unowned
    · exact published m n old b address found keptSecond before fresh
    · exact unowned n b keptSecond (fresh_owned fresh)
  · rcases makes address fresh with before | unvisited
    · exact published m n a old address keptFirst found visited before
    · exact unvisited m a keptFirst visited
  · exact published m n a b address keptFirst keptSecond visited fresh

theorem Inv.unowned_of_free (inv : Inv s) {address : Nat} (free : s.heap address = none) :
    Unowned s.calls address := by
  intro j call found owns
  obtain ⟨node,present⟩ := (inv.facts j call found).owned_allocated owns
  simp [free] at present

theorem Inv.unvisited_of_free (inv : Inv s) {address : Nat} (free : s.heap address = none)
    (j : Nat) (call : Call α) (found : s.calls[j]? = some call) : call.point.visited ≠ some address := by
  intro visits
  obtain ⟨node,present⟩ := (inv.facts j call found).visited_allocated visits
  simp [free] at present

/-- The frame of every step that leaves the head alone: it may write a node only
its own call owns or nobody has, and may change no next pointer a `Pop` relies on. -/
theorem Inv.write (inv : Inv s) {i : Nat} {old next : Call α} {after : Nat → Option (Node α)}
    (found : s.calls[i]? = some old)
    (unowned : ∀ address, Unowned s.calls address → (∃ node, s.heap address = some node) →
      after address = s.heap address)
    (others : ∀ (j : Nat) (call : Call α) (address : Nat), j ≠ i → s.calls[j]? = some call →
      call.point.owned = some address → after address = s.heap address)
    (visited : ∀ (j : Nat) (call : Call α) (address : Nat) (node : Node α), s.calls[j]? = some call →
      call.point.visited = some address → s.heap address = some node →
      ∃ changed, after address = some changed ∧ changed.next = node.next)
    (fact : Fact after (eventsOf s.history i) i next)
    (owns : ∀ address, next.point.owned = some address →
      old.point.owned = some address ∨ s.heap address = none)
    (visits : ∀ address, next.point.visited = some address →
      old.point.visited = some address ∨ Unowned s.calls address)
    (makes : ∀ address, next.point.fresh = some address →
      old.point.fresh = some address ∨ s.heap address = none) :
    Inv {s.goto i next with heap := after} := by
  obtain ⟨cells,chain,distinct,leaves,apart⟩ := inv.chain
  refine ⟨⟨cells,?_,distinct,leaves,?_⟩,?_,?_,?_,?_⟩
  · exact chain.frame (fun address member => unowned address (apart address member) (chain.allocated member))
  · intro address member
    refine (apart address member).set (fun own => ?_)
    rcases owns address own with before | free
    · exact apart address member i old found before
    · obtain ⟨node,present⟩ := chain.allocated member
      simp [free] at present
  · intro j call present
    rcases get_set present with ⟨rfl,rfl⟩ | ⟨other,kept⟩
    · exact fact
    · exact (inv.facts j call kept).frame (fun address own => others j call address other kept own)
        (fun address node visit => visited j call address node kept visit)
  · refine inv.owners.set found (fun address own => ?_)
    rcases owns address own with before | free
    · exact Or.inl before
    · exact Or.inr (inv.unowned_of_free free)
  · refine inv.published.set found visits (fun address fresh => ?_)
    rcases makes address fresh with before | free
    · exact Or.inl before
    · exact Or.inr (inv.unvisited_of_free free)
  · intro event member
    simpa [State.goto] using inv.callers event member

theorem Inv.goto (inv : Inv s) {i : Nat} {old next : Call α} (found : s.calls[i]? = some old)
    (fact : Fact s.heap (eventsOf s.history i) i next)
    (owns : ∀ address, next.point.owned = some address → old.point.owned = some address)
    (visits : ∀ address, next.point.visited = some address →
      old.point.visited = some address ∨ Unowned s.calls address)
    (makes : ∀ address, next.point.fresh = some address → old.point.fresh = some address) :
    Inv (s.goto i next) :=
  inv.write found (fun _ _ _ => rfl) (fun _ _ _ _ _ _ => rfl)
    (fun _ _ _ node _ _ present => ⟨node,present,rfl⟩) fact (fun address own => .inl (owns address own))
    visits (fun address fresh => .inl (makes address fresh))

theorem Inv.facts_exchange (inv : Inv s) {i : Nat} {next : Call α} {event : Event Nat α}
    (caller : event.caller = i) (first : eventsOf s.history i = [])
    (fact : Fact s.heap [event] i next) :
    Every (fun j call => Fact s.heap (eventsOf (s.history ++ [event]) j) j call) (s.calls.set i next) := by
  intro j call present
  rcases get_set present with ⟨rfl,rfl⟩ | ⟨other,kept⟩
  · have events := eventsOf_append_self s.history event
    rw [caller,first] at events
    rw [events]
    exact fact
  · rw [eventsOf_append_other s.history event (by rw [caller]; exact other)]
    exact inv.facts j call kept

theorem callers_append (inv : Inv s) {i : Nat} {old next : Call α} {event : Event Nat α}
    (found : s.calls[i]? = some old) (caller : event.caller = i) :
    ∀ other ∈ s.history ++ [event], other.caller < (s.calls.set i next).length := by
  intro other member
  rw [List.length_set]
  rcases List.mem_append.mp member with before | last
  · exact inv.callers other before
  · rw [List.mem_singleton.mp last,caller]
    exact get_lt found

theorem Inv.publish (inv : Inv s) {i : Nat} {value : α} {newNode : Nat}
    (found : s.calls[i]? = some ⟨.push value,.publish newNode s.head⟩) :
    Inv {s.goto i ⟨.push value,.pushed⟩ with
      head := some newNode, history := s.history ++ [.push i value]} := by
  obtain ⟨cells,chain,distinct,leaves,apart⟩ := inv.chain
  obtain ⟨first,present⟩ := inv.facts i _ found
  have absent : newNode ∉ cells.map Prod.fst := fun member => apart newNode member i _ found rfl
  refine ⟨⟨(newNode,value) :: cells,⟨rfl,s.head,present,chain⟩,?_,.push i value leaves,?_⟩,?_,?_,?_,?_⟩
  · simpa using ⟨by simpa using absent,distinct⟩
  · intro address member
    rcases List.mem_cons.mp member with rfl | inside
    · intro j call kept owns
      rcases get_set kept with ⟨rfl,rfl⟩ | ⟨other,before⟩
      · simp [Point.owned,Point.fresh] at owns
      · exact other (inv.owners j i call _ _ before found owns rfl)
    · exact (apart address inside).set (by simp [Point.owned,Point.fresh])
  · exact inv.facts_exchange rfl first rfl
  · exact inv.owners.set found (by simp [Point.owned,Point.fresh])
  · exact inv.published.set found (by simp [Point.visited]) (by simp [Point.fresh])
  · exact callers_append inv found rfl

theorem Inv.unlink (inv : Inv s) {i current : Nat} {next : Option Nat} {node : Node α}
    (found : s.calls[i]? = some ⟨.pop,.unlink current next⟩) (top : s.head = some current)
    (present : s.heap current = some node) :
    Inv {s.goto i ⟨.pop,.takeData current⟩ with
      head := next, history := s.history ++ [.pop i node.data]} := by
  obtain ⟨cells,chain,distinct,leaves,apart⟩ := inv.chain
  obtain ⟨first,read,seen⟩ := inv.facts i _ found
  cases cells with
  | nil => simp [Chain,top] at chain
  | cons cell rest =>
    obtain ⟨address,value⟩ := cell
    obtain ⟨head,link,linked,tail⟩ := chain
    have same : address = current := Option.some.inj (head.symm.trans top)
    subst same
    have node_eq : node = ⟨value,link⟩ := Option.some.inj (present.symm.trans linked)
    have next_eq : next = link := congrArg Node.next (Option.some.inj (seen.symm.trans linked))
    subst node_eq next_eq
    obtain ⟨absent,distinctRest⟩ := List.nodup_cons.mp distinct
    refine ⟨⟨rest,tail,distinctRest,.pop i value leaves,?_⟩,?_,?_,?_,?_⟩
    · intro other member
      refine (apart other (List.mem_cons_of_mem _ member)).set (fun owns => ?_)
      have equal : address = other := by simpa [Point.owned] using owns
      exact absent (equal ▸ member)
    · exact inv.facts_exchange rfl first ⟨value,next,linked,rfl⟩
    · refine inv.owners.set found (fun k owns => Or.inr ?_)
      have equal : address = k := by simpa [Point.owned] using owns
      exact equal ▸ apart address (by simp)
    · exact inv.published.set found (by simp [Point.visited]) (by simp [Point.fresh])
    · exact callers_append inv found rfl

theorem Inv.begin (inv : Inv s) (operation : Operation α) :
    Inv {s with calls := s.calls ++ [⟨operation,.start⟩]} := by
  obtain ⟨cells,chain,distinct,leaves,apart⟩ := inv.chain
  refine ⟨⟨cells,chain,distinct,leaves,fun address member => (apart address member).append⟩,?_,?_,?_,?_⟩
  · apply inv.facts.append
    have none : eventsOf s.history s.calls.length = [] := by
      refine List.filter_eq_nil_iff.mpr (fun event member => ?_)
      have bound := inv.callers event member
      simp only [beq_iff_eq]
      omega
    cases operation <;> simpa only [Fact] using none
  · exact inv.owners.append rfl
  · intro i j a b address first second visited fresh
    rcases get_append first with keptFirst | ⟨rfl,rfl⟩
    · rcases get_append second with keptSecond | ⟨rfl,rfl⟩
      · exact inv.published i j a b address keptFirst keptSecond visited fresh
      · simp [Point.fresh] at fresh
    · simp [Point.visited] at visited
  · intro event member
    have bound := inv.callers event member
    simp only [List.length_append,List.length_singleton]
    omega

theorem Inv.current (inv : Inv s) {i : Nat} {point : Point α} (found : s.calls[i]? = some ⟨.pop,point⟩)
    (loads : point = .start ∨ ∃ current next, point = .unlink current next) :
    Inv (s.goto i ⟨.pop,whileCurrent s.head⟩) := by
  have first : eventsOf s.history i = [] := by
    have fact := inv.facts i _ found
    rcases loads with rfl | ⟨current,next,rfl⟩
    · exact fact
    · exact fact.1
  obtain ⟨cells,chain,_,_,apart⟩ := inv.chain
  cases top : s.head with
  | none =>
    refine inv.goto found first ?_ ?_ ?_ <;> simp [whileCurrent,Point.owned,Point.fresh,Point.visited]
  | some head =>
    cases cells with
    | nil => simp [Chain,top] at chain
    | cons cell rest =>
      obtain ⟨address,value⟩ := cell
      obtain ⟨same,next,present,_⟩ := chain
      have equal : address = head := Option.some.inj (same.symm.trans top)
      subst equal
      refine inv.goto found ⟨first,_,present⟩ ?_ (fun visit seen => Or.inr ?_) ?_
      · simp [whileCurrent,Point.owned,Point.fresh]
      · have equal : address = visit := by simpa [whileCurrent,Point.visited] using seen
        exact equal ▸ apart address (by simp)
      · simp [whileCurrent,Point.fresh]

theorem Inv.moves (inv : Inv s) (moves : Moves moved s t) : Inv t := by
  cases moves with
  | invoke operation => exact inv.begin operation
  | alloc i address value found fresh =>
    have first : eventsOf s.history i = [] := inv.facts i _ found
    refine inv.write found ?_ ?_ ?_ ⟨first,none,by simp⟩ ?_ ?_ ?_
    · rintro other _ ⟨node,present⟩
      have different : other ≠ address := by rintro rfl; simp [fresh] at present
      simp [different]
    · intro j call other _ kept owns
      have different : other ≠ address := by rintro rfl; exact inv.unowned_of_free fresh j call kept owns
      simp [different]
    · intro j call other node _ _ present
      have different : other ≠ address := by rintro rfl; simp [fresh] at present
      exact ⟨node,by simpa [different] using present,rfl⟩
    · intro other owns
      have equal : address = other := by simpa [Point.owned,Point.fresh] using owns
      exact Or.inr (equal ▸ fresh)
    · simp [Point.visited]
    · intro other makes
      have equal : address = other := by simpa [Point.fresh] using makes
      exact Or.inr (equal ▸ fresh)
  | load i value newNode found =>
    have fact := inv.facts i _ found
    exact inv.goto found fact (fun _ owns => owns) (by simp [Point.visited]) (fun _ makes => makes)
  | link i value newNode oldHead node found present =>
    obtain ⟨first,next,held⟩ := inv.facts i _ found
    have node_eq : node = ⟨value,next⟩ := Option.some.inj (present.symm.trans held)
    subst node_eq
    refine inv.write found ?_ ?_ ?_ ⟨first,by simp⟩ (fun _ owns => .inl owns) (by simp [Point.visited])
      (fun _ makes => .inl makes)
    · intro other unowned _
      have different : other ≠ newNode := by rintro rfl; exact unowned i _ found rfl
      simp [different]
    · intro j call other apart kept owns
      have different : other ≠ newNode := by rintro rfl; exact apart (inv.owners j i call _ _ kept found owns rfl)
      simp [different]
    · intro j call other seen kept visits occupied
      have different : other ≠ newNode := by
        intro same
        subst same
        exact inv.published j i call _ _ kept found visits rfl
      exact ⟨seen,by simpa [different] using occupied,rfl⟩
  | publish i value newNode found => exact inv.publish found
  | retry i value newNode oldHead found =>
    obtain ⟨first,held⟩ := inv.facts i _ found
    exact inv.goto found ⟨first,_,held⟩ (fun _ owns => owns) (by simp [Point.visited]) (fun _ makes => makes)
  | current i point found loads => exact inv.current found loads
  | readNext i current node found present =>
    exact inv.goto found ⟨(inv.facts i _ found).1,node.data,present⟩ (by simp [Point.owned,Point.fresh])
      (fun _ visits => .inl visits) (by simp [Point.fresh])
  | unlink i current next node found top present => exact inv.unlink found top present
  | takeData i current node found present =>
    obtain ⟨value,next,held,events⟩ := inv.facts i _ found
    have node_eq : node = ⟨value,next⟩ := Option.some.inj (present.symm.trans held)
    subst node_eq
    refine inv.write found ?_ ?_ ?_ events (by simp [Point.owned,Point.fresh]) (by simp [Point.visited])
      (by simp [Point.fresh])
    · intro other unowned _
      have different : other ≠ current := by rintro rfl; exact unowned i _ found rfl
      simp [different]
    · intro j call other apart kept owns
      have different : other ≠ current := by rintro rfl; exact apart (inv.owners j i call _ _ kept found owns rfl)
      simp [different]
    · intro j call other seen kept visits occupied
      by_cases same : other = current
      · -- A `Pop` that lost the race may still hold this node; its exchange will fail.
        subst same
        have seen_eq := Option.some.inj (occupied.symm.trans held)
        subst seen_eq
        exact ⟨⟨moved value,next⟩,by simp,rfl⟩
      · exact ⟨seen,by simpa [same] using occupied,rfl⟩

theorem inv_init : Inv (init : State α) where
  chain := ⟨[],rfl,.nil,.nil,by simp⟩
  facts := Every.nil _
  owners := Exclusive.nil _
  published := by
    intro i j a b address found
    simp [init] at found
  callers := by simp [init]

theorem inv_run {labels : List (Label α)} (reached : run (step moved) init labels = some s) : Inv s :=
  run_invariant Inv (fun before label after inv taken => inv.moves (step_moves moved before after label taken))
    inv_init reached

/-- The exchanges a call has made by the time it returns. -/
def Call.effect (i : Nat) : Call α → Option (List (Event Nat α))
  | ⟨.push value,.pushed⟩ => some [.push i value]
  | ⟨.pop,.popped value⟩ => some [.pop i value]
  | ⟨.pop,.empty⟩ => some []
  | _ => none

theorem Fact.effect {heap : Nat → Option (Node α)} {events : List (Event Nat α)} {i : Nat}
    {call : Call α} (fact : Fact heap events i call) (finished : call.point.finished = true) :
    call.effect i = some events := by
  rcases call with ⟨operation,point⟩
  cases operation <;> cases point <;> simp_all [Fact,Point.finished,Call.effect]

theorem goto_empty {i j : Nat} {next : Call α} (other : next ≠ ⟨.pop,.empty⟩)
    (later : (s.calls.set i next)[j]? = some ⟨.pop,.empty⟩) : s.calls[j]? = some ⟨.pop,.empty⟩ := by
  rcases get_set later with ⟨_,same⟩ | ⟨_,kept⟩
  · exact absurd same.symm other
  · exact kept

/-- A `Pop` only ever becomes empty-handed by loading a null head. -/
theorem empty_moment {j : Nat} (moves : Moves moved s t) (later : t.calls[j]? = some ⟨.pop,.empty⟩) :
    s.calls[j]? = some ⟨.pop,.empty⟩ ∨
      (s.head = none ∧ ∃ call, s.calls[j]? = some call ∧ call.point.finished = false) := by
  cases moves with
  | invoke operation =>
    rcases get_append later with kept | ⟨_,same⟩
    · exact Or.inl kept
    · simp at same
  | current i point found loads =>
    rcases get_set later with ⟨rfl,same⟩ | ⟨_,kept⟩
    · refine Or.inr ⟨?_,_,found,?_⟩
      · cases top : s.head with
        | none => rfl
        | some head => simp [top,whileCurrent] at same
      · rcases loads with rfl | ⟨current,next,rfl⟩ <;> rfl
    · exact Or.inl kept
  | _ => exact Or.inl (goto_empty (by simp) later)

theorem Moves.history (moves : Moves moved s t) :
    t.history = s.history ∨ ∃ event, t.history = s.history ++ [event] := by
  cases moves with
  | publish | unlink => exact Or.inr ⟨_,rfl⟩
  | _ => exact Or.inl rfl

/-- The stack refinement. At every moment the chain from `m_head` is finite and
acyclic and holds exactly what the exchanges so far leave on a last-in first-out
stack; what was pushed is what was popped and what is still there; only an
exchange changes it, a `Push` as cons and a `Pop` as removal of the head; a
finished call made exactly the exchange it reports; and an empty-handed `Pop`
met an empty stack while it was running. -/
theorem stack_refines (labels : List (Label α)) (reached : run (step moved) init labels = some s) :
    (∃ cells, Chain s.heap s.head cells ∧ (cells.map Prod.fst).Nodup ∧
      Leaves s.history (cells.map Prod.snd) ∧
      (s.history.filterMap Event.pushed).Perm
        (s.history.filterMap Event.popped ++ cells.map Prod.snd)) ∧
    (∀ (label : Label α) (t : State α), step moved s label = some t →
      ∃ cells changed, Chain s.heap s.head cells ∧ Chain t.heap t.head changed ∧
        Acts s.history t.history (cells.map Prod.snd) (changed.map Prod.snd)) ∧
    (∀ (j : Nat) (call : Call α), s.calls[j]? = some call → call.point.finished = true →
      call.effect j = some (eventsOf s.history j)) ∧
    (∀ j : Nat, s.calls[j]? = some ⟨.pop,.empty⟩ →
      ∃ before after middle call, labels = before ++ after ∧
        run (step moved) init before = some middle ∧
        middle.calls[j]? = some call ∧ call.point.finished = false ∧ Chain middle.heap middle.head []) := by
  have inv := inv_run reached
  obtain ⟨cells,chain,distinct,leaves,_⟩ := inv.chain
  refine ⟨⟨cells,chain,distinct,leaves,leaves.conserved⟩,fun label t taken => ?_,
    fun j call found finished => (inv.facts j call found).effect finished,fun j later => ?_⟩
  · have moves := step_moves moved s t label taken
    obtain ⟨changed,after,_,left,_⟩ := (inv.moves moves).chain
    exact ⟨cells,changed,chain,after,leaves.acts left moves.history⟩
  · obtain ⟨before,label,after,middle,split,prior,top,call,found,running⟩ :=
      run_moment (fun _ => True) (fun state => state.calls[j]? = some ⟨.pop,.empty⟩)
        (fun state _ => state.head = none ∧
          ∃ call, state.calls[j]? = some call ∧ call.point.finished = false)
        (fun _ _ _ _ _ => trivial)
        (fun state label next _ taken => empty_moment (step_moves moved state next label taken))
        trivial (by simp [init]) reached later
    exact ⟨before,label :: after,middle,call,split,prior,found,running,top⟩

/-- Two pushes and a pop, the second push failing its first exchange. -/
theorem stack_refines_three_calls :
    ∃ s : State Nat, run (step id) init
      [.invoke (.push 7),.invoke (.push 8),.alloc 0 100,.alloc 1 200,.access 0,.access 1,.access 0,
        .access 1,.access 0,.access 1,.access 1,.access 1,.invoke .pop,.access 2,.access 2,.access 2,
        .access 2] = some s ∧ s.head = some 100 ∧
      ∃ cells, Chain s.heap s.head cells ∧ (cells.map Prod.fst).Nodup ∧
        Leaves s.history (cells.map Prod.snd) ∧
        (s.history.filterMap Event.pushed).Perm
          (s.history.filterMap Event.popped ++ cells.map Prod.snd) := by
  obtain ⟨s,reached,top⟩ := Option.map_eq_some_iff.mp (show (run (step id) (init : State Nat)
    [.invoke (.push 7),.invoke (.push 8),.alloc 0 100,.alloc 1 200,.access 0,.access 1,.access 0,
      .access 1,.access 0,.access 1,.access 1,.access 1,.invoke .pop,.access 2,.access 2,.access 2,
      .access 2]).map State.head = some (some 100) from rfl)
  exact ⟨s,reached,top,(stack_refines _ reached).1⟩

end Ezthread.LockFreeStack
