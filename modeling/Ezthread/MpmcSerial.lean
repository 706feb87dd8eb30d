import Ezthread.MpmcTickets

/-! `MPMCQueue` in runs where a call begins only after the earlier ones have
returned: it is a FIFO queue bounded by its capacity, but for a capacity of one. -/
namespace Ezthread.MpmcQueue
open Transition Activation RingBuffer

variable {α : Type*} {moved : α → α} {w k : Nat} {s t : State α}

inductive Outcome (α : Type*)
  | pushed (accepted : Bool)
  | popped (item : Option α)
  deriving DecidableEq

/-- What a FIFO queue bounded by its capacity returns, and what it then holds. -/
def serve (capacity : Nat) (queue : List α) : Operation α → Outcome α × List α
  | .push item => if queue.length < capacity then (.pushed true,queue ++ [item]) else (.pushed false,queue)
  | .pop =>
      match queue with
      | [] => (.popped none,[])
      | item :: rest => (.popped (some item),rest)

def contents (capacity : Nat) (operations : List (Operation α)) : List α :=
  operations.foldl (fun queue operation => (serve capacity queue operation).2) []

def expected (capacity : Nat) (operations : List (Operation α)) (i : Nat) : Option (Outcome α) :=
  operations[i]?.map fun operation => (serve capacity (contents capacity (operations.take i)) operation).1

def Call.outcome : Call α → Option (Outcome α)
  | ⟨.push _,.pushed _⟩ => some (.pushed true)
  | ⟨.push _,.refused⟩ => some (.pushed false)
  | ⟨.pop,.popped _ item⟩ => some (.popped (some item))
  | ⟨.pop,.refused⟩ => some (.popped none)
  | _ => none

/-- The calls are those of the sequence, each begun after the earlier ones returned. -/
def Serial (operations : List (Operation α)) (s : State α) : Label α → Prop
  | .invoke operation => operations[s.calls.length]? = some operation ∧ ∀ call ∈ s.calls, call.outcome ≠ none
  | _ => True

def Label.accesses : Label α → Nat
  | .access _ => 1
  | _ => 0

def Label.allowance : Label α → Nat
  | .invoke _ => 5
  | .fail _ => 1
  | .access _ => 0

/-- In every serial run a call that has not returned can go on, the calls make no
more than five accesses each and one for each spurious failure, and they return
what the bounded FIFO queue does. -/
def Serves (moved : α → α) (w capacity : Nat) (data : Nat → α) (operations : List (Operation α)) : Prop :=
  ∀ (labels : List (Label α)) (s : State α), run (step moved w capacity) (init data) labels = some s →
    Obeys (step moved w capacity) (Serial operations) (init data) labels →
      (∀ (i : Nat) (call : Call α), s.calls[i]? = some call → call.outcome = none →
        ∃ t, step moved w capacity s (.access i) = some t) ∧
      (labels.map Label.accesses).sum ≤ (labels.map Label.allowance).sum ∧
      ∀ (i : Nat) (call : Call α) (outcome : Outcome α), s.calls[i]? = some call → call.outcome = some outcome →
        expected capacity operations i = some outcome

/-- No `Push` is called on a full queue. -/
def Roomy (capacity : Nat) (operations : List (Operation α)) : Prop :=
  ∀ (i : Nat) (item : α), operations[i]? = some (.push item) →
    (contents capacity (operations.take i)).length < capacity

def State.items (s : State α) : List α := s.pushed.drop s.head

def Call.remaining (call : Call α) : Nat :=
  match call.point with
  | .loadPosition => 5
  | .loadSequence _ => 4
  | .exchange _ => 3
  | .writeData _ | .readData _ => 2
  | .storePushed _ | .storePopped _ _ => 1
  | _ => 0

def State.remaining (s : State α) : Nat := (s.calls.map Call.remaining).sum

/-- What the call that is running knows, with the queue it began on. -/
def Current (capacity : Nat) (s : State α) (queue : List α) : Call α → Prop
  | ⟨.push _,.loadPosition⟩ | ⟨.pop,.loadPosition⟩ => s.items = queue
  | ⟨.push _,.loadSequence pos⟩ => s.items = queue ∧ pos = s.tail
  | ⟨.push _,.exchange pos⟩ => s.items = queue ∧ pos = s.tail ∧ s.tail < s.head + capacity
  | ⟨.push item,.writeData _⟩ | ⟨.push item,.storePushed _⟩ | ⟨.push item,.pushed _⟩ =>
      queue.length < capacity ∧ s.items = queue ++ [item]
  | ⟨.push _,.refused⟩ => ¬ queue.length < capacity ∧ s.items = queue
  | ⟨.pop,.loadSequence pos⟩ => s.items = queue ∧ pos = s.head
  | ⟨.pop,.exchange pos⟩ => s.items = queue ∧ pos = s.head ∧ s.head < s.tail
  | ⟨.pop,.readData pos⟩ => ∃ item, s.pushed[pos]? = some item ∧ queue = item :: s.items
  | ⟨.pop,.storePopped _ item⟩ | ⟨.pop,.popped _ item⟩ => queue = item :: s.items
  | ⟨.pop,.refused⟩ => queue = [] ∧ s.items = []
  | _ => False

def Call.won (call : Call α) : Bool := call.pushTicket.isSome

structure Standing (operations : List (Operation α)) (k : Nat) (s : State α) : Prop where
  inv : Inv (2 ^ k) s
  counted : s.pushed.length = s.calls.countP Call.won
  asked : Every (fun j call => operations[j]? = some call.operation) s.calls
  returned : Every (fun j call => j + 1 < s.calls.length →
    ∃ outcome, call.outcome = some outcome ∧ expected (2 ^ k) operations j = some outcome) s.calls
  current : Every (fun j call => j + 1 = s.calls.length →
    Current (2 ^ k) s (contents (2 ^ k) (operations.take j)) call) s.calls
  unused : s.calls = [] → s.items = []

theorem contents_succ {capacity i : Nat} {operations : List (Operation α)} {operation : Operation α}
    (asked : operations[i]? = some operation) :
    contents capacity (operations.take (i + 1)) =
      (serve capacity (contents capacity (operations.take i)) operation).2 := by
  rw [List.take_add_one,asked,contents,List.foldl_append]
  rfl

theorem items_length {capacity : Nat} (inv : Inv capacity s) : s.items.length = s.tail - s.head := by
  rw [State.items,List.length_drop,inv.tail]

/-- A call that has returned has returned what the queue it began on gives. -/
theorem Current.serves {capacity : Nat} {queue : List α} {call : Call α} {outcome : Outcome α}
    (current : Current capacity s queue call) (returned : call.outcome = some outcome) :
    serve capacity queue call.operation = (outcome,s.items) := by
  obtain ⟨operation,point⟩ := call
  cases operation with
  | push item =>
    cases point with
    | pushed pos =>
      cases returned
      rw [serve,if_pos current.1,current.2]
    | refused =>
      cases returned
      rw [serve,if_neg current.1,current.2]
    | _ => contradiction
  | pop =>
    cases point with
    | popped pos item =>
      cases returned
      rw [current]
      rfl
    | refused =>
      cases returned
      rw [current.1,current.2]
      rfl
    | _ => contradiction

theorem idle_of_returned {call : Call α} {outcome : Outcome α} (returned : call.outcome = some outcome) :
    call.producing = none ∧ call.consuming = none := by
  obtain ⟨operation,point⟩ := call
  cases operation <;> cases point <;> first | contradiction | exact ⟨rfl,rfl⟩

theorem diff_near {seq pos : Nat} (wide : 0 < w) (below : seq < 2 ^ (w - 1)) (bound : pos ≤ 2 ^ (w - 1)) :
    diff w seq pos = (seq : Int) - pos := by
  have double := Nat.two_pow_pred_mul_two wide
  unfold diff
  rw [← Int.sub_bmod,← double]
  exact Int.bmod_eq_of_le (by omega) (by omega)

theorem Inv.vacant_tail (inv : Inv (2 ^ k) s) (unread : ∀ pos, ¬ Held Call.consuming s.calls pos)
    (room : s.tail < s.head + 2 ^ k) : (s.cell (2 ^ k) s.tail).sequence = s.tail := by
  rcases Nat.lt_or_ge s.tail (2 ^ k) with first | lap
  · exact inv.unused s.tail (Nat.le_refl _) first
  · obtain ⟨pos,last⟩ : ∃ pos, s.tail = pos + 2 ^ k := ⟨s.tail - 2 ^ k,by omega⟩
    rw [last,cell_lap]
    exact inv.free pos (by omega) (by omega) (unread pos)

theorem Inv.full_tail (inv : Inv (2 ^ k) s) (unwritten : ∀ pos, ¬ Held Call.producing s.calls pos)
    (full : s.tail = s.head + 2 ^ k) : (s.cell (2 ^ k) s.tail).sequence = s.head + 1 := by
  have size := Nat.two_pow_pos k
  rw [full,cell_lap]
  exact (inv.stored s.head (Nat.le_refl _) (by omega) (unwritten s.head)).1

/-- No call is between its exchange and its store. -/
structure Quiet (s : State α) : Prop where
  unwritten : ∀ pos, ¬ Held Call.producing s.calls pos
  unread : ∀ pos, ¬ Held Call.consuming s.calls pos

theorem quiet_of_idle (idle : ∀ (j : Nat) (call : Call α), s.calls[j]? = some call →
    call.producing = none ∧ call.consuming = none) : Quiet s := by
  constructor
  · intro pos held
    obtain ⟨j,call,found,owns⟩ := held
    simp [(idle j call found).1] at owns
  · intro pos held
    obtain ⟨j,call,found,owns⟩ := held
    simp [(idle j call found).2] at owns

theorem quiet_of_returned (returned : ∀ call ∈ s.calls, call.outcome ≠ none) : Quiet s := by
  refine quiet_of_idle fun j call found => ?_
  obtain ⟨outcome,done⟩ := Option.ne_none_iff_exists'.mp (returned call (List.mem_of_getElem? found))
  exact idle_of_returned done

theorem Standing.last {operations : List (Operation α)} (standing : Standing operations k s) {i : Nat} {call : Call α}
    (found : s.calls[i]? = some call) (running : call.outcome = none) : i + 1 = s.calls.length := by
  rcases Nat.lt_or_ge (i + 1) s.calls.length with earlier | last
  · obtain ⟨outcome,returned,_⟩ := standing.returned i call found earlier
    simp [running] at returned
  · have inside := get_lt found
    omega

theorem Standing.quiet {operations : List (Operation α)} (standing : Standing operations k s) {i : Nat} {call : Call α}
    (found : s.calls[i]? = some call) (last : i + 1 = s.calls.length) (idle : call.producing = none ∧ call.consuming = none) :
    Quiet s := by
  have all (j : Nat) (other : Call α) (present : s.calls[j]? = some other) :
      other.producing = none ∧ other.consuming = none := by
    rcases Nat.lt_or_ge (j + 1) s.calls.length with earlier | late
    · obtain ⟨outcome,returned,_⟩ := standing.returned j other present earlier
      exact idle_of_returned returned
    · have inside := get_lt present
      obtain rfl : i = j := by omega
      obtain rfl : call = other := Option.some.inj (found.symm.trans present)
      exact idle
  exact quiet_of_idle all

/-- What an access makes of the running call. -/
structure Goes (moved : α → α) (w k : Nat) (s : State α) (i : Nat) (queue : List α) (call next : Call α) (t : State α) :
    Prop where
  taken : advance moved w (2 ^ k) s i call = some t
  calls : t.calls = s.calls.set i next
  operation : next.operation = call.operation
  nearer : next.remaining + 1 ≤ call.remaining
  current : Current (2 ^ k) t queue next

section Access
variable {i : Nat} {queue : List α} (inv : Inv (2 ^ k) s) (fits : k < w) (few : s.pushed.length < 2 ^ (w - 1))

include inv fits few

theorem push_sequence {item : α} {pos : Nat} (quiet : Quiet s) (roomy : 1 ≤ k ∨ queue.length < 2 ^ k)
    (current : Current (2 ^ k) s queue ⟨.push item,.loadSequence pos⟩) :
    ∃ next t, Goes moved w k s i queue ⟨.push item,.loadSequence pos⟩ next t := by
  obtain ⟨items,rfl⟩ := current
  have tail := inv.tail
  have bounded := inv.bounded
  have length := items_length inv
  rw [items] at length
  have wide : 0 < w := by omega
  by_cases room : s.tail < s.head + 2 ^ k
  · have seq := inv.vacant_tail quiet.unread room
    have zero : diff w (s.cell (2 ^ k) s.tail).sequence s.tail = 0 := by
      rw [seq,diff_near wide (by omega) (by omega)]
      omega
    refine ⟨⟨.push item,.exchange s.tail⟩,s.goto i ⟨.push item,.exchange s.tail⟩,?_,rfl,rfl,Nat.le_refl _,items,rfl,room⟩
    simp only [advance,zero,compared,if_true]
  · have full : s.tail = s.head + 2 ^ k := by omega
    have ordered := inv.ordered
    have several : 1 ≤ k := roomy.resolve_right (by omega)
    have pair := Nat.le_self_pow (by omega : k ≠ 0) 2
    have seq := inv.full_tail quiet.unwritten full
    have negative : diff w (s.cell (2 ^ k) s.tail).sequence s.tail < 0 := by
      rw [seq,diff_near wide (by omega) (by omega)]
      omega
    refine ⟨⟨.push item,.refused⟩,s.goto i ⟨.push item,.refused⟩,?_,rfl,rfl,by simp [Call.remaining],by omega,items⟩
    simp only [advance,compared,if_neg (Int.ne_of_lt negative),if_pos negative]

theorem pop_sequence {pos : Nat} (quiet : Quiet s)
    (current : Current (2 ^ k) s queue ⟨.pop,.loadSequence pos⟩) :
    ∃ next t, Goes moved w k s i queue ⟨.pop,.loadSequence pos⟩ next t := by
  obtain ⟨items,rfl⟩ := current
  have tail := inv.tail
  have ordered := inv.ordered
  have length := items_length inv
  have wide : 0 < w := by omega
  have wrap := (inv.no_wrap fits few ordered).1
  by_cases some : s.head < s.tail
  · have seq := (inv.stored s.head (Nat.le_refl _) some (quiet.unwritten _)).1
    have zero : diff w (s.cell (2 ^ k) s.head).sequence ((s.head + 1) % 2 ^ w) = 0 := by
      rw [seq,wrap,diff_near wide (by omega) (by omega)]
      omega
    refine ⟨⟨.pop,.exchange s.head⟩,s.goto i ⟨.pop,.exchange s.head⟩,?_,rfl,rfl,Nat.le_refl _,items,rfl,some⟩
    simp only [advance,zero,compared,if_true]
  · have empty : s.head = s.tail := by omega
    have size := Nat.two_pow_pos k
    have seq := inv.vacant_tail quiet.unread (by omega)
    rw [← empty] at seq
    have negative : diff w (s.cell (2 ^ k) s.head).sequence ((s.head + 1) % 2 ^ w) < 0 := by
      rw [seq,wrap,diff_near wide (by omega) (by omega)]
      omega
    have none : s.items = [] := List.length_eq_zero_iff.mp (by omega)
    refine ⟨⟨.pop,.refused⟩,s.goto i ⟨.pop,.refused⟩,?_,rfl,rfl,by simp [Call.remaining],items.symm.trans none,none⟩
    simp only [advance,compared,if_neg (Int.ne_of_lt negative),if_pos negative]

theorem pop_exchange {pos : Nat} (current : Current (2 ^ k) s queue ⟨.pop,.exchange pos⟩) :
    ∃ next t, Goes moved w k s i queue ⟨.pop,.exchange pos⟩ next t := by
  obtain ⟨items,rfl,some⟩ := current
  have wrap := (inv.no_wrap fits few (Nat.le_of_lt some)).1
  have inside : s.head < s.pushed.length := by
    rw [← inv.tail]
    exact some
  refine ⟨⟨.pop,.readData s.head⟩,_,if_pos rfl,rfl,rfl,Nat.le_refl _,s.pushed[s.head],
    List.getElem?_eq_getElem inside,?_⟩
  rw [← items,State.items,List.drop_eq_getElem_cons inside,State.items,wrap]
  rfl

variable (moved) in
theorem access_goes {call : Call α} (found : s.calls[i]? = some call) (quiet : call.producing = none ∧ call.consuming = none → Quiet s)
    (roomy : 1 ≤ k ∨ ∀ item, call.operation = .push item → queue.length < 2 ^ k)
    (current : Current (2 ^ k) s queue call) (running : call.outcome = none) :
    ∃ next t, Goes moved w k s i queue call next t := by
  obtain ⟨operation,point⟩ := call
  cases operation with
  | push item =>
    cases point with
    | loadPosition => exact ⟨_,_,rfl,rfl,rfl,Nat.le_refl _,current,rfl⟩
    | loadSequence pos =>
      exact push_sequence inv fits few (quiet ⟨rfl,rfl⟩) (roomy.imp_right fun room => room item rfl) current
    | exchange pos =>
      obtain ⟨items,rfl,room⟩ := current
      have ordered := inv.ordered
      have length := items_length inv
      rw [items] at length
      refine ⟨⟨.push item,.writeData s.tail⟩,_,if_pos rfl,rfl,rfl,Nat.le_refl _,by omega,?_⟩
      have inside : s.head ≤ s.pushed.length := by
        rw [← inv.tail]
        exact ordered
      change (s.pushed ++ [item]).drop s.head = queue ++ [item]
      rw [List.drop_append_of_le_length inside]
      exact congrArg (· ++ [item]) items
    | writeData pos => exact ⟨_,_,rfl,rfl,rfl,Nat.le_refl _,current⟩
    | storePushed pos => exact ⟨_,_,rfl,rfl,rfl,Nat.le_refl _,current⟩
    | _ => contradiction
  | pop =>
    cases point with
    | loadPosition => exact ⟨_,_,rfl,rfl,rfl,Nat.le_refl _,current,rfl⟩
    | loadSequence pos => exact pop_sequence inv fits few (quiet ⟨rfl,rfl⟩) current
    | exchange pos => exact pop_exchange inv fits few current
    | readData pos =>
      obtain ⟨item,written,front⟩ := current
      have data : s.pushed[pos]? = some (s.cell (2 ^ k) pos).data := inv.facts i _ found
      obtain rfl : item = (s.cell (2 ^ k) pos).data := Option.some.inj (written.symm.trans data)
      exact ⟨_,_,rfl,rfl,rfl,Nat.le_refl _,front⟩
    | storePopped pos item => exact ⟨_,_,rfl,rfl,rfl,Nat.le_refl _,current⟩
    | _ => contradiction

end Access

/-- As many items as calls that have won a position for theirs. -/
theorem Moves.counted (moves : Moves moved w (2 ^ k) s t) (counted : s.pushed.length = s.calls.countP Call.won) :
    t.pushed.length = t.calls.countP Call.won := by
  have keep {i : Nat} {old next : Call α} (found : s.calls[i]? = some old) (same : next.pushTicket = old.pushTicket) :
      s.pushed.length = (s.calls.set i next).countP Call.won := by
    rw [count_keep Call.won next found (congrArg Option.isSome same)]
    exact counted
  cases moves with
  | invoke operation =>
    change s.pushed.length = (s.calls ++ [(⟨operation,.loadPosition⟩ : Call α)]).countP Call.won
    rw [List.countP_append,counted]
    cases operation <;> rfl
  | claimPush i item found =>
    have won := count_set Call.won (⟨.push item,.writeData s.tail⟩ : Call α) found
    change (s.pushed ++ [item]).length = (s.calls.set i ⟨.push item,.writeData s.tail⟩).countP Call.won
    rw [List.length_append,counted]
    exact won.symm
  | loadTail i item point found loads | loadHead i point found loads =>
    exact keep found (by rcases loads with rfl | ⟨pos,rfl⟩ <;> rfl)
  | comparePush i item pos found | comparePop i pos found => exact keep found (compared_tickets _ _ _).1
  | writeData i item pos found => exact @keep i _ ⟨.push item,.storePushed pos⟩ found rfl
  | storePushed i item pos found => exact @keep i _ ⟨.push item,.pushed pos⟩ found rfl
  | claimPop i found => exact @keep i _ ⟨.pop,.readData s.head⟩ found rfl
  | readData i pos found => exact @keep i _ ⟨.pop,.storePopped pos (s.cell (2 ^ k) pos).data⟩ found rfl
  | storePopped i pos item found => exact @keep i _ ⟨.pop,.popped pos item⟩ found rfl

section Standing
variable {operations : List (Operation α)} (standing : Standing operations k s)

include standing

theorem Standing.calls_le : s.calls.length ≤ operations.length := by
  rcases Nat.eq_zero_or_pos s.calls.length with none | some
  · omega
  · have found := List.getElem?_eq_getElem (Nat.sub_lt some Nat.one_pos)
    have inside := get_lt (standing.asked _ _ found)
    omega

theorem Standing.few (short : operations.length < 2 ^ (w - 1)) : s.pushed.length < 2 ^ (w - 1) := by
  have won : s.pushed.length ≤ s.calls.length := standing.counted ▸ List.countP_le_length
  exact Nat.lt_of_le_of_lt (Nat.le_trans won standing.calls_le) short

theorem Standing.moves (fits : k < w) (short : operations.length < 2 ^ (w - 1)) {label : Label α}
    (taken : step moved w (2 ^ k) s label = some t) : Inv (2 ^ k) t ∧ t.pushed.length = t.calls.countP Call.won := by
  have moves := step_moves moved w (2 ^ k) s t label taken
  refine ⟨standing.inv.moves_room fits (standing.few short) (fun i item found => ?_) moves,moves.counted standing.counted⟩
  have last := standing.last found rfl
  have known := standing.current i _ found last
  exact ⟨known.2.2,fun pos held => absurd held ((standing.quiet found last ⟨rfl,rfl⟩).unread pos)⟩

theorem Standing.set {i : Nat} {call next : Call α} (found : s.calls[i]? = some call) (last : i + 1 = s.calls.length)
    (inv : Inv (2 ^ k) t) (counted : t.pushed.length = t.calls.countP Call.won) (calls : t.calls = s.calls.set i next)
    (operation : next.operation = call.operation)
    (current : Current (2 ^ k) t (contents (2 ^ k) (operations.take i)) next) : Standing operations k t := by
  have length : t.calls.length = s.calls.length := by rw [calls,List.length_set]
  refine ⟨inv,counted,?_,?_,?_,fun none => ?_⟩
  · rw [calls]
    exact standing.asked.set (operation ▸ standing.asked i call found)
  · rw [length,calls]
    exact standing.returned.set fun earlier => absurd last (Nat.ne_of_lt earlier)
  · rw [length,calls]
    intro j other present own
    obtain rfl : i = j := by omega
    obtain rfl : next = other := Option.some.inj ((get_self found).symm.trans present)
    exact current
  · rw [none] at length
    have inside := get_lt found
    simp at length
    omega

/-- All that has returned has left the queue it should. -/
theorem Standing.settled (returned : ∀ call ∈ s.calls, call.outcome ≠ none) :
    Every (fun j call => ∃ outcome, call.outcome = some outcome ∧ expected (2 ^ k) operations j = some outcome) s.calls ∧
      s.items = contents (2 ^ k) (operations.take s.calls.length) := by
  have last {j : Nat} {call : Call α} (found : s.calls[j]? = some call) (own : j + 1 = s.calls.length) :
      ∃ outcome, call.outcome = some outcome ∧
        serve (2 ^ k) (contents (2 ^ k) (operations.take j)) call.operation = (outcome,s.items) := by
    obtain ⟨outcome,done⟩ := Option.ne_none_iff_exists'.mp (returned call (List.mem_of_getElem? found))
    exact ⟨outcome,done,(standing.current j call found own).serves done⟩
  constructor
  · intro j call found
    rcases Nat.lt_or_ge (j + 1) s.calls.length with earlier | late
    · exact standing.returned j call found earlier
    · have inside := get_lt found
      obtain ⟨outcome,done,served⟩ := last found (by omega)
      refine ⟨outcome,done,?_⟩
      rw [expected,standing.asked j call found,Option.map_some,served]
  · rcases Nat.eq_zero_or_pos s.calls.length with none | some
    · rw [none]
      exact standing.unused (List.length_eq_zero_iff.mp none)
    · have found := List.getElem?_eq_getElem (Nat.sub_lt some Nat.one_pos)
      obtain ⟨outcome,done,served⟩ := last found (by omega)
      have length : s.calls.length = s.calls.length - 1 + 1 := by omega
      rw [length,contents_succ (standing.asked _ _ found),served]

theorem Standing.invoke {operation : Operation α} (asked : operations[s.calls.length]? = some operation)
    (returned : ∀ call ∈ s.calls, call.outcome ≠ none)
    (inv : Inv (2 ^ k) {s with calls := s.calls ++ [⟨operation,.loadPosition⟩]})
    (counted : s.pushed.length = (s.calls ++ [(⟨operation,.loadPosition⟩ : Call α)]).countP Call.won) :
    Standing operations k {s with calls := s.calls ++ [⟨operation,.loadPosition⟩]} := by
  obtain ⟨settled,items⟩ := standing.settled returned
  refine ⟨inv,counted,standing.asked.append asked,?_,?_,fun none => ?_⟩
  · intro j call found earlier
    rcases get_append found with kept | ⟨rfl,_⟩
    · exact settled j call kept
    · simp at earlier
  · intro j call found last
    rcases get_append found with kept | ⟨rfl,rfl⟩
    · have inside := get_lt kept
      simp at last
      omega
    · cases operation <;> exact items
  · simp at none

end Standing

section Runs
variable {operations : List (Operation α)} (fits : k < w) (short : operations.length < 2 ^ (w - 1))
  (roomy : 1 ≤ k ∨ Roomy (2 ^ k) operations)

include fits short roomy

variable (moved) in
theorem Standing.access (standing : Standing operations k s) {i : Nat} {call : Call α} (found : s.calls[i]? = some call)
    (running : call.outcome = none) :
    ∃ t, step moved w (2 ^ k) s (.access i) = some t ∧ Standing operations k t ∧
      t.calls.length = s.calls.length ∧ t.remaining + 1 ≤ s.remaining := by
  have last := standing.last found running
  have asked := standing.asked i call found
  have room : 1 ≤ k ∨ ∀ item, call.operation = .push item →
      (contents (2 ^ k) (operations.take i)).length < 2 ^ k := by
    refine roomy.imp_right fun room item push => room i item ?_
    rw [asked,push]
  obtain ⟨next,t,goes⟩ := access_goes moved standing.inv fits (standing.few short) found
    (standing.quiet found last) room (standing.current i call found last) running
  have taken : step moved w (2 ^ k) s (.access i) = some t := by
    simp only [step,found,Option.bind_some,goes.taken]
  obtain ⟨inv,counted⟩ := standing.moves fits short taken
  refine ⟨t,taken,standing.set found last inv counted goes.calls goes.operation goes.current,
    by rw [goes.calls,List.length_set],?_⟩
  have sum := sum_set Call.remaining next found
  have nearer := goes.nearer
  unfold State.remaining
  rw [goes.calls]
  omega

omit fits short roomy in
theorem access_running {i : Nat} (taken : step moved w (2 ^ k) s (.access i) = some t) :
    ∃ call, s.calls[i]? = some call ∧ call.outcome = none := by
  obtain ⟨⟨operation,point⟩,found,accessed⟩ := Option.bind_eq_some_iff.mp taken
  refine ⟨_,found,?_⟩
  cases operation <;> cases point <;> first | rfl | contradiction

omit roomy in
theorem Standing.fail (standing : Standing operations k s) {i : Nat}
    (taken : step moved w (2 ^ k) s (.fail i) = some t) :
    Standing operations k t ∧ t.remaining ≤ s.remaining + 1 := by
  obtain ⟨inv,counted⟩ := standing.moves fits short taken
  have back {operation : Operation α} {pos : Nat} {next : Call α} (found : s.calls[i]? = some ⟨operation,.exchange pos⟩)
      (running : (⟨operation,.exchange pos⟩ : Call α).outcome = none) (calls : t.calls = s.calls.set i next)
      (same : next.operation = operation) (loads : next.remaining = 4)
      (knows : ∀ queue, Current (2 ^ k) s queue ⟨operation,.exchange pos⟩ → Current (2 ^ k) t queue next) :
      Standing operations k t ∧ t.remaining ≤ s.remaining + 1 := by
    have last := standing.last found running
    refine ⟨standing.set found last inv counted calls same (knows _ (standing.current i _ found last)),?_⟩
    have sum := sum_set Call.remaining next found
    have before : (⟨operation,.exchange pos⟩ : Call α).remaining = 3 := rfl
    unfold State.remaining
    rw [calls]
    omega
  simp only [step] at taken
  split at taken
  next item pos found =>
    cases taken
    exact @back _ _ ⟨.push item,.loadSequence s.tail⟩ found rfl rfl rfl rfl fun queue known => ⟨known.1,rfl⟩
  next pos found =>
    cases taken
    exact @back _ _ ⟨.pop,.loadSequence s.head⟩ found rfl rfl rfl rfl fun queue known => ⟨known.1,rfl⟩
  next => contradiction

variable (moved) in
theorem standing_step (s : State α) (label : Label α) (t : State α) (standing : Standing operations k s)
    (serial : Serial operations s label) (taken : step moved w (2 ^ k) s label = some t) :
    Standing operations k t ∧ label.accesses + t.remaining ≤ s.remaining + label.allowance := by
  cases label with
  | invoke operation =>
    obtain ⟨inv,counted⟩ := standing.moves fits short taken
    cases taken
    refine ⟨standing.invoke serial.1 serial.2 inv counted,?_⟩
    simp only [State.remaining,List.map_append,List.sum_append]
    exact Nat.le_of_eq (Nat.zero_add _)
  | access i =>
    obtain ⟨call,found,running⟩ := access_running taken
    obtain ⟨other,same,kept,_,nearer⟩ := standing.access moved fits short roomy found running
    obtain rfl : other = t := Option.some.inj (same.symm.trans taken)
    refine ⟨kept,?_⟩
    simp only [Label.accesses,Label.allowance]
    omega
  | fail i =>
    obtain ⟨kept,nearer⟩ := standing.fail fits short taken
    refine ⟨kept,?_⟩
    simp only [Label.accesses,Label.allowance]
    omega

omit fits short roomy in
theorem standing_init (data : Nat → α) : Standing operations k (init data) :=
  ⟨(inv_init k data).1,rfl,Every.nil _,Every.nil _,Every.nil _,fun _ => rfl⟩

theorem standing_run {data : Nat → α} {labels : List (Label α)}
    (reached : run (step moved w (2 ^ k)) (init data) labels = some s)
    (serial : Obeys (step moved w (2 ^ k)) (Serial operations) (init data) labels) :
    Standing operations k s ∧ (labels.map Label.accesses).sum ≤ (labels.map Label.allowance).sum := by
  have standing := run_invariant_obeying (Standing operations k) (Serial operations)
    (fun state label next holds obeyed taken => (standing_step moved fits short roomy state label next holds obeyed taken).1)
    (standing_init data) serial reached
  have paid := run_bound (Standing operations k) (Serial operations) Label.accesses Label.allowance State.remaining
    (fun state label next holds obeyed taken => (standing_step moved fits short roomy state label next holds obeyed taken).1)
    (fun state label next holds obeyed taken => (standing_step moved fits short roomy state label next holds obeyed taken).2)
    (standing_init data) serial reached
  have none : (init data).remaining = 0 := rfl
  exact ⟨standing,by omega⟩

theorem serves_of_roomy (data : Nat → α) : Serves moved w (2 ^ k) data operations := by
  intro labels s reached serial
  obtain ⟨standing,bounded⟩ := standing_run fits short roomy reached serial
  refine ⟨fun i call found running => ?_,bounded,fun i call outcome found returned => ?_⟩
  · obtain ⟨t,taken,_⟩ := standing.access moved fits short roomy found running
    exact ⟨t,taken⟩
  · rcases Nat.lt_or_ge (i + 1) s.calls.length with earlier | late
    · obtain ⟨other,done,right⟩ := standing.returned i call found earlier
      exact right.trans (done.symm.trans returned)
    · have inside := get_lt found
      have served := (standing.current i call found (by omega)).serves returned
      rw [expected,standing.asked i call found,Option.map_some,served]

variable (moved) in
/-- The whole sequence can be called, one call after another. -/
theorem serial_complete (data : Nat → α) :
    ∃ labels s, Obeys (step moved w (2 ^ k)) (Serial operations) (init data) labels ∧
      run (step moved w (2 ^ k)) (init data) labels = some s ∧ Standing operations k s ∧
      s.calls.length = operations.length ∧ ∀ call ∈ s.calls, call.outcome ≠ none := by
  refine run_to_goal_obeying (Standing operations k) (Serial operations)
    (fun state => 6 * (operations.length - state.calls.length) + state.remaining) (fun state standing unmet => ?_)
    (init data) (standing_init data)
  by_cases returned : ∀ call ∈ state.calls, call.outcome ≠ none
  · have calls := standing.calls_le
    have more : state.calls.length < operations.length := by
      rcases Nat.lt_or_eq_of_le calls with more | all
      · exact more
      · exact absurd ⟨all,returned⟩ unmet
    have asked := List.getElem?_eq_getElem more
    have serial : Serial operations state (.invoke operations[state.calls.length]) := ⟨asked,returned⟩
    obtain ⟨kept,paid⟩ := standing_step moved fits short roomy state _ _ standing serial rfl
    refine ⟨_,_,serial,rfl,kept,?_⟩
    simp only [Label.accesses,Label.allowance,List.length_append,List.length_singleton] at paid ⊢
    omega
  · push Not at returned
    obtain ⟨call,member,running⟩ := returned
    obtain ⟨i,found⟩ := List.mem_iff_getElem?.mp member
    obtain ⟨t,taken,kept,length,nearer⟩ := standing.access moved fits short roomy found running
    refine ⟨.access i,t,trivial,taken,kept,?_⟩
    rw [length]
    omega

end Runs

/-- An access of the call that was made last. -/
theorem access_last {capacity : Nat} {calls : List (Call α)} {call : Call α} (last : s.calls = calls ++ [call])
    (next : Call α) (goes : advance moved w capacity s calls.length call = some t)
    (after : t.calls = s.calls.set calls.length next) :
    step moved w capacity s (.access calls.length) = some t ∧ t.calls = calls ++ [next] := by
  constructor
  · rw [step,last,List.getElem?_concat_length,Option.bind_some]
    exact goes
  · rw [after,last,List.set_append_right _ _ (Nat.le_refl _),Nat.sub_self]
    rfl

variable (moved) in
/-- A `Push` with no other call, where the cell at the tail reads as free. -/
theorem push_free {capacity : Nat} (free : diff w (s.cell capacity s.tail).sequence s.tail = 0) (item : α) :
    ∃ t, run (step moved w capacity) s (.invoke (.push item) :: List.replicate 5 (.access s.calls.length)) = some t ∧
      t.calls = s.calls ++ [⟨.push item,.pushed s.tail⟩] ∧ t.head = s.head ∧ t.pushed = s.pushed ++ [item] := by
  have equal (state : State α) (i : Nat) (same : state.cell capacity s.tail = s.cell capacity s.tail) :
      advance moved w capacity state i ⟨.push item,.loadSequence s.tail⟩ =
        some (state.goto i ⟨.push item,.exchange s.tail⟩) := by
    rw [← same] at free
    simp only [advance,free,compared,if_true]
  obtain ⟨first,loaded⟩ := access_last (s := {s with calls := s.calls ++ [⟨.push item,.loadPosition⟩]}) rfl
    ⟨.push item,.loadSequence s.tail⟩ rfl rfl
  obtain ⟨second,passed⟩ := access_last loaded ⟨.push item,.exchange s.tail⟩ (equal _ _ rfl) rfl
  obtain ⟨third,won⟩ := access_last passed ⟨.push item,.writeData s.tail⟩ (if_pos rfl) rfl
  obtain ⟨fourth,written⟩ := access_last won ⟨.push item,.storePushed s.tail⟩ rfl rfl
  obtain ⟨fifth,stored⟩ := access_last written ⟨.push item,.pushed s.tail⟩ rfl rfl
  exact ⟨_,run_step rfl (run_step first (run_step second (run_step third (run_step fourth (run_step fifth rfl))))),
    stored,rfl,rfl⟩

section Alone
variable (moved) (inv : Inv (2 ^ k) s) (quiet : Quiet s)

include inv quiet

theorem push_alone (wide : 0 < w) (few : s.pushed.length < 2 ^ (w - 1)) (room : s.tail < s.head + 2 ^ k) (item : α) :
    ∃ t, run (step moved w (2 ^ k)) s (.invoke (.push item) :: List.replicate 5 (.access s.calls.length)) = some t ∧
      t.calls = s.calls ++ [⟨.push item,.pushed s.tail⟩] ∧ t.head = s.head ∧ t.pushed = s.pushed ++ [item] := by
  have tail := inv.tail
  have seq := inv.vacant_tail quiet.unread room
  have zero : diff w (s.cell (2 ^ k) s.tail).sequence s.tail = 0 := by
    rw [seq,diff_near wide (by omega) (by omega)]
    omega
  exact push_free moved zero item

theorem pop_alone (fits : k < w) (few : s.pushed.length < 2 ^ (w - 1)) (waiting : s.head < s.tail) :
    ∃ t item, run (step moved w (2 ^ k)) s (.invoke .pop :: List.replicate 5 (.access s.calls.length)) = some t ∧
      t.calls = s.calls ++ [⟨.pop,.popped s.head item⟩] ∧ t.head = s.head + 1 ∧ t.pushed = s.pushed := by
  have tail := inv.tail
  have wrap := (inv.no_wrap fits few (Nat.le_of_lt waiting)).1
  have seq := (inv.stored s.head (Nat.le_refl _) waiting (quiet.unwritten _)).1
  have zero : diff w (s.cell (2 ^ k) s.head).sequence ((s.head + 1) % 2 ^ w) = 0 := by
    rw [seq,wrap,diff_near (by omega) (by omega) (by omega)]
    omega
  have equal (state : State α) (i : Nat) (same : state.cell (2 ^ k) s.head = s.cell (2 ^ k) s.head) :
      advance moved w (2 ^ k) state i ⟨.pop,.loadSequence s.head⟩ = some (state.goto i ⟨.pop,.exchange s.head⟩) := by
    rw [← same] at zero
    simp only [advance,zero,compared,if_true]
  obtain ⟨first,loaded⟩ := access_last (s := {s with calls := s.calls ++ [⟨.pop,.loadPosition⟩]}) rfl
    ⟨.pop,.loadSequence s.head⟩ rfl rfl
  obtain ⟨second,passed⟩ := access_last loaded ⟨.pop,.exchange s.head⟩ (equal _ _ rfl) rfl
  obtain ⟨third,won⟩ := access_last passed ⟨.pop,.readData s.head⟩ (if_pos rfl) rfl
  obtain ⟨fourth,read⟩ := access_last won ⟨.pop,.storePopped s.head _⟩ rfl rfl
  obtain ⟨fifth,stored⟩ := access_last read ⟨.pop,.popped s.head _⟩ rfl rfl
  exact ⟨_,_,run_step rfl (run_step first (run_step second (run_step third (run_step fourth (run_step fifth rfl))))),
    stored,wrap,rfl⟩

end Alone

variable (moved) in
/-- With one cell a full queue and a free cell read the same, and a `Push` on a
full queue writes over its item. -/
theorem push_full {operations : List (Operation α)} (standing : Standing operations 0 s) (wide : 0 < w)
    (short : operations.length < 2 ^ (w - 1)) (returned : ∀ call ∈ s.calls, call.outcome ≠ none) (item : α)
    (full : s.items.length = 1) :
    ∃ t, run (step moved w (2 ^ 0)) s
        (.invoke (.push item) :: List.replicate 5 (.access s.calls.length)) = some t ∧
      t.calls = s.calls ++ [⟨.push item,.pushed s.tail⟩] := by
  have few := standing.few short
  have tail := standing.inv.tail
  have length := items_length standing.inv
  have seq := standing.inv.full_tail (quiet_of_returned returned).unwritten (by simp only [pow_zero]; omega)
  have zero : diff w (s.cell (2 ^ 0) s.tail).sequence s.tail = 0 := by
    rw [seq,diff_near wide (by omega) (by omega)]
    omega
  obtain ⟨t,reached,calls,_⟩ := push_free moved zero item
  exact ⟨t,reached,calls⟩

theorem roomy_of_serves {data : Nat → α} {operations : List (Operation α)} (wide : 0 < w)
    (short : operations.length < 2 ^ (w - 1)) (serves : Serves moved w (2 ^ 0) data operations) :
    Roomy (2 ^ 0) operations := by
  intro i
  induction i using Nat.strongRecOn with
  | ind i ih =>
    intro item asked
    by_contra full
    have inside := get_lt asked
    have length : (operations.take i).length = i := by
      rw [List.length_take]
      omega
    have earlier : Roomy (2 ^ 0) (operations.take i) := by
      intro j other found
      have below := get_lt found
      rw [List.getElem?_take_of_lt (by omega)] at found
      have room := ih j (by omega) other found
      rwa [List.take_take,Nat.min_eq_left (by omega)]
    have fewer : (operations.take i).length < 2 ^ (w - 1) := by omega
    obtain ⟨labels,s,serial,reached,standing,calls,returned⟩ :=
      serial_complete moved wide fewer (Or.inr earlier) data
    have items := (standing.settled returned).2
    rw [calls,List.take_length] at items
    have one : s.items.length = 1 := by
      have bounded := standing.inv.bounded
      have held := items_length standing.inv
      rw [← items] at full
      rw [pow_zero] at bounded full
      omega
    obtain ⟨t,taken,last⟩ := push_full moved standing wide fewer returned item one
    have whole := run_trans reached taken
    have follows : Obeys (step moved w (2 ^ 0)) (Serial operations) (init data)
        (labels ++ .invoke (.push item) :: List.replicate 5 (.access s.calls.length)) := by
      refine obeys_append (obeys_imp (fun state label obeyed => ?_) serial) reached ⟨⟨?_,returned⟩,?_⟩
      · cases label with
        | invoke operation =>
          refine ⟨?_,obeyed.2⟩
          have below := get_lt obeyed.1
          rw [← obeyed.1,List.getElem?_take_of_lt (by omega)]
        | _ => trivial
      · rw [calls,length]
        exact asked
      · exact fun next _ => obeys_of_labels (fun label member state => by
          rw [List.eq_of_mem_replicate member]
          trivial) next
    have found : t.calls[i]? = some ⟨.push item,.pushed s.tail⟩ := by
      rw [last,← length,← calls,List.getElem?_concat_length]
    have right := (serves _ t whole follows).2.2 i _ _ found rfl
    rw [expected,asked,Option.map_some,serve,if_neg full] at right
    simp at right

/-- A capacity of one is admitted and is served only as long as no `Push` is
called on the item it holds. -/
theorem serves_iff {data : Nat → α} {operations : List (Operation α)} (fits : k < w)
    (short : operations.length < 2 ^ (w - 1)) :
    Serves moved w (2 ^ k) data operations ↔ 1 ≤ k ∨ Roomy (2 ^ k) operations := by
  constructor
  · intro serves
    rcases Nat.eq_zero_or_pos k with rfl | several
    · exact Or.inr (roomy_of_serves fits short serves)
    · exact Or.inl several
  · exact fun roomy => serves_of_roomy fits short roomy data

theorem serves_iff_two_cells : Serves id 64 (2 ^ 1) (fun _ => 0) [.push 1,.push 2,.push 3,.pop] :=
  (serves_iff (by decide) (by decide)).mpr (Or.inl (by decide))

/-- The second `Push` writes over the item of the first and returns true. -/
theorem writes_over : ¬ Serves id 64 (2 ^ 0) (fun _ => 0) [.push 1,.push 2] := by
  intro serves
  obtain ⟨s,first,calls⟩ := Option.map_eq_some_iff.mp (show (run (step id 64 (2 ^ 0)) (init fun _ => 0)
    [.invoke (.push 1),.access 0,.access 0,.access 0,.access 0,.access 0]).map (fun s => s.calls) =
      some [⟨.push 1,.pushed 0⟩] from rfl)
  obtain ⟨t,whole,last⟩ := Option.map_eq_some_iff.mp (show (run (step id 64 (2 ^ 0)) (init fun _ => 0)
    [.invoke (.push 1),.access 0,.access 0,.access 0,.access 0,.access 0,
      .invoke (.push 2),.access 1,.access 1,.access 1,.access 1,.access 1]).map (fun s => s.calls[1]?) =
      some (some ⟨.push 2,.pushed 1⟩) from rfl)
  have serial : Obeys (step id 64 (2 ^ 0)) (Serial [.push 1,.push 2]) (init fun _ => 0)
      [.invoke (.push 1),.access 0,.access 0,.access 0,.access 0,.access 0] :=
    ⟨⟨rfl,by simp [init]⟩,fun next _ => obeys_of_labels (by simp [Serial]) next⟩
  have follows : Obeys (step id 64 (2 ^ 0)) (Serial [.push 1,.push 2]) s
      [.invoke (.push 2),.access 1,.access 1,.access 1,.access 1,.access 1] :=
    ⟨⟨by rw [calls]; rfl,by simp [calls,Call.outcome]⟩,fun next _ => obeys_of_labels (by simp [Serial]) next⟩
  have right := (serves _ t whole (obeys_append serial first follows)).2.2 1 _ _ last rfl
  exact absurd right (by decide)

end Ezthread.MpmcQueue
