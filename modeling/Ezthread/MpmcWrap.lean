import Ezthread.Lockstep
import Ezthread.MpmcSerial
import Ezthread.Wraparound

/-! The comparisons of `MPMCQueue` in runs of any length whose calls do not overlap.
The machine of `w` bits is the image of one of `v` bits, wide enough for the run
not to wrap, whose positions and sequences are the unbounded counters. -/
namespace Ezthread.MpmcQueue
open Transition Activation RingBuffer Lockstep Wraparound

variable {α : Type*} {moved : α → α} {w v k : Nat} {s t u : State α}

def Label.asks : Label α → Option (Operation α)
  | .invoke operation => some operation
  | _ => none

/-- A call begins only after the earlier ones have returned. -/
def Alone (s : State α) : Label α → Prop
  | .invoke _ => ∀ call ∈ s.calls, call.outcome ≠ none
  | _ => True

/-- The two operands of a call's subtraction, where that is what it does next. -/
def Call.operands (w capacity : Nat) (s : State α) : Call α → Option (Nat × Nat)
  | ⟨.push _,.loadSequence pos⟩ => some ((s.cell capacity pos).sequence,pos)
  | ⟨.pop,.loadSequence pos⟩ => some ((s.cell capacity pos).sequence,(pos + 1) % 2 ^ w)
  | _ => none

/-- Every subtraction about to be made is in the range of `intptr_t`, and its sign is
that of the difference of the unbounded counters. -/
def Told (w v capacity : Nat) (pair : State α × State α) : Prop :=
  ∀ (i : Nat) (call : Call α) (seq pos : Nat), pair.1.calls[i]? = some call →
    call.operands w capacity pair.1 = some (seq,pos) →
    ∃ (wide : Call α) (a b : Nat), pair.2.calls[i]? = some wide ∧ wide.operands v capacity pair.2 = some (a,b) ∧
      seq = a % 2 ^ w ∧ pos = b % 2 ^ w ∧ Fits w (signed w seq - signed w pos) ∧
      (signed w seq - signed w pos).sign = ((a : Int) - b).sign

/-- A full queue whose tail reads as negative while its oldest item's sequence reads
as positive, or an empty one whose head is the largest signed number. -/
def Astride (w capacity : Nat) (s : State α) : Operation α → Prop
  | .push _ => s.tail = (s.head + capacity) % 2 ^ w ∧ 2 ^ (w - 1) ≤ s.tail ∧ s.tail + 1 < 2 ^ (w - 1) + capacity
  | .pop => s.tail = s.head ∧ s.head + 1 = 2 ^ (w - 1)

/-- No call loads its position from such a queue. -/
def Clear (w capacity : Nat) (s : State α) : Label α → Prop
  | .access i => ∀ operation, s.calls[i]? = some ⟨operation,.loadPosition⟩ → ¬ Astride w capacity s operation
  | _ => True

def Point.wrap (w : Nat) : Point α → Point α
  | .loadPosition => .loadPosition
  | .loadSequence pos => .loadSequence (pos % 2 ^ w)
  | .exchange pos => .exchange (pos % 2 ^ w)
  | .writeData pos => .writeData (pos % 2 ^ w)
  | .storePushed pos => .storePushed (pos % 2 ^ w)
  | .readData pos => .readData (pos % 2 ^ w)
  | .storePopped pos item => .storePopped (pos % 2 ^ w) item
  | .pushed pos => .pushed (pos % 2 ^ w)
  | .popped pos item => .popped (pos % 2 ^ w) item
  | .refused => .refused

def Call.wrap (w : Nat) (call : Call α) : Call α := ⟨call.operation,call.point.wrap w⟩

def Cell.wrap (w : Nat) (cell : Cell α) : Cell α := ⟨cell.data,cell.sequence % 2 ^ w⟩

/-- What the low `w` bits of the counters hold; the array has `capacity` cells. -/
def State.wrap (w capacity : Nat) (s : State α) : State α :=
  ⟨s.head % 2 ^ w,s.tail % 2 ^ w,fun i => if i < capacity then (s.buffer i).wrap w else s.buffer i,
    s.calls.map (Call.wrap w),s.pushed⟩

theorem outcome_wrap (call : Call α) : (call.wrap w).outcome = call.outcome := by
  obtain ⟨operation,point⟩ := call
  cases operation <;> cases point <;> rfl

theorem init_wrap (fits : k ≤ w) (data : Nat → α) : (init data).wrap w (2 ^ k) = init data := by
  have lap : 2 ^ k ≤ 2 ^ w := Nat.pow_le_pow_right (by omega) fits
  simp only [State.wrap,init,Nat.zero_mod,List.map_nil]
  congr 1
  funext i
  split_ifs with inside
  · simp only [Cell.wrap,Nat.mod_eq_of_lt (Nat.lt_of_lt_of_le inside lap)]
  · rfl

theorem goto_wrap (i : Nat) (call : Call α) : (s.goto i call).wrap w (2 ^ k) = (s.wrap w (2 ^ k)).goto i (call.wrap w) := by
  simp only [State.wrap,State.goto,List.map_set]

theorem slot_wrap (fits : k ≤ w) (pos : Nat) : slot (2 ^ k) (pos % 2 ^ w) = slot (2 ^ k) pos := by
  rw [slot_eq,slot_eq,Nat.mod_mod_of_dvd _ (Nat.pow_dvd_pow 2 fits)]

theorem slot_lt (k pos : Nat) : slot (2 ^ k) pos < 2 ^ k := by
  rw [slot_eq]
  exact Nat.mod_lt _ (Nat.two_pow_pos k)

theorem cell_wrap (fits : k ≤ w) (pos : Nat) :
    (s.wrap w (2 ^ k)).cell (2 ^ k) (pos % 2 ^ w) = (s.cell (2 ^ k) pos).wrap w := by
  rw [State.cell,slot_wrap fits,State.wrap]
  exact if_pos (slot_lt k pos)

theorem setCell_wrap (fits : k ≤ w) (pos : Nat) (cell : Cell α) :
    (s.setCell (2 ^ k) pos cell).wrap w (2 ^ k) = (s.wrap w (2 ^ k)).setCell (2 ^ k) (pos % 2 ^ w) (cell.wrap w) := by
  simp only [State.wrap,State.setCell,slot_wrap fits]
  congr 1
  funext i
  by_cases own : i = slot (2 ^ k) pos
  · subst own
    simp [slot_lt]
  · simp [own]

theorem add_wrap (le : w ≤ v) (pos more : Nat) : (pos % 2 ^ w + more) % 2 ^ w = (pos + more) % 2 ^ v % 2 ^ w := by
  rw [Nat.mod_add_mod,Nat.mod_mod_of_dvd _ (Nat.pow_dvd_pow 2 le)]

theorem operands_wrap (fits : k ≤ w) (le : w ≤ v) (call : Call α) :
    (call.wrap w).operands w (2 ^ k) (s.wrap w (2 ^ k)) =
      (call.operands v (2 ^ k) s).map (Prod.map (· % 2 ^ w) (· % 2 ^ w)) := by
  obtain ⟨operation,point⟩ := call
  cases operation <;> cases point <;>
    simp [Call.wrap,Point.wrap,Call.operands,cell_wrap fits,Cell.wrap,Nat.mod_mod_of_dvd _ (Nat.pow_dvd_pow 2 le)]

theorem compared_wrap (operation : Operation α) (difference : Int) (pos : Nat) :
    (⟨operation,compared difference pos⟩ : Call α).wrap w = ⟨operation,compared difference (pos % 2 ^ w)⟩ := by
  unfold compared
  split_ifs <;> rfl

def State.position (s : State α) : Operation α → Nat
  | .push _ => s.tail
  | .pop => s.head

/-- What lets both widths make the same access: they find the same difference, and
an exchange finds the position it expects. -/
structure Matches (w v k : Nat) (u : State α) (call : Call α) : Prop where
  compares : ∀ a b, call.operands v (2 ^ k) u = some (a,b) → diff w (a % 2 ^ w) (b % 2 ^ w) = diff v a b
  expects : ∀ pos, call.point = .exchange pos → pos = u.position call.operation

theorem advance_wrap (fits : k ≤ w) (le : w ≤ v) {call : Call α} (same : Matches w v k u call) (i : Nat) :
    advance moved w (2 ^ k) (u.wrap w (2 ^ k)) i (call.wrap w) =
      (advance moved v (2 ^ k) u i call).map (State.wrap w (2 ^ k)) := by
  obtain ⟨operation,point⟩ := call
  cases operation with
  | push item =>
    cases point with
    | loadPosition =>
      simp only [advance,Option.map_some,goto_wrap]
      rfl
    | loadSequence pos =>
      have equal := same.compares _ _ rfl
      change advance moved w (2 ^ k) _ i ⟨.push item,.loadSequence (pos % 2 ^ w)⟩ = _
      simp only [advance,Option.map_some,goto_wrap,compared_wrap,cell_wrap fits,Cell.wrap,← equal]
    | exchange pos =>
      obtain rfl : pos = u.tail := same.expects pos rfl
      have wraps := add_wrap le u.tail 1
      simp only [advance,Call.wrap,Point.wrap,State.wrap,if_true,Option.map_some,State.goto,List.map_set,wraps]
    | writeData pos =>
      simp only [advance,Call.wrap,Point.wrap,Option.map_some,setCell_wrap fits,goto_wrap,cell_wrap fits,Cell.wrap]
    | storePushed pos =>
      simp only [advance,Call.wrap,Point.wrap,Option.map_some,setCell_wrap fits,goto_wrap,cell_wrap fits,Cell.wrap,
        add_wrap le]
    | _ => rfl
  | pop =>
    cases point with
    | loadPosition =>
      simp only [advance,Option.map_some,goto_wrap]
      rfl
    | loadSequence pos =>
      have equal := same.compares _ _ rfl
      rw [← add_wrap le] at equal
      change advance moved w (2 ^ k) _ i ⟨.pop,.loadSequence (pos % 2 ^ w)⟩ = _
      simp only [advance,Option.map_some,goto_wrap,compared_wrap,cell_wrap fits,Cell.wrap,← equal]
    | exchange pos =>
      obtain rfl : pos = u.head := same.expects pos rfl
      have wraps := add_wrap le u.head 1
      simp only [advance,Call.wrap,Point.wrap,State.wrap,if_true,Option.map_some,State.goto,List.map_set,wraps]
    | readData pos =>
      simp only [advance,Call.wrap,Point.wrap,Option.map_some,setCell_wrap fits,goto_wrap,cell_wrap fits,Cell.wrap]
    | storePopped pos item =>
      simp only [advance,Call.wrap,Point.wrap,Option.map_some,setCell_wrap fits,goto_wrap,cell_wrap fits,Cell.wrap,
        add_wrap le]
    | _ => rfl

theorem step_wrap (fits : k ≤ w) (le : w ≤ v) (label : Label α)
    (same : ∀ (i : Nat) (call : Call α), u.calls[i]? = some call → Matches w v k u call) :
    step moved w (2 ^ k) (u.wrap w (2 ^ k)) label = (step moved v (2 ^ k) u label).map (State.wrap w (2 ^ k)) := by
  have calls (i : Nat) : (u.wrap w (2 ^ k)).calls[i]? = (u.calls[i]?).map (Call.wrap w) := List.getElem?_map
  cases label with
  | invoke operation =>
    simp only [step,Option.map_some,State.wrap,List.map_append]
    rfl
  | access i =>
    simp only [step,calls]
    cases found : u.calls[i]? with
    | none => rfl
    | some call => exact advance_wrap fits le (same i call found) i
  | fail i =>
    simp only [step,calls]
    cases found : u.calls[i]? with
    | none => rfl
    | some call =>
      obtain ⟨operation,point⟩ := call
      cases operation with
      | push item =>
        cases point with
        | exchange pos => exact congrArg some (goto_wrap i ⟨.push item,.loadSequence u.tail⟩).symm
        | _ => rfl
      | pop =>
        cases point with
        | exchange pos => exact congrArg some (goto_wrap i ⟨.pop,.loadSequence u.head⟩).symm
        | _ => rfl

/-- How far the cell's sequence is behind the operand it is compared with. -/
def State.lag (capacity : Nat) (s : State α) : Operation α → Nat
  | .push _ => if s.tail < s.head + capacity then 0 else capacity - 1
  | .pop => if s.head < s.tail then 0 else 1

def State.target (s : State α) : Operation α → Nat
  | .push _ => s.tail
  | .pop => s.head + 1

theorem operands_running {call : Call α} {a b : Nat} (operands : call.operands w (2 ^ k) s = some (a,b)) :
    ∃ pos, call.point = .loadSequence pos := by
  obtain ⟨operation,point⟩ := call
  cases operation <;> cases point <;> first | exact ⟨_,rfl⟩ | contradiction

theorem lag_near (u : State α) (two : 1 ≤ k) (fits : k + 2 < w) (operation : Operation α) :
    u.lag (2 ^ k) operation < 2 ^ (w - 1) := by
  have lap : 2 ^ k < 2 ^ (w - 1) := Nat.pow_lt_pow_right (by omega) (by omega)
  have pair := Nat.le_self_pow (by omega : k ≠ 0) 2
  cases operation <;> simp only [State.lag] <;> split_ifs <;> omega

theorem Inv.target_lt (inv : Inv (2 ^ k) u) (fits : k < v) (few : u.pushed.length < 2 ^ (v - 1)) (operation : Operation α) :
    u.target operation < 2 ^ v := by
  have exact := (inv.no_wrap fits few (Nat.le_refl _)).1
  have below := Nat.mod_lt (u.tail + 1) (Nat.two_pow_pos v)
  have ordered := inv.ordered
  cases operation <;> simp only [State.target] <;> omega

/-- Where the two operands lie on the two sides of the largest signed number. -/
theorem Inv.astride_iff (inv : Inv (2 ^ k) u) (two : 1 ≤ k) (fits : k + 2 < w) {operation : Operation α} {a b : Nat}
    (behind : a + u.lag (2 ^ k) operation = b) (target : b = u.target operation) :
    Astride w (2 ^ k) (u.wrap w (2 ^ k)) operation ↔ a % 2 ^ w < 2 ^ (w - 1) ∧ 2 ^ (w - 1) ≤ b % 2 ^ w := by
  have ordered := inv.ordered
  have bounded := inv.bounded
  have double := Nat.two_pow_pred_mul_two (by omega : 0 < w)
  have lap : 2 ^ k < 2 ^ (w - 1) := Nat.pow_lt_pow_right (by omega) (by omega)
  have pair := Nat.le_self_pow (by omega : k ≠ 0) 2
  have below := Nat.mod_lt a (Nat.two_pow_pos w)
  cases operation with
  | push item =>
    cases target
    simp only [Astride,State.wrap,State.target,Nat.mod_add_mod,State.lag] at behind ⊢
    by_cases room : u.tail < u.head + 2 ^ k
    · rw [if_pos room] at behind
      have apart := slot_ne room (by omega : u.head + 2 ^ k < u.tail + 2 ^ w)
      constructor
      · intro given
        exact absurd given.1 apart
      · intro given
        rw [← behind,Nat.add_zero] at given
        omega
    · have full : u.tail = u.head + 2 ^ k := by omega
      rw [if_neg room] at behind
      have ahead := mod_ahead behind (by omega : 2 ^ k - 1 < 2 ^ w)
      rw [← full]
      split_ifs at ahead <;> omega
  | pop =>
    cases target
    simp only [Astride,State.wrap,State.target,State.lag] at behind ⊢
    by_cases some : u.head < u.tail
    · rw [if_pos some] at behind
      have apart := slot_ne some (by omega : u.tail < u.head + 2 ^ w)
      constructor
      · intro given
        exact absurd given.1.symm apart
      · intro given
        rw [← behind,Nat.add_zero] at given
        omega
    · have empty : u.head = u.tail := by omega
      rw [if_neg some] at behind
      obtain rfl : a = u.head := by omega
      have ahead := mod_ahead behind (by omega : 1 < 2 ^ w)
      rw [← empty]
      split_ifs at ahead <;> omega

def Safe (w k : Nat) (u : State α) : Prop :=
  ∀ (i : Nat) (call : Call α) (pos : Nat), u.calls[i]? = some call → call.point = .loadSequence pos →
    ¬ Astride w (2 ^ k) (u.wrap w (2 ^ k)) call.operation

theorem astride_congr (head : t.head = u.head) (tail : t.tail = u.tail) (operation : Operation α) :
    Astride w (2 ^ k) (t.wrap w (2 ^ k)) operation ↔ Astride w (2 ^ k) (u.wrap w (2 ^ k)) operation := by
  cases operation <;> simp only [Astride,State.wrap,head,tail]

theorem compared_ne (difference : Int) (pos other : Nat) : (compared difference pos : Point α) ≠ .loadSequence other := by
  unfold compared
  split_ifs <;> simp

theorem calls_wrap (i : Nat) : (u.wrap w (2 ^ k)).calls[i]? = (u.calls[i]?).map (Call.wrap w) := List.getElem?_map

theorem unloaded_wrap {i : Nat} {operation : Operation α} :
    (u.wrap w (2 ^ k)).calls[i]? = some ⟨operation,.loadPosition⟩ ↔ u.calls[i]? = some ⟨operation,.loadPosition⟩ := by
  rw [calls_wrap]
  constructor
  · intro found
    obtain ⟨⟨own,point⟩,present,same⟩ := Option.map_eq_some_iff.mp found
    cases point <;> cases same
    exact present
  · intro found
    rw [found]
    rfl

/-- A call comes to its comparison from the load of its position or a failed exchange. -/
theorem advance_loads {capacity i pos : Nat} {call next : Call α} (taken : advance moved w capacity s i call = some t)
    (found : s.calls[i]? = some call) (after : t.calls[i]? = some next) (loads : next.point = .loadSequence pos) :
    t.head = s.head ∧ t.tail = s.tail ∧ next.operation = call.operation ∧
      (call.point = .loadPosition ∨ ∃ own, call.point = .exchange own) := by
  have own (other : Call α) (present : (s.calls.set i other)[i]? = some next) : next = other :=
    Option.some.inj (present.symm.trans (get_self found))
  obtain ⟨operation,point⟩ := call
  cases point with
  | loadPosition =>
    cases operation <;> cases taken <;> obtain rfl := own _ after <;> exact ⟨rfl,rfl,rfl,.inl rfl⟩
  | loadSequence pos =>
    cases operation <;> cases taken <;> obtain rfl := own _ after <;> exact absurd loads (compared_ne _ _ _)
  | exchange pos =>
    cases operation with
    | push item | pop =>
      simp only [advance] at taken
      split_ifs at taken
      · cases taken
        obtain rfl := own _ after
        contradiction
      · cases taken
        obtain rfl := own _ after
        exact ⟨rfl,rfl,rfl,.inr ⟨pos,rfl⟩⟩
  | _ =>
    cases operation <;> first
      | contradiction
      | cases taken
        obtain rfl := own _ after
        contradiction

theorem advance_calls {capacity i : Nat} {call : Call α} (taken : advance moved w capacity s i call = some t) :
    ∃ next, t.calls = s.calls.set i next ∧ next.operation = call.operation := by
  obtain ⟨operation,point⟩ := call
  cases point with
  | exchange pos =>
    cases operation <;> simp only [advance] at taken <;> split_ifs at taken <;> cases taken <;> exact ⟨_,rfl,rfl⟩
  | _ => cases operation <;> cases taken <;> exact ⟨_,rfl,rfl⟩

theorem compares_running {call : Call α} {pos : Nat} (loads : call.point = .loadSequence pos) : call.outcome = none := by
  obtain ⟨operation,point⟩ := call
  cases loads
  cases operation <;> rfl

section Standing
variable {operations : List (Operation α)} (standing : Standing operations k u)

include standing

/-- Where a call is about to compare, the counters differ by the lag. -/
theorem Standing.operands_lag (two : 1 ≤ k) (fits : k < v) (short : operations.length < 2 ^ (v - 1)) {i a b : Nat}
    {call : Call α} (found : u.calls[i]? = some call) (operands : call.operands v (2 ^ k) u = some (a,b)) :
    a + u.lag (2 ^ k) call.operation = b ∧ b = u.target call.operation := by
  obtain ⟨operation,point⟩ := call
  obtain ⟨pos,loads⟩ := operands_running operands
  cases loads
  have inv := standing.inv
  have ordered := inv.ordered
  have bounded := inv.bounded
  have pair := Nat.le_self_pow (by omega : k ≠ 0) 2
  have last : i + 1 = u.calls.length := standing.last found (by cases operation <;> rfl)
  have quiet := standing.quiet found last (by cases operation <;> exact ⟨rfl,rfl⟩)
  have current := standing.current i _ found last
  cases operation with
  | push item =>
    obtain ⟨_,rfl⟩ := current
    cases operands
    refine ⟨?_,rfl⟩
    by_cases room : u.tail < u.head + 2 ^ k
    · rw [State.lag,if_pos room,inv.vacant_tail quiet.unread room]
      rfl
    · have full : u.tail = u.head + 2 ^ k := by omega
      rw [State.lag,if_neg room,inv.full_tail quiet.unwritten full]
      omega
  | pop =>
    obtain ⟨_,rfl⟩ := current
    have exact := (inv.no_wrap fits (standing.few short) ordered).1
    rw [Call.operands,exact] at operands
    cases operands
    refine ⟨?_,rfl⟩
    by_cases some : u.head < u.tail
    · rw [State.lag,if_pos some,(inv.stored u.head (Nat.le_refl _) some (quiet.unwritten _)).1]
    · have empty : u.head = u.tail := by omega
      have seq := inv.vacant_tail quiet.unread (by omega)
      rw [← empty] at seq
      rw [State.lag,if_neg some,seq]

theorem Standing.matches (two : 1 ≤ k) (fits : k + 2 < w) (le : w ≤ v) (short : operations.length < 2 ^ (v - 1)) {i : Nat}
    {call : Call α} (found : u.calls[i]? = some call) : Matches w v k u call := by
  constructor
  · intro a b operands
    obtain ⟨behind,target⟩ := standing.operands_lag two (by omega) short found operands
    have near := lag_near u two fits call.operation
    have wider : 2 ^ (w - 1) ≤ 2 ^ (v - 1) := Nat.pow_le_pow_right (by omega) (by omega)
    have inside : b < 2 ^ v := target ▸ standing.inv.target_lt (by omega) (standing.few short) _
    have narrow := wrapped_difference (by omega : 0 < w) behind near
    have broad := wrapped_difference (by omega : 0 < v) behind (by omega)
    rw [Nat.mod_eq_of_lt (by omega),Nat.mod_eq_of_lt inside] at broad
    exact narrow.trans broad.symm
  · intro pos exchanges
    obtain ⟨operation,point⟩ := call
    cases exchanges
    have last : i + 1 = u.calls.length := standing.last found (by cases operation <;> rfl)
    have current := standing.current i _ found last
    cases operation with
    | push item => exact current.2.1
    | pop => exact current.2.1

theorem Standing.told_iff (two : 1 ≤ k) (fits : k + 2 < w) (le : w ≤ v) (short : operations.length < 2 ^ (v - 1)) :
    Told w v (2 ^ k) (u.wrap w (2 ^ k),u) ↔ Safe w k u := by
  have exactly {i a b : Nat} {call : Call α} (found : u.calls[i]? = some call)
      (operands : call.operands v (2 ^ k) u = some (a,b)) :
      Fits w (signed w (a % 2 ^ w) - signed w (b % 2 ^ w)) ∧
        (signed w (a % 2 ^ w) - signed w (b % 2 ^ w)).sign = ((a : Int) - b).sign ↔
      ¬ Astride w (2 ^ k) (u.wrap w (2 ^ k)) call.operation := by
    obtain ⟨behind,target⟩ := standing.operands_lag two (by omega) short found operands
    rw [standing.inv.astride_iff two fits behind target]
    exact signed_difference (by omega) behind (lag_near u two fits _)
  have images (call : Call α) := operands_wrap (s := u) (by omega : k ≤ w) le call
  constructor
  · intro told i call pos found loads
    obtain ⟨a,b,operands⟩ : ∃ a b, call.operands v (2 ^ k) u = some (a,b) := by
      obtain ⟨operation,point⟩ := call
      cases loads
      cases operation <;> exact ⟨_,_,rfl⟩
    have image := images call
    rw [operands] at image
    have narrow : (u.wrap w (2 ^ k)).calls[i]? = some (call.wrap w) := by rw [calls_wrap,found,Option.map_some]
    obtain ⟨wide,c,d,present,others,_,_,fits,sign⟩ := told i (call.wrap w) (a % 2 ^ w) (b % 2 ^ w) narrow image
    obtain rfl : call = wide := Option.some.inj (found.symm.trans present)
    cases operands.symm.trans others
    exact (exactly found operands).mp ⟨fits,sign⟩
  · intro safe i narrow seq pos present operands
    rw [calls_wrap] at present
    obtain ⟨call,found,rfl⟩ := Option.map_eq_some_iff.mp present
    rw [images call] at operands
    obtain ⟨⟨a,b⟩,others,same⟩ := Option.map_eq_some_iff.mp operands
    cases same
    obtain ⟨own,loads⟩ := operands_running others
    obtain ⟨fits,sign⟩ := (exactly found others).mpr (safe i call own found loads)
    exact ⟨call,a,b,found,others,rfl,rfl,fits,sign⟩

/-- A call that was ready to exchange compares equal counters again. -/
theorem Standing.exchange_apart (two : 1 ≤ k) (fits : k + 2 < w) {i pos : Nat} {operation : Operation α}
    (found : u.calls[i]? = some ⟨operation,.exchange pos⟩) : ¬ Astride w (2 ^ k) (u.wrap w (2 ^ k)) operation := by
  have last : i + 1 = u.calls.length := standing.last found (by cases operation <;> rfl)
  have current := standing.current i _ found last
  have level : u.lag (2 ^ k) operation = 0 := by
    cases operation with
    | push item => exact if_pos current.2.2
    | pop => exact if_pos current.2.2
  rw [standing.inv.astride_iff two fits (by rw [level,Nat.add_zero]) rfl]
  omega

theorem Standing.safe_step (two : 1 ≤ k) (fits : k + 2 < w) (safe : Safe w k u)
    {label : Label α} (clear : Clear w (2 ^ k) (u.wrap w (2 ^ k)) label)
    (taken : step moved v (2 ^ k) u label = some t) : Safe w k t := by
  intro i call pos present loads
  cases label with
  | invoke operation =>
    cases taken
    rcases get_append present with kept | ⟨_,rfl⟩
    · exact safe i call pos kept loads
    · contradiction
  | access j =>
    obtain ⟨old,found,running⟩ := access_running taken
    simp only [step,found,Option.bind_some] at taken
    obtain ⟨other,calls,_⟩ := advance_calls taken
    -- Only the last call runs, so it is the one that comes to its comparison.
    obtain rfl : i = j := by
      by_contra apart
      rw [calls,List.getElem?_set_ne (Ne.symm apart)] at present
      have comparing := standing.last present (compares_running loads)
      have accessing := standing.last found running
      omega
    obtain ⟨head,tail,same,before⟩ := advance_loads taken found present loads
    rw [astride_congr head tail,same]
    obtain ⟨operation,point⟩ := old
    rcases before with fresh | ⟨own,ready⟩
    · cases fresh
      exact clear operation (unloaded_wrap.mpr found)
    · cases ready
      exact standing.exchange_apart two fits found
  | fail j =>
    simp only [step] at taken
    split at taken
    next item own found =>
      cases taken
      rcases get_set present with ⟨rfl,rfl⟩ | ⟨_,kept⟩
      · exact standing.exchange_apart two fits found
      · exact safe i call pos kept loads
    next own found =>
      cases taken
      rcases get_set present with ⟨rfl,rfl⟩ | ⟨_,kept⟩
      · exact standing.exchange_apart two fits found
      · exact safe i call pos kept loads
    next => contradiction

omit standing in
theorem breach {label : Label α} (unclear : ¬ Clear w (2 ^ k) (u.wrap w (2 ^ k)) label)
    (taken : step moved v (2 ^ k) u label = some t) : ¬ Safe w k t := by
  intro safe
  cases label with
  | access i =>
    simp only [Clear,not_forall,not_not] at unclear
    obtain ⟨operation,found,astride⟩ := unclear
    have old := unloaded_wrap.mp found
    simp only [step,old,Option.bind_some] at taken
    cases operation with
    | push item =>
      cases taken
      exact safe i ⟨.push item,.loadSequence u.tail⟩ u.tail (get_self old) rfl astride
    | pop =>
      cases taken
      exact safe i ⟨.pop,.loadSequence u.head⟩ u.head (get_self old) rfl astride
  | _ => exact unclear trivial

end Standing

theorem step_length {capacity : Nat} {label : Label α} (taken : step moved w capacity s label = some t) :
    t.calls.length = s.calls.length + label.asks.toList.length := by
  cases label with
  | invoke operation =>
    cases taken
    exact List.length_append
  | access i =>
    obtain ⟨call,_,accessed⟩ := Option.bind_eq_some_iff.mp taken
    obtain ⟨next,calls,_⟩ := advance_calls accessed
    rw [calls,List.length_set]
    rfl
  | fail i =>
    simp only [step] at taken
    split at taken
    next => cases taken; exact List.length_set
    next => cases taken; exact List.length_set
    next => contradiction

theorem serial_of_alone {capacity : Nat} (before : List (Operation α)) {labels : List (Label α)}
    (count : before.length = s.calls.length) (alone : Obeys (step moved w capacity) Alone s labels) :
    Obeys (step moved w capacity) (Serial (before ++ labels.filterMap Label.asks)) s labels := by
  induction labels generalizing s before with
  | nil => exact trivial
  | cons label rest ih =>
    obtain ⟨own,later⟩ := alone
    cases label with
    | invoke operation =>
      refine ⟨⟨?_,own⟩,fun next taken => ?_⟩
      · rw [← count,List.getElem?_append_right (Nat.le_refl _),Nat.sub_self]
        rfl
      · have longer := step_length taken
        have rest := ih (before ++ [operation]) (by rw [longer,List.length_append,count]; rfl) (later next taken)
        rwa [List.append_assoc] at rest
    | access i | fail i => exact ⟨trivial,fun next taken => ih before (count.trans (step_length taken).symm) (later next taken)⟩

section Runs
variable (moved) {operations : List (Operation α)} (two : 1 ≤ k) (fits : k + 2 < w) (le : w ≤ v)
  (short : operations.length < 2 ^ (v - 1))

include two fits le short

theorem Standing.commutes (standing : Standing operations k u) (label : Label α) :
    step moved w (2 ^ k) (u.wrap w (2 ^ k)) label = (step moved v (2 ^ k) u label).map (State.wrap w (2 ^ k)) :=
  step_wrap (by omega) le label fun _ _ found => standing.matches two fits le short found

theorem Standing.follows (standing : Standing operations k u) {label : Label α} (serial : Serial operations u label)
    (taken : step moved v (2 ^ k) u label = some t) : Standing operations k t :=
  (standing_step moved (by omega) short (.inl two) u label t standing serial taken).1

end Runs

theorem serial_wrap {operations : List (Operation α)} {label : Label α} :
    Serial operations (u.wrap w (2 ^ k)) label ↔ Serial operations u label := by
  cases label with
  | invoke operation =>
    refine and_congr (by rw [State.wrap,List.length_map]) ?_
    simp [State.wrap,outcome_wrap]
  | _ => exact Iff.rfl

section Runs
variable {operations : List (Operation α)} {data : Nat → α} {labels : List (Label α)} (two : 1 ≤ k) (fits : k + 2 < w)
  (le : w ≤ v) (short : operations.length < 2 ^ (v - 1))

include two fits le short

/-- A run of the narrow machine is a run of the wide one, and the other way around. -/
theorem serial_iff_wide : Obeys (step moved w (2 ^ k)) (Serial operations) (init data) labels ↔
    Obeys (step moved v (2 ^ k)) (Serial operations) (init data) labels := by
  have image : Obeys (step moved w (2 ^ k)) (Serial operations) _ labels ↔ _ :=
    obeys_image (State.wrap w (2 ^ k)) (Standing operations k) (Serial operations)
    (fun state label standing _ => standing.commutes moved two fits le short label)
    (fun state label next standing serial taken => standing.follows moved two fits le short serial taken)
    (standing_init data) (fun _ _ => serial_wrap.mp)
  rw [init_wrap (by omega)] at image
  refine image.trans (obeys_congr (fun _ => True) (fun _ _ _ _ _ => trivial) (fun _ _ _ => serial_wrap) trivial)

theorem run_wide (serial : Obeys (step moved v (2 ^ k)) (Serial operations) (init data) labels) :
    run (joint (step moved w (2 ^ k)) (step moved v (2 ^ k))) (init data,init data) labels =
      (run (step moved v (2 ^ k)) (init data) labels).map fun u => (u.wrap w (2 ^ k),u) := by
  have image := run_image (fun u => (u.wrap w (2 ^ k),u)) (Standing operations k) (Serial operations)
    (fun state label standing _ => joint_commutes (State.wrap w (2 ^ k)) (standing.commutes moved two fits le short label))
    (fun state label next standing serial taken => standing.follows moved two fits le short serial taken)
    (standing_init data) serial
  rwa [init_wrap (by omega)] at image

theorem run_narrow (serial : Obeys (step moved v (2 ^ k)) (Serial operations) (init data) labels) :
    run (step moved w (2 ^ k)) (init data) labels = (run (step moved v (2 ^ k)) (init data) labels).map (State.wrap w (2 ^ k)) := by
  have image := run_image (State.wrap w (2 ^ k)) (Standing operations k) (Serial operations)
    (fun state label standing _ => standing.commutes moved two fits le short label)
    (fun state label next standing serial taken => standing.follows moved two fits le short serial taken)
    (standing_init data) serial
  rwa [init_wrap (by omega)] at image

theorem Standing.joint_step (standing : Standing operations k u) {label : Label α} {pair : State α × State α}
    (taken : joint (step moved w (2 ^ k)) (step moved v (2 ^ k)) (u.wrap w (2 ^ k),u) label = some pair) :
    ∃ t, step moved v (2 ^ k) u label = some t ∧ pair = (t.wrap w (2 ^ k),t) := by
  rw [joint_commutes _ (standing.commutes moved two fits le short label)] at taken
  obtain ⟨t,own,rfl⟩ := Option.map_eq_some_iff.mp taken
  exact ⟨t,own,rfl⟩

end Runs

/-- A narrow state and the wide one it is the image of, in which no comparison is astride. -/
def Paired (operations : List (Operation α)) (w k : Nat) (pair : State α × State α) : Prop :=
  ∃ u, pair = (u.wrap w (2 ^ k),u) ∧ Standing operations k u ∧ Safe w k u

/-- In a run of any length whose calls do not overlap, every subtraction is in range and
tells the order of the unbounded counters if and only if no call loads its position
from a full queue, or an empty one, that stands astride the largest signed number. -/
theorem comparisons_iff {data : Nat → α} {labels : List (Label α)} (two : 1 ≤ k) (fits : k + 2 < w) (le : w ≤ v)
    (short : labels.length < 2 ^ (v - 1)) (reached : run (step moved w (2 ^ k)) (init data) labels = some s)
    (alone : Obeys (step moved w (2 ^ k)) Alone (init data) labels) :
    ∃ u, run (joint (step moved w (2 ^ k)) (step moved v (2 ^ k))) (init data,init data) labels = some (s,u) ∧
      (Along (joint (step moved w (2 ^ k)) (step moved v (2 ^ k))) (Told w v (2 ^ k)) (init data,init data) labels ↔
        Obeys (step moved w (2 ^ k)) (Clear w (2 ^ k)) (init data) labels) := by
  have few := Nat.lt_of_le_of_lt (List.length_filterMap_le Label.asks labels) short
  have serial := serial_of_alone [] rfl alone
  have wide := (serial_iff_wide two fits le few).mp serial
  obtain ⟨u,unbounded,rfl⟩ := Option.map_eq_some_iff.mp ((run_narrow two fits le few wide).symm.trans reached)
  have both := run_wide two fits le few wide
  rw [unbounded,Option.map_some] at both
  refine ⟨u,both,?_⟩
  rw [← obeys_joint both]
  refine along_iff_obeys_within (Paired (labels.filterMap Label.asks) w k) (fun pair label next holds asked clear taken => ?_)
    (fun pair holds => ?_) (fun pair label next holds asked unclear taken told => ?_)
    ⟨init data,by rw [init_wrap (by omega)],standing_init data,fun i call pos found => by simp [init] at found⟩
    ((obeys_joint both).mpr serial) both
  · obtain ⟨state,rfl,standing,safe⟩ := holds
    obtain ⟨after,own,rfl⟩ := standing.joint_step two fits le few taken
    exact ⟨after,rfl,standing.follows moved two fits le few (serial_wrap.mp asked) own,
      standing.safe_step two fits safe clear own⟩
  · obtain ⟨state,rfl,standing,safe⟩ := holds
    exact (standing.told_iff two fits le few).mpr safe
  · obtain ⟨state,rfl,standing,safe⟩ := holds
    obtain ⟨after,own,rfl⟩ := standing.joint_step two fits le few taken
    have following := standing.follows moved two fits le few (serial_wrap.mp asked) own
    exact breach unclear own ((following.told_iff two fits le few).mp told)

instance [DecidableEq α] (s : State α) : (label : Label α) → Decidable (Alone s label)
  | .invoke _ => inferInstanceAs (Decidable (∀ call ∈ s.calls, call.outcome ≠ none))
  | .access _ | .fail _ => inferInstanceAs (Decidable True)

instance (w capacity : Nat) (s : State α) : (operation : Operation α) → Decidable (Astride w capacity s operation)
  | .push _ | .pop => inferInstanceAs (Decidable (_ ∧ _))

theorem clear_iff [DecidableEq α] {capacity i : Nat} :
    (∀ call ∈ s.calls[i]?, call.point = .loadPosition → ¬ Astride w capacity s call.operation) ↔
      Clear w capacity s (.access i) := by
  constructor
  · exact fun every operation found => every _ found rfl
  · intro clear call found loads
    obtain ⟨operation,point⟩ := call
    obtain rfl := loads
    exact clear operation found

instance [DecidableEq α] (w capacity : Nat) (s : State α) : (label : Label α) → Decidable (Clear w capacity s label)
  | .access _ => decidable_of_iff _ clear_iff
  | .invoke _ | .fail _ => inferInstanceAs (Decidable True)

/-- Seventeen items pass one by one. -/
def passing : List (Label Nat) :=
  (List.range 17).flatMap fun n => .invoke (.push n) :: List.replicate 5 (.access (2 * n)) ++
    .invoke .pop :: List.replicate 5 (.access (2 * n + 1))

/-- On 4 bits the positions pass 8, from which on they read as negative, and wrap at 16. -/
theorem comparisons_iff_wrapped : ∃ (s u : State Nat),
    run (joint (step id 4 (2 ^ 1)) (step id 64 (2 ^ 1))) (init (fun _ => 0),init fun _ => 0) passing = some (s,u) ∧
    s.head = 1 ∧ u.head = 17 ∧
    Along (joint (step id 4 (2 ^ 1)) (step id 64 (2 ^ 1))) (Told 4 64 (2 ^ 1)) (init (fun _ => 0),init fun _ => 0) passing := by
  obtain ⟨s,reached,_⟩ := (Option.any_eq_true _ _).mp (show (run (step id 4 (2 ^ 1)) (init fun _ => (0 : Nat)) passing).any
    (fun s => s.head == 1) = true by decide +kernel)
  obtain ⟨u,both,exactly⟩ := comparisons_iff (v := 64) (by decide) (by decide) (by decide) (by decide +kernel) reached
    (by decide +kernel)
  have heads : (run (joint (step id 4 (2 ^ 1)) (step id 64 (2 ^ 1))) (init (fun _ => 0),init fun _ => (0 : Nat)) passing).map
      (fun pair => (pair.1.head,pair.2.head)) = some (1,17) := by decide +kernel
  rw [both] at heads
  obtain ⟨narrow,wide⟩ := Prod.mk.inj (Option.some.inj heads)
  exact ⟨s,u,both,narrow,wide,exactly.mpr (by decide +kernel)⟩

theorem alone_call {capacity : Nat} (returned : ∀ call ∈ s.calls, call.outcome ≠ none) (operation : Operation α)
    (i n : Nat) :
    Obeys (step moved w capacity) Alone s (.invoke operation :: List.replicate n (.access i)) :=
  ⟨returned,fun next _ => obeys_of_labels (fun label member state => by
    rw [List.eq_of_mem_replicate member]
    trivial) next⟩

structure Idle (moved : α → α) (w k : Nat) (data : Nat → α) (labels : List (Label α)) (s : State α) : Prop where
  reached : run (step moved w (2 ^ k)) (init data) labels = some s
  alone : Obeys (step moved w (2 ^ k)) Alone (init data) labels
  returned : ∀ call ∈ s.calls, call.outcome ≠ none

section Idle
variable {data : Nat → α} {labels : List (Label α)} (idle : Idle moved w k data labels s)

include idle

theorem Idle.call {operation : Operation α} {i n : Nat} {call : Call α}
    (after : run (step moved w (2 ^ k)) s (.invoke operation :: List.replicate n (.access i)) = some t)
    (calls : t.calls = s.calls ++ [call]) (done : call.outcome ≠ none) :
    Idle moved w k data (labels ++ .invoke operation :: List.replicate n (.access i)) t := by
  refine ⟨run_trans idle.reached after,obeys_append idle.alone idle.reached (alone_call idle.returned operation i n),?_⟩
  intro other member
  rw [calls] at member
  rcases List.mem_append.mp member with earlier | own
  · exact idle.returned other earlier
  · rwa [List.mem_singleton.mp own]

theorem Idle.lap (two : 1 ≤ k) (fits : k < w) {n : Nat} (room : n + 1 < 2 ^ (w - 1)) (item : α) (head : s.head = n)
    (pushed : s.pushed.length = n) :
    ∃ more t, Idle moved w k data (labels ++ more) t ∧ more.length = 12 ∧ t.head = n + 1 ∧ t.pushed.length = n + 1 := by
  have size := Nat.two_pow_pos k
  have few : s.pushed.length < 2 ^ (w - 1) := by omega
  have inv := (inv_run two fits idle.reached few).1
  have tail := inv.tail
  obtain ⟨filled,ran,calls,same,grown⟩ :=
    push_alone moved inv (quiet_of_returned idle.returned) (by omega) few (by omega) item
  have middle := idle.call ran calls (by simp [Call.outcome])
  have longer : filled.pushed.length = n + 1 := by rw [grown,List.length_append,pushed,List.length_singleton]
  have next := (inv_run two fits middle.reached (by omega)).1
  have ahead := next.tail
  obtain ⟨emptied,popped,took,answered,forward,kept⟩ :=
    pop_alone moved next (quiet_of_returned middle.returned) fits (by omega) (by omega)
  have last := middle.call took answered (by simp [Call.outcome])
  rw [List.append_assoc] at last
  refine ⟨_,emptied,last,rfl,?_,?_⟩
  · rw [forward,same,head]
  · rw [kept,longer]

theorem Idle.comparing : ∃ more t, run (step moved w (2 ^ k)) (init data) (labels ++ more) = some t ∧
    Obeys (step moved w (2 ^ k)) Alone (init data) (labels ++ more) ∧ more.length = 2 ∧
    t.calls = s.calls ++ [⟨.pop,.loadSequence s.head⟩] ∧ t.buffer = s.buffer := by
  obtain ⟨loads,loaded⟩ := access_last (s := {s with calls := s.calls ++ [⟨.pop,.loadPosition⟩]}) rfl
    ⟨.pop,.loadSequence s.head⟩ rfl rfl
  have after : run (step moved w (2 ^ k)) s (.invoke .pop :: List.replicate 1 (.access s.calls.length)) = some _ :=
    run_step rfl (run_step loads rfl)
  have alone := obeys_append idle.alone idle.reached (alone_call idle.returned .pop s.calls.length 1)
  exact ⟨_,_,run_trans idle.reached after,alone,rfl,loaded,rfl⟩

end Idle

theorem laps (moved : α → α) (data : Nat → α) (item : α) (two : 1 ≤ k) (fits : k < w) (n : Nat) (room : n < 2 ^ (w - 1)) :
    ∃ labels s, Idle moved w k data labels s ∧ labels.length = 12 * n ∧ s.head = n ∧ s.pushed.length = n := by
  induction n with
  | zero => exact ⟨[],init data,⟨rfl,trivial,by simp [init]⟩,rfl,rfl,rfl⟩
  | succ n ih =>
    obtain ⟨labels,s,idle,length,head,pushed⟩ := ih (by omega)
    obtain ⟨more,t,next,twelve,ahead,longer⟩ := idle.lap two fits room item head pushed
    refine ⟨labels ++ more,t,next,?_,ahead,longer⟩
    rw [List.length_append,length,twelve]
    omega

/-- After as many pushes and pops as there are positive signed numbers, a `Pop` on
the empty queue compares the largest of them with the one after it. -/
theorem pop_apart (moved : α → α) (data : Nat → α) (item : α) (two : 1 ≤ k) (fits : k + 2 < w) :
    ∃ (labels : List (Label α)) (s : State α) (i : Nat) (call : Call α),
      run (step moved w (2 ^ k)) (init data) labels = some s ∧ Obeys (step moved w (2 ^ k)) Alone (init data) labels ∧
      s.calls[i]? = some call ∧ call.operands w (2 ^ k) s = some (2 ^ (w - 1) - 1,2 ^ (w - 1)) := by
  have double := Nat.two_pow_pred_mul_two (by omega : 0 < w)
  have half := Nat.two_pow_pos (w - 1)
  have wide : 2 ^ (w + 4 - 1) = 16 * 2 ^ (w - 1) := by rw [show w + 4 - 1 = w - 1 + 4 by omega,Nat.pow_add,Nat.mul_comm]
  -- On four more bits the positions are the unbounded ones.
  obtain ⟨labels,u,idle,length,head,pushed⟩ :=
    laps moved data item two (by omega : k < w + 4) (2 ^ (w - 1) - 1) (by omega)
  have inv := (inv_run two (by omega) idle.reached (by omega)).1
  have tail := inv.tail
  have size := Nat.two_pow_pos k
  have same : u.tail = u.head := by omega
  have vacant := inv.vacant_tail (quiet_of_returned idle.returned).unread (by omega)
  obtain ⟨more,t,reached,alone,two_more,calls,buffer⟩ := idle.comparing
  have few : ((labels ++ more).filterMap Label.asks).length < 2 ^ (w + 4 - 1) := by
    have asked := List.length_filterMap_le Label.asks (labels ++ more)
    rw [List.length_append,length,two_more] at asked
    omega
  have serial := serial_of_alone [] rfl alone
  have narrow := (serial_iff_wide two fits (by omega : w ≤ w + 4) few).mpr serial
  have image := run_narrow two fits (by omega : w ≤ w + 4) few serial
  rw [reached,Option.map_some] at image
  have found : t.calls[u.calls.length]? = some ⟨.pop,.loadSequence u.head⟩ := by
    rw [calls,List.getElem?_concat_length]
  refine ⟨labels ++ more,t.wrap w (2 ^ k),u.calls.length,Call.wrap w ⟨.pop,.loadSequence u.head⟩,image,
    obeys_imp (fun state label asked => ?_) narrow,by rw [calls_wrap,found,Option.map_some],?_⟩
  · cases label with
    | invoke operation => exact asked.2
    | _ => trivial
  · have sequence : (t.cell (2 ^ k) u.head).sequence = u.head := by
      rw [State.cell,buffer]
      exact same ▸ vacant
    have next : 2 ^ (w - 1) - 1 + 1 = 2 ^ (w - 1) := by omega
    have inside : 2 ^ (w - 1) < 2 ^ (w + 4) := Nat.pow_lt_pow_right (by omega) (by omega)
    rw [operands_wrap (by omega) (by omega : w ≤ w + 4),Call.operands,Option.map_some,sequence,head,Prod.map,
      Nat.mod_eq_of_lt (by omega : 2 ^ (w - 1) - 1 < 2 ^ w),next,Nat.mod_eq_of_lt inside,
      Nat.mod_eq_of_lt (by omega : 2 ^ (w - 1) < 2 ^ w)]

/-- On 32 bits with two cells: the difference of the casts is `2 ^ 32 - 1`. -/
theorem pop_overflows : ∃ (labels : List (Label Nat)) (s : State Nat) (i : Nat) (call : Call Nat),
    run (step id 32 (2 ^ 1)) (init fun _ => 0) labels = some s ∧
    Obeys (step id 32 (2 ^ 1)) Alone (init fun _ => 0) labels ∧
    s.calls[i]? = some call ∧ call.operands 32 (2 ^ 1) s = some (2147483647,2147483648) ∧
    signed 32 2147483647 - signed 32 2147483648 = 4294967295 ∧
    ¬ Fits 32 (signed 32 2147483647 - signed 32 2147483648) := by
  obtain ⟨labels,s,i,call,reached,alone,found,operands⟩ :=
    pop_apart id (fun _ => 0) 0 (by decide : 1 ≤ 1) (by decide : 1 + 2 < 32)
  exact ⟨labels,s,i,call,reached,alone,found,operands,by decide,by decide⟩

end Ezthread.MpmcQueue
