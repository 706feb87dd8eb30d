import Ezthread.Contention
import Ezthread.MpmcWrap

/-! How long the calls of `MPMCQueue` can keep one another from returning. A `Push`
repeats its accesses only where the tail has moved since it read it, a `Pop` only
where the head has; a cell that is not ready makes them return, and not wait. -/
namespace Ezthread.MpmcQueue
open Transition Activation Contention

variable {α : Type*} {moved : α → α} {w k crowd i : Nat} {s t : State α} {old next : Call α}

def Label.starts (label : Label α) : Bool := label.asks.isSome

def Label.slips : Label α → Bool
  | .fail _ => true
  | _ => false

def Call.running (call : Call α) : Bool := call.outcome.isNone

def State.running (s : State α) : Nat := s.calls.countP Call.running

def State.returned (s : State α) : Nat := s.calls.countP (fun call => !call.running)

/-- Where the calls of an operation win their positions. -/
def State.front (s : State α) : Operation α → Nat
  | .push _ => s.tail
  | .pop => s.head

/-- The two accesses that a call repeats whose position has been won by another. -/
def behind (front pos : Nat) : Nat := if pos = front then 0 else 2

def Call.price (crowd : Nat) (s : State α) (call : Call α) : Nat :=
  match call.point with
  | .loadPosition => 5 + 2 * crowd
  | .loadSequence pos => 4 + 2 * crowd + behind (s.front call.operation) pos
  | .exchange pos => 3 + 2 * crowd + behind (s.front call.operation) pos
  | .writeData _ | .readData _ => 2
  | .storePushed _ | .storePopped _ _ => 1
  | .pushed _ | .popped _ _ | .refused => 0

def State.owes (crowd : Nat) (s : State α) : Nat := owed (Call.price crowd s) s.calls

theorem behind_le (front pos : Nat) : behind front pos ≤ 2 := by
  unfold behind
  split <;> omega

theorem behind_self (front : Nat) : behind front front = 0 := if_pos rfl

theorem behind_other {front pos : Nat} (other : pos ≠ front) : behind front pos = 2 := if_neg other

theorem price_le (crowd : Nat) (s : State α) (call : Call α) :
    call.price crowd s ≤ if call.running then 2 * crowd + 6 else 0 := by
  obtain ⟨operation,point⟩ := call
  cases point with
  | loadSequence pos | exchange pos =>
    have repeated := behind_le (s.front operation) pos
    cases operation <;> simp only [Call.price,Call.running,Call.outcome,Option.isNone_none,if_true] <;> omega
  | _ => cases operation <;> simp [Call.price,Call.running,Call.outcome] <;> omega

theorem price_setback (crowd : Nat) (s t : State α) (call : Call α) :
    call.price crowd t ≤ call.price crowd s + if call.running then 2 else 0 := by
  obtain ⟨operation,point⟩ := call
  cases point with
  | loadSequence pos | exchange pos =>
    have repeated := behind_le (t.front operation) pos
    cases operation <;> simp only [Call.price,Call.running,Call.outcome,Option.isNone_none,if_true] <;> omega
  | _ => simp [Call.price]

theorem price_front (front : t.front = s.front) (call : Call α) : call.price crowd t = call.price crowd s := by
  rw [Call.price,Call.price,front]

theorem keeps_pays (gain : Nat) (found : s.calls[i]? = some old) (front : t.front = s.front)
    (calls : t.calls = s.calls.set i next)
    (cheaper : 1 + next.price crowd s ≤ old.price crowd s + gain) : 1 + t.owes crowd ≤ s.owes crowd + gain := by
  rw [State.owes,State.owes,calls]
  refine owed_step Call.running 0 s.running gain found ?_ (Nat.le_refl _) ?_
  · intro call
    simp [price_front front]
  · simpa [price_front front] using cheaper

theorem wins_pays (found : s.calls[i]? = some old) (few : s.running ≤ crowd)
    (calls : t.calls = s.calls.set i next)
    (cheaper : 1 + next.price crowd t + 2 * crowd ≤ old.price crowd s) : 1 + t.owes crowd ≤ s.owes crowd := by
  rw [State.owes,State.owes,calls]
  exact owed_step Call.running 2 crowd 0 found (price_setback crowd s t) few cheaper

theorem Inv.head_unfilled (inv : Inv (2 ^ k) s) : (s.cell (2 ^ k) s.head).sequence ≤ s.head + 1 := by
  have ordered := inv.ordered
  rcases Nat.lt_or_ge s.head s.tail with some | none
  · by_cases writes : Held Call.producing s.calls s.head
    · have seq := (inv.writing s.head writes).2.2
      omega
    · have seq := (inv.stored s.head (Nat.le_refl _) some writes).1
      omega
  · have same : s.head = s.tail := by omega
    have seq := inv.tail_sequence
    rw [← same] at seq
    omega

theorem compared_cases (difference : Int) (pos : Nat) :
    (compared difference pos : Point α) = .exchange pos ∨ (compared difference pos : Point α) = .refused ∨
      (0 < difference ∧ (compared difference pos : Point α) = .loadPosition) := by
  unfold compared
  split
  · exact Or.inl rfl
  · split
    · exact Or.inr (Or.inl rfl)
    · exact Or.inr (Or.inr ⟨by omega,rfl⟩)

/-- A comparison sends a call back only from a position that is not the front. -/
theorem compare_pays {operation : Operation α} {difference : Int} {pos : Nat}
    (found : s.calls[i]? = some ⟨operation,.loadSequence pos⟩)
    (ready : pos = s.front operation → difference ≤ 0) :
    1 + (s.goto i ⟨operation,compared difference pos⟩).owes crowd ≤ s.owes crowd := by
  refine keeps_pays 0 found rfl rfl ?_
  rcases @compared_cases α difference pos with tries | refuses | ⟨ahead,again⟩
  · simp only [tries,Call.price]
    omega
  · simp only [refuses,Call.price]
    omega
  · have other : pos ≠ s.front operation := fun same => by
      have ready := ready same
      omega
    simp only [again,Call.price,behind_other other]
    omega

/-- The sequences a call compares at the front, read as signed numbers. -/
theorem front_ready (inv : Inv (2 ^ k) s) (fits : k < w) (few : s.pushed.length < 2 ^ (w - 1)) :
    diff w (s.cell (2 ^ k) s.tail).sequence s.tail ≤ 0 ∧
      diff w (s.cell (2 ^ k) s.head).sequence ((s.head + 1) % 2 ^ w) ≤ 0 := by
  have tail := inv.tail
  have ordered := inv.ordered
  have last := inv.tail_sequence
  have first := inv.head_unfilled
  have within := inv.head_sequence
  have half : 2 ^ w = 2 * 2 ^ (w - 1) := by
    rw [← Nat.pow_succ',Nat.succ_eq_add_one,Nat.sub_add_cancel (by omega)]
  have small : (s.head + 1) % 2 ^ w = s.head + 1 := Nat.mod_eq_of_lt (by omega)
  rw [small,diff_near (by omega) (by omega) (by omega),diff_near (by omega) (by omega) (by omega)]
  omega

theorem access_pays (inv : Inv (2 ^ k) s) (fits : k < w) (few : s.pushed.length < 2 ^ (w - 1))
    (crowded : s.running ≤ crowd) (found : s.calls[i]? = some old)
    (accessed : advance moved w (2 ^ k) s i old = some t) : 1 + t.owes crowd ≤ s.owes crowd := by
  obtain ⟨tailReady,headReady⟩ := front_ready inv fits few
  unfold advance at accessed
  split at accessed
  next item =>
    cases accessed
    refine keeps_pays 0 found rfl rfl ?_
    simp only [Call.price,State.front,behind_self]
    omega
  next item pos =>
    cases accessed
    refine compare_pays found ?_
    intro same
    cases same
    exact tailReady
  next item pos =>
    split at accessed
    · cases accessed
      refine wins_pays found crowded rfl ?_
      simp only [Call.price]
      omega
    · next other =>
      cases accessed
      refine keeps_pays 0 found rfl rfl ?_
      simp only [Call.price,State.front,behind_self,behind_other (Ne.symm other)]
      omega
  next item pos =>
    cases accessed
    refine keeps_pays 0 found rfl rfl ?_
    simp [Call.price]
  next item pos =>
    cases accessed
    refine keeps_pays 0 found rfl rfl ?_
    simp [Call.price]
  next =>
    cases accessed
    refine keeps_pays 0 found rfl rfl ?_
    simp only [Call.price,State.front,behind_self]
    omega
  next pos =>
    cases accessed
    refine compare_pays found ?_
    intro same
    cases same
    exact headReady
  next pos =>
    split at accessed
    · cases accessed
      refine wins_pays found crowded rfl ?_
      simp only [Call.price]
      omega
    · next other =>
      cases accessed
      refine keeps_pays 0 found rfl rfl ?_
      simp only [Call.price,State.front,behind_self,behind_other (Ne.symm other)]
      omega
  next pos =>
    cases accessed
    refine keeps_pays 0 found rfl rfl ?_
    simp [Call.price]
  next pos item =>
    cases accessed
    refine keeps_pays 0 found rfl rfl ?_
    simp [Call.price]
  next => contradiction

theorem slip_pays (found : s.calls[i]? = some old) (slipped : step moved w (2 ^ k) s (.fail i) = some t) :
    1 + t.owes crowd ≤ s.owes crowd + 2 := by
  simp only [step,found] at slipped
  split at slipped
  next item pos same =>
    cases same
    cases slipped
    refine keeps_pays 2 found rfl rfl ?_
    simp only [Call.price,State.front,behind_self]
    omega
  next pos same =>
    cases same
    cases slipped
    refine keeps_pays 2 found rfl rfl ?_
    simp only [Call.price,State.front,behind_self]
    omega
  next => contradiction

theorem step_pays (inv : Inv (2 ^ k) s) (fits : k < w) (few : s.pushed.length < 2 ^ (w - 1))
    (crowded : s.running ≤ crowd) (label : Label α) (taken : step moved w (2 ^ k) s label = some t) :
    1 + t.owes crowd ≤ s.owes crowd +
      ((if label.starts then 2 * crowd + 6 else 0) + if label.slips then 2 else 0) := by
  cases label with
  | invoke operation =>
    cases taken
    have same : Call.price crowd {s with calls := s.calls ++ [⟨operation,.loadPosition⟩]} = Call.price crowd s :=
      funext (price_front rfl)
    have first : Call.price crowd s ⟨operation,.loadPosition⟩ = 5 + 2 * crowd := rfl
    simp only [State.owes,same,owed_append,first,Label.starts,Label.asks,Option.isSome_some,Label.slips,if_true]
    omega
  | access i =>
    obtain ⟨call,found,accessed⟩ := Option.bind_eq_some_iff.mp taken
    exact access_pays inv fits few crowded found accessed
  | fail i =>
    cases found : s.calls[i]? with
    | none => simp [step,found] at taken
    | some call => exact slip_pays found taken

theorem step_grows {label : Label α} (taken : step moved w (2 ^ k) s label = some t) :
    t.calls.length = s.calls.length + if label.starts then 1 else 0 := by
  rw [step_length taken]
  cases label <;> rfl

/-- No call waits for another: each has an access of its own until it returns. -/
theorem Fact.goes_on {capacity : Nat} {call : Call α} (fact : Fact capacity s call)
    (running : call.outcome = none) : (advance moved w capacity s i call).isSome = true := by
  obtain ⟨operation,point⟩ := call
  cases operation with
  | push item =>
    cases point with
    | loadPosition | loadSequence pos | writeData pos | storePushed pos => rfl
    | exchange pos =>
      simp only [advance]
      split <;> rfl
    | pushed pos | refused => contradiction
    | _ => exact fact.elim
  | pop =>
    cases point with
    | loadPosition | loadSequence pos | readData pos | storePopped pos item => rfl
    | exchange pos =>
      simp only [advance]
      split <;> rfl
    | popped pos item | refused => contradiction
    | _ => exact fact.elim

/-- `MPMCQueue` is lock-free: a stopped `Push` or `Pop` makes the others return
empty-handed at worst. In any stretch of a run in which at most `crowd` calls are
running at a time, the calls make no more than `2 * crowd + 6` steps for each of
them and two for each spurious failure; any longer stretch has brought some call
to its end; and no call that is running ever has to wait for another. -/
theorem queue_lock_free (crowd : Nat) {data : Nat → α} {labels more : List (Label α)} (two : 1 ≤ k) (fits : k < w)
    (reached : run (step moved w (2 ^ k)) (init data) labels = some s)
    (onward : run (step moved w (2 ^ k)) s more = some t)
    (few : Along (step moved w (2 ^ k)) (fun u => u.running ≤ crowd ∧ u.pushed.length < 2 ^ (w - 1)) s more) :
    more.length ≤ (2 * crowd + 6) * (s.running + more.countP Label.starts) + 2 * more.countP Label.slips ∧
    ((2 * crowd + 6) * crowd + 2 * more.countP Label.slips < more.length → s.returned < t.returned) ∧
    ∀ (i : Nat) (call : Call α), t.calls[i]? = some call → call.outcome = none →
      (step moved w (2 ^ k) t (.access i)).isSome = true := by
  have bounded := run_length (Inv (2 ^ k)) (fun (u : State α) _ => u.running ≤ crowd ∧ u.pushed.length < 2 ^ (w - 1))
    (State.owes crowd) Label.starts Label.slips (2 * crowd + 6) 2
    (fun u label v inv given taken => inv.moves two fits given.2 (step_moves moved w (2 ^ k) u v label taken))
    (fun u label v inv given taken => step_pays inv fits given.2 given.1 label taken)
    (inv_run two fits reached (along_first few).2).1
    (owed_le (Call.price crowd s) Call.running s.calls (price_le crowd s))
    (obeys_of_along (fun _ _ given => given) few) onward
  have grown := calls_grow State.calls Label.starts (fun u label v taken => step_grows taken) onward
  obtain ⟨last,short⟩ := along_last few onward
  have inv := (inv_run two fits (run_trans reached onward) short).1
  refine ⟨bounded,fun long => finishes grown bounded last long,fun i call found running => ?_⟩
  have goes : (advance moved w (2 ^ k) t i call).isSome = true := (inv.facts i call found).goes_on running
  simpa [step,found] using goes

/-- A push that loses its position to another: fourteen steps, and a bound of
twenty for the two of them. -/
theorem queue_lock_free_two_pushes :
    ∃ t : State Nat, run (step id 8 (2 ^ 1)) (init fun _ => 0)
      [.invoke (.push 7),.invoke (.push 8),.access 0,.access 1,.access 0,.access 1,.access 0,.access 1,
        .access 0,.access 0,.access 1,.access 1,.access 1,.access 1] = some t ∧ t.running = 0 ∧
      14 ≤ (2 * 2 + 6) * (0 + 2) + 2 * 0 := by
  obtain ⟨t,onward,rest⟩ := Option.map_eq_some_iff.mp (show (run (step id 8 (2 ^ 1)) (init fun _ => 0)
    [.invoke (.push 7),.invoke (.push 8),.access 0,.access 1,.access 0,.access 1,.access 0,.access 1,
      .access 0,.access 0,.access 1,.access 1,.access 1,.access 1]).map
        (fun u => (u.running,u.pushed)) = some (0,[7,8]) from by rfl)
  obtain ⟨idle,items⟩ := Prod.mk.inj rest
  have few : Along (step id 8 (2 ^ 1)) (fun u : State Nat => u.running ≤ 2 ∧ u.pushed.length < 2 ^ (8 - 1))
      (init fun _ => 0) _ := along_of_obeys (by decide) onward (by simp [idle,items])
  exact ⟨t,onward,idle,(queue_lock_free 2 (by decide) (by decide)
    (show run (step id 8 (2 ^ 1)) (init fun _ => 0) [] = some (init fun _ => 0) from rfl) onward few).1⟩

end Ezthread.MpmcQueue
