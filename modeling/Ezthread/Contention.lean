import Ezthread.Transition

/-! Calls that race for one shared word. A call is priced by the steps it would
still take if no other call won the word in between; a call that wins sets back
every call still running, by no more than it has saved up for that. -/
namespace Ezthread.Contention
open Transition

variable {Call State Label : Type*} {step : State → Label → Option State}

def owed (price : Call → Nat) (calls : List Call) : Nat := (calls.map price).sum

theorem owed_append (price : Call → Nat) (calls : List Call) (next : Call) :
    owed price (calls ++ [next]) = owed price calls + price next := by
  simp [owed]

theorem owed_le (price : Call → Nat) (running : Call → Bool) {most : Nat} (calls : List Call)
    (priced : ∀ call, price call ≤ if running call then most else 0) :
    owed price calls ≤ most * calls.countP running := by
  induction calls with
  | nil => simp [owed]
  | cons call rest ih =>
    have own := priced call
    simp only [owed,List.map_cons,List.sum_cons,List.countP_cons] at ih ⊢
    rw [Nat.mul_add]
    split at own <;> simp_all
    omega

theorem owed_setback {before after : Call → Nat} {running : Call → Bool} {setback : Nat} (calls : List Call)
    (slowed : ∀ call, after call ≤ before call + if running call then setback else 0) :
    owed after calls ≤ owed before calls + setback * calls.countP running := by
  induction calls with
  | nil => simp [owed]
  | cons call rest ih =>
    have own := slowed call
    simp only [owed,List.map_cons,List.sum_cons,List.countP_cons] at ih ⊢
    rw [Nat.mul_add]
    split at own <;> simp_all <;> omega

/-- The calls other than the one that moved owe no more than their setback on top
of what they owed. -/
theorem owed_race {before after : Call → Nat} {running : Call → Bool} {setback i : Nat} {calls : List Call}
    {old : Call} (next : Call) (found : calls[i]? = some old)
    (slowed : ∀ call, after call ≤ before call + if running call then setback else 0) :
    owed after (calls.set i next) + before old ≤ owed before calls + after next + setback * calls.countP running := by
  induction calls generalizing i with
  | nil => simp at found
  | cons call rest ih =>
    cases i with
    | zero =>
      cases found
      have others := owed_setback rest slowed
      have fewer : rest.countP running ≤ (old :: rest).countP running := (List.sublist_cons_self _ _).countP_le
      have slower := Nat.mul_le_mul_left setback fewer
      simp only [owed,List.set_cons_zero,List.map_cons,List.sum_cons] at others ⊢
      omega
    | succ i =>
      have others := ih (i := i) (by simpa using found)
      have own := slowed call
      simp only [owed,List.set_cons_succ,List.map_cons,List.sum_cons,List.countP_cons] at others ⊢
      rw [Nat.mul_add]
      split at own <;> simp_all <;> omega

/-- What the step of one call costs, paid out of what it owed and what the label
brings, where no more than a crowd is running. -/
theorem owed_step (running : Call → Bool) (setback crowd gain : Nat) {before after : Call → Nat} {i : Nat}
    {calls : List Call} {old next : Call} (found : calls[i]? = some old)
    (slowed : ∀ call, after call ≤ before call + if running call then setback else 0)
    (few : calls.countP running ≤ crowd) (pays : 1 + after next + setback * crowd ≤ before old + gain) :
    1 + owed after (calls.set i next) ≤ owed before calls + gain := by
  have raced := owed_race next found slowed
  have slower := Nat.mul_le_mul_left setback few
  omega

/-- A run whose steps are paid for by what the calls owed at first, by what each
call brings when it starts and by what each slip gives back. -/
theorem run_length (Inv : State → Prop) (cond : State → Label → Prop) (owes : State → Nat)
    (starts slips : Label → Bool) (most slip : Nat)
    (preserved : ∀ state label next, Inv state → cond state label → step state label = some next → Inv next)
    (pays : ∀ state label next, Inv state → cond state label → step state label = some next →
      1 + owes next ≤ owes state + ((if starts label then most else 0) + if slips label then slip else 0))
    {state last : State} {labels : List Label} {running : Nat} (initial : Inv state) (debt : owes state ≤ most * running)
    (obeyed : Obeys step cond state labels) (reached : run step state labels = some last) :
    labels.length ≤ most * (running + labels.countP starts) + slip * labels.countP slips := by
  have paid := run_bound Inv cond (fun _ => 1)
    (fun label => (if starts label then most else 0) + if slips label then slip else 0) owes preserved pays
    initial obeyed reached
  have counted : (labels.map fun label => (if starts label then most else 0) + if slips label then slip else 0).sum =
      most * labels.countP starts + slip * labels.countP slips := by
    clear paid reached obeyed
    induction labels with
    | nil => simp
    | cons label rest ih =>
      simp only [List.map_cons,List.sum_cons,List.countP_cons,Nat.mul_add,ih]
      split <;> split <;> simp <;> omega
  rw [counted,List.map_const',List.sum_replicate_nat] at paid
  rw [Nat.mul_add]
  omega

theorem calls_grow (calls : State → List Call) (starts : Label → Bool)
    (grows : ∀ state label next, step state label = some next →
      (calls next).length = (calls state).length + if starts label then 1 else 0)
    {state last : State} {labels : List Label} (reached : run step state labels = some last) :
    (calls last).length = (calls state).length + labels.countP starts := by
  induction labels generalizing state with
  | nil =>
    cases reached
    rfl
  | cons label rest ih =>
    obtain ⟨next,taken,remaining⟩ := run_cons_some reached
    rw [ih remaining,grows state label next taken,List.countP_cons]
    omega

/-- More steps than a crowd can owe have brought some call to its end. -/
theorem finishes {running : Call → Bool} {before after : List Call} {started crowd most slips length : Nat}
    (grown : after.length = before.length + started)
    (bounded : length ≤ most * (before.countP running + started) + slips)
    (few : after.countP running ≤ crowd) (long : most * crowd + slips < length) :
    before.countP (fun call => !running call) < after.countP (fun call => !running call) := by
  by_contra none
  have first := List.length_eq_countP_add_countP running (l := before)
  have last := List.length_eq_countP_add_countP running (l := after)
  simp only [Bool.not_eq_true,Bool.decide_eq_false] at first last
  have crowded : before.countP running + started ≤ crowd := by
    omega
  have affordable := Nat.mul_le_mul_left most crowded
  omega

end Ezthread.Contention
