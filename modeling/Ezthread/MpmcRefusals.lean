import Ezthread.MpmcSerial

/-! The refusals of `MPMCQueue`. A `Push` or `Pop` gives up on the sequence of one
cell, which a call stalled between its exchange and its store has not moved on: a
`Pop` may find the queue empty, and a `Push` full, at no moment at which it is. -/
namespace Ezthread.MpmcQueue
open Transition Activation RingBuffer

variable {α : Type*} {moved : α → α} {w k : Nat} {s t : State α}

/-- The position of a `Push` that has returned true. -/
def Call.accepted : Call α → Option Nat
  | ⟨.push _,.pushed pos⟩ => some pos
  | _ => none

/-- Every item whose `Push` has returned true has been claimed by some `Pop`. -/
def Drained (s : State α) : Prop := ∀ pos, Held Call.accepted s.calls pos → Held Call.popTicket s.calls pos

/-- As many items as there are cells have been claimed by `Push` and not by `Pop`. -/
def Full (capacity : Nat) (s : State α) : Prop := s.tail = s.head + capacity

/-- A moment of the call at which its refusal is right. -/
def Justifies (capacity i : Nat) (s : State α) : Operation α → Prop
  | .pop => (∃ point, s.calls[i]? = some ⟨.pop,point⟩ ∧ (⟨.pop,point⟩ : Call α).outcome = none) ∧ Drained s
  | .push item =>
      (∃ point, s.calls[i]? = some ⟨.push item,point⟩ ∧ (⟨.push item,point⟩ : Call α).outcome = none) ∧ Full capacity s

/-- A `Pop` reads the cell of a `Push` stalled before its store only while no `Push`
that won a later position has returned; a `Push` reads no cell of a stalled `Pop`. -/
def Prompt (capacity : Nat) (s : State α) : Label α → Prop
  | .access i =>
      (∀ pos, s.calls[i]? = some ⟨.pop,.loadSequence pos⟩ → Held Call.producing s.calls pos →
        ∀ later, Held Call.accepted s.calls later → later < pos) ∧
      (∀ (item : α) (pos : Nat), s.calls[i]? = some ⟨.push item,.loadSequence pos⟩ →
        ∀ earlier, earlier + capacity = pos → ¬ Held Call.consuming s.calls earlier)
  | _ => True

theorem accepted_pushTicket {call : Call α} {pos : Nat} (owns : call.accepted = some pos) : call.pushTicket = some pos := by
  obtain ⟨operation,point⟩ := call
  cases operation <;> cases point <;> first | contradiction | exact owns

theorem slot_laps (k pos laps : Nat) : slot (2 ^ k) (pos + laps * 2 ^ k) = slot (2 ^ k) pos := by
  rw [slot_eq,slot_eq,Nat.add_mul_mod_self_right]

/-- The last position won that has the cell of an earlier one. -/
theorem latest_lap {pos tail : Nat} (below : pos < tail) (k : Nat) :
    ∃ last, pos ≤ last ∧ last < tail ∧ tail ≤ last + 2 ^ k ∧ slot (2 ^ k) last = slot (2 ^ k) pos := by
  refine ⟨pos + (tail - 1 - pos) / 2 ^ k * 2 ^ k,Nat.le_add_right _ _,?_,?_,slot_laps k pos _⟩
  · have laps := Nat.div_mul_le_self (tail - 1 - pos) (2 ^ k)
    omega
  · have split := Nat.div_add_mod' (tail - 1 - pos) (2 ^ k)
    have rest := Nat.mod_lt (tail - 1 - pos) (Nat.two_pow_pos k)
    omega

/-- How far the call that last won the cell has come. -/
theorem Inv.lap_sequence (inv : Inv (2 ^ k) s) {last : Nat} (below : last < s.tail) (within : s.tail ≤ last + 2 ^ k) :
    ((s.cell (2 ^ k) last).sequence = last ∧ s.head ≤ last ∧ Held Call.producing s.calls last) ∨
    (s.cell (2 ^ k) last).sequence = last + 1 ∨ ((s.cell (2 ^ k) last).sequence = last + 2 ^ k ∧ last < s.head) := by
  rcases Nat.lt_or_ge last s.head with popped | present
  · by_cases read : Held Call.consuming s.calls last
    · exact Or.inr (Or.inl (inv.reading last read).2.2)
    · exact Or.inr (Or.inr ⟨inv.free last popped within read,popped⟩)
  · by_cases written : Held Call.producing s.calls last
    · exact Or.inl ⟨(inv.writing last written).2.2,present,written⟩
    · exact Or.inr (Or.inl (inv.stored last present below written).1)

section Refusals
variable (inv : Inv (2 ^ k) s) (few : s.pushed.length + 2 ^ k ≤ 2 ^ (w - 1))

include inv few

theorem cell_small {pos : Nat} (below : pos < s.tail) :
    ∃ last, pos ≤ last ∧ (s.cell (2 ^ k) pos).sequence < 2 ^ (w - 1) ∧
      (((s.cell (2 ^ k) pos).sequence = last ∧ s.head ≤ last ∧ Held Call.producing s.calls last) ∨
        last < (s.cell (2 ^ k) pos).sequence) := by
  obtain ⟨last,after,inside,within,same⟩ := latest_lap below k
  have size := Nat.two_pow_pos k
  have tail := inv.tail
  have cell : s.cell (2 ^ k) pos = s.cell (2 ^ k) last := congrArg s.buffer same.symm
  rw [cell]
  refine ⟨last,after,?_⟩
  rcases inv.lap_sequence inside within with ⟨writing,present,written⟩ | stored | ⟨free,_⟩
  · exact ⟨by omega,Or.inl ⟨writing,present,written⟩⟩
  · exact ⟨by omega,Or.inr (by omega)⟩
  · exact ⟨by omega,Or.inr (by omega)⟩

theorem pop_refused {pos : Nat} (wide : 0 < w) (below : pos ≤ s.head)
    (negative : diff w (s.cell (2 ^ k) pos).sequence ((pos + 1) % 2 ^ w) < 0) :
    pos = s.head ∧ (s.head = s.tail ∨ Held Call.producing s.calls s.head) := by
  have ordered := inv.ordered
  rcases Nat.lt_or_ge pos s.tail with inside | empty
  · obtain ⟨last,after,small,either⟩ := cell_small inv few inside
    have half : 2 ^ (w - 1) < 2 ^ w := Nat.pow_lt_pow_right (by omega) (by omega)
    have tail := inv.tail
    have size := Nat.two_pow_pos k
    rw [Nat.mod_eq_of_lt (by omega),diff_near wide small (by omega)] at negative
    rcases either with ⟨writing,present,written⟩ | later
    · obtain rfl : last = s.head := by omega
      exact ⟨by omega,Or.inr written⟩
    · omega
  · exact ⟨by omega,Or.inl (by omega)⟩

theorem push_refused {pos : Nat} (wide : 0 < w) (below : pos ≤ s.tail)
    (negative : diff w (s.cell (2 ^ k) pos).sequence pos < 0) :
    pos = s.tail ∧ (Full (2 ^ k) s ∨ ∃ earlier, earlier + 2 ^ k = pos ∧ Held Call.consuming s.calls earlier) := by
  have tail := inv.tail
  have size := Nat.two_pow_pos k
  rcases Nat.lt_or_eq_of_le below with inside | rfl
  · obtain ⟨last,after,small,either⟩ := cell_small inv few inside
    rw [diff_near wide small (by omega)] at negative
    rcases either with ⟨writing,_,_⟩ | later <;> omega
  · refine ⟨rfl,?_⟩
    have bounded := inv.bounded
    have ordered := inv.ordered
    have vacant (free : (s.cell (2 ^ k) s.tail).sequence = s.tail) : False := by
      rw [free,diff_near wide (by omega) (by omega)] at negative
      omega
    rcases Nat.lt_or_ge s.tail (2 ^ k) with first | lap
    · exact (vacant (inv.unused s.tail (Nat.le_refl _) first)).elim
    · obtain ⟨earlier,last⟩ : ∃ earlier, earlier + 2 ^ k = s.tail := ⟨s.tail - 2 ^ k,by omega⟩
      rcases Nat.lt_or_ge earlier s.head with popped | present
      · by_cases read : Held Call.consuming s.calls earlier
        · exact Or.inr ⟨earlier,last,read⟩
        · have free := inv.free earlier popped (by omega) read
          rw [← cell_lap,last] at free
          exact (vacant free).elim
      · exact Or.inl (by unfold Full; omega)

end Refusals

theorem compared_refused {difference : Int} {pos : Nat} (refused : (compared difference pos : Point α) = .refused) :
    difference < 0 := by
  unfold compared at refused
  split_ifs at refused with zero negative
  exact negative

/-- A call refuses only at the load of a cell's sequence that it finds behind. -/
theorem advance_refused {capacity i : Nat} {call : Call α} (accessed : advance moved w capacity s i call = some t) :
    ∃ next, t.calls = s.calls.set i next ∧ next.operation = call.operation ∧ (next.point = .refused →
      (∃ item pos, call = ⟨.push item,.loadSequence pos⟩ ∧ diff w (s.cell capacity pos).sequence pos < 0) ∨
      ∃ pos, call = ⟨.pop,.loadSequence pos⟩ ∧ diff w (s.cell capacity pos).sequence ((pos + 1) % 2 ^ w) < 0) := by
  unfold advance at accessed
  split at accessed
  next => cases accessed; exact ⟨_,rfl,rfl,fun same => by contradiction⟩
  next item pos =>
    cases accessed
    exact ⟨_,rfl,rfl,fun refused => Or.inl ⟨item,pos,rfl,compared_refused refused⟩⟩
  next => split at accessed <;> (cases accessed; exact ⟨_,rfl,rfl,fun same => by contradiction⟩)
  next => cases accessed; exact ⟨_,rfl,rfl,fun same => by contradiction⟩
  next => cases accessed; exact ⟨_,rfl,rfl,fun same => by contradiction⟩
  next => cases accessed; exact ⟨_,rfl,rfl,fun same => by contradiction⟩
  next pos =>
    cases accessed
    exact ⟨_,rfl,rfl,fun refused => Or.inr ⟨pos,rfl,compared_refused refused⟩⟩
  next => split at accessed <;> (cases accessed; exact ⟨_,rfl,rfl,fun same => by contradiction⟩)
  next => cases accessed; exact ⟨_,rfl,rfl,fun same => by contradiction⟩
  next => cases accessed; exact ⟨_,rfl,rfl,fun same => by contradiction⟩
  next => contradiction

/-- Whoever gives up has done so before, or gives up now on a cell it found behind. -/
theorem refused_step {capacity : Nat} {label : Label α} (taken : step moved w capacity s label = some t) {i : Nat}
    {operation : Operation α} (found : t.calls[i]? = some ⟨operation,.refused⟩) :
    s.calls[i]? = some ⟨operation,.refused⟩ ∨ (label = .access i ∧
      ((∃ item pos, operation = .push item ∧ s.calls[i]? = some ⟨.push item,.loadSequence pos⟩ ∧
          diff w (s.cell capacity pos).sequence pos < 0) ∨
        ∃ pos, operation = .pop ∧ s.calls[i]? = some ⟨.pop,.loadSequence pos⟩ ∧
          diff w (s.cell capacity pos).sequence ((pos + 1) % 2 ^ w) < 0)) := by
  cases label with
  | invoke other =>
    cases taken
    rcases get_append found with kept | ⟨_,own⟩
    · exact Or.inl kept
    · cases congrArg Call.point own
  | fail j =>
    simp only [step] at taken
    split at taken
    next item pos present =>
      cases taken
      rcases get_set found with ⟨_,own⟩ | ⟨_,kept⟩
      · cases congrArg Call.point own
      · exact Or.inl kept
    next pos present =>
      cases taken
      rcases get_set found with ⟨_,own⟩ | ⟨_,kept⟩
      · cases congrArg Call.point own
      · exact Or.inl kept
    next => contradiction
  | access j =>
    obtain ⟨call,present,accessed⟩ := Option.bind_eq_some_iff.mp taken
    obtain ⟨next,calls,operations,refused⟩ := advance_refused accessed
    rw [calls] at found
    rcases get_set found with ⟨rfl,rfl⟩ | ⟨_,kept⟩
    · refine Or.inr ⟨rfl,?_⟩
      rcases refused rfl with ⟨item,pos,rfl,negative⟩ | ⟨pos,rfl,negative⟩
      · exact Or.inl ⟨item,pos,operations,present,negative⟩
      · exact Or.inr ⟨pos,operations,present,negative⟩
    · exact Or.inl kept

theorem fits_of_room {n : Nat} (two : 1 ≤ k) (room : n + 2 ^ k ≤ 2 ^ (w - 1)) : k < w := by
  have pair := Nat.le_self_pow (by omega : k ≠ 0) 2
  have inside : k ≤ w - 1 := (Nat.pow_le_pow_iff_right (by omega)).mp (show 2 ^ k ≤ 2 ^ (w - 1) by omega)
  rcases Nat.eq_zero_or_pos w with rfl | wide
  · simp at room
    omega
  · omega

/-- While no position has wrapped: where no call reads the cell of a stalled one too
soon, every refusal of `Push` or `Pop` is right at some moment of the call. -/
theorem refusals_justified {data : Nat → α} {labels : List (Label α)} (two : 1 ≤ k)
    (reached : run (step moved w (2 ^ k)) (init data) labels = some s) (few : s.pushed.length + 2 ^ k ≤ 2 ^ (w - 1))
    (prompt : Obeys (step moved w (2 ^ k)) (Prompt (2 ^ k)) (init data) labels) {i : Nat} {operation : Operation α}
    (found : s.calls[i]? = some ⟨operation,.refused⟩) :
    Passes (step moved w (2 ^ k)) (fun state => Justifies (2 ^ k) i state operation) (init data) labels := by
  have size := Nat.two_pow_pos k
  have fits := fits_of_room two few
  refine run_past (fun state past => state.pushed.length + 2 ^ k ≤ 2 ^ (w - 1) →
      Obeys (step moved w (2 ^ k)) (Prompt (2 ^ k)) (init data) past →
      ∀ (i : Nat) (operation : Operation α), state.calls[i]? = some ⟨operation,.refused⟩ →
        Passes (step moved w (2 ^ k)) (fun state => Justifies (2 ^ k) i state operation) (init data) past)
    ?_ (fun _ _ i operation found => by contradiction) reached few prompt i operation found
  intro state past label next before known taken small obeyed i operation refused
  have fewer : state.pushed.length + 2 ^ k ≤ 2 ^ (w - 1) :=
    Nat.le_trans (Nat.add_le_add_right (step_moves moved w (2 ^ k) _ _ label taken).pushed_grows _) small
  obtain ⟨earlier,own⟩ := (obeys_snoc before).mp obeyed
  obtain ⟨inv,won⟩ := inv_run two fits before (by omega)
  rcases refused_step taken refused with old | ⟨rfl,given⟩
  · exact (known fewer earlier i operation old).later _
  · refine (passes_now before ?_).later _
    rcases given with ⟨item,pos,rfl,present,negative⟩ | ⟨pos,rfl,present,negative⟩
    · have below : pos ≤ state.tail := inv.facts i _ present
      obtain ⟨_,full | ⟨lap,last,reading⟩⟩ := push_refused inv fewer (by omega) below negative
      · exact ⟨⟨_,present,rfl⟩,full⟩
      · exact absurd reading (own.2 item pos present lap last)
    · have below : pos ≤ state.head := inv.facts i _ present
      obtain ⟨rfl,either⟩ := pop_refused inv fewer (by omega) below negative
      refine ⟨⟨_,present,rfl⟩,fun later returned => won.2 later ?_⟩
      rcases either with empty | stalled
      · obtain ⟨j,call,pushed,owns⟩ := returned
        rw [empty]
        exact inv.pushTicket_lt pushed (accepted_pushTicket owns)
      · exact own.1 _ present stalled later returned

theorem held_iff_mem {key : Call α → Option Nat} {calls : List (Call α)} {pos : Nat} :
    Held key calls pos ↔ pos ∈ calls.filterMap key := by
  rw [List.mem_filterMap]
  constructor
  · intro held
    obtain ⟨j,call,found,owns⟩ := held
    exact ⟨call,List.mem_of_getElem? found,owns⟩
  · intro given
    obtain ⟨call,member,owns⟩ := given
    obtain ⟨j,found⟩ := List.mem_iff_getElem?.mp member
    exact ⟨j,call,found,owns⟩

instance {key : Call α → Option Nat} {calls : List (Call α)} {pos : Nat} : Decidable (Held key calls pos) :=
  decidable_of_iff _ held_iff_mem.symm

/-- `Prompt` computed. -/
def State.prompt (capacity : Nat) (s : State α) : Label α → Bool
  | .access i =>
      match s.calls[i]? with
      | some ⟨.pop,.loadSequence pos⟩ =>
          decide (Held Call.producing s.calls pos → ∀ later ∈ s.calls.filterMap Call.accepted, later < pos)
      | some ⟨.push _,.loadSequence pos⟩ => decide (∀ earlier ∈ s.calls.filterMap Call.consuming, earlier + capacity ≠ pos)
      | _ => true
  | _ => true

theorem prompt_iff {capacity : Nat} {label : Label α} : s.prompt capacity label = true ↔ Prompt capacity s label := by
  cases label with
  | access i =>
    simp only [State.prompt,Prompt]
    split
    next pos found =>
      simp only [decide_eq_true_eq,found,Option.some.injEq,Call.mk.injEq,true_and,Point.loadSequence.injEq,forall_eq',
        held_iff_mem,reduceCtorEq,false_and,false_imp_iff,implies_true,and_true]
    next item pos found => simp [found,held_iff_mem,imp_not_comm]
    next popping pushing =>
      exact iff_of_true rfl ⟨fun pos found => absurd found (popping pos),fun item pos found => absurd found (pushing item pos)⟩
  | invoke | fail => exact iff_of_true rfl trivial

instance {capacity : Nat} {label : Label α} : Decidable (Prompt capacity s label) := decidable_of_iff _ prompt_iff

def emptyBehindPush : List (Label Nat) :=
  [.invoke (.push 1),.access 0,.access 0,.access 0,.access 0,.access 0,
    .invoke .pop,.access 1,.access 1,.access 1,.access 1,.access 1,
    .invoke (.push 2),.access 2,.access 2,.access 2,.invoke .pop,.access 3,.access 3]

/-- One item has gone through the queue and a second `Push` stalls after its exchange,
when a `Pop` is told that the queue is empty. -/
theorem refusals_justified_stalled :
    ∃ s : State Nat, run (step id 64 (2 ^ 1)) (init fun _ => 0) emptyBehindPush = some s ∧
      Held Call.accepted s.calls 0 ∧ Held Call.producing s.calls 1 ∧ s.calls[3]? = some ⟨.pop,.refused⟩ ∧
      Passes (step id 64 (2 ^ 1)) (fun state => Justifies (2 ^ 1) 3 state .pop) (init fun _ => 0) emptyBehindPush := by
  obtain ⟨s,reached,ends⟩ := Option.map_eq_some_iff.mp (show (run (step id 64 (2 ^ 1)) (init fun _ => 0)
    emptyBehindPush).map (fun s => (s.calls,s.pushed)) =
      some ([⟨.push 1,.pushed 0⟩,⟨.pop,.popped 0 1⟩,⟨.push 2,.writeData 1⟩,⟨.pop,.refused⟩],([1,2] : List Nat)) by decide +kernel)
  obtain ⟨calls,pushed⟩ := Prod.mk.inj ends
  have found : s.calls[3]? = some ⟨.pop,.refused⟩ := by rw [calls]; rfl
  exact ⟨s,reached,by rw [calls]; decide,by rw [calls]; decide,found,
    refusals_justified (by decide) reached (by rw [pushed]; decide) (by decide +kernel) found⟩

/-- Two cells. A `Push` stalls after its exchange and the next one returns true: a
`Pop` is told that the queue is empty, while the item of the second stays queued. -/
theorem refused_with_item_queued :
    ∃ s : State Nat, run (step id 64 (2 ^ 1)) (init fun _ => 0)
      [.invoke (.push 1),.access 0,.access 0,.access 0,
        .invoke (.push 2),.access 1,.access 1,.access 1,.access 1,.access 1,
        .invoke .pop,.access 2,.access 2] = some s ∧ s.calls[2]? = some ⟨.pop,.refused⟩ ∧
      ¬ Passes (step id 64 (2 ^ 1)) (fun state => Justifies (2 ^ 1) 2 state .pop) (init fun _ => 0)
        [.invoke (.push 1),.access 0,.access 0,.access 0,
          .invoke (.push 2),.access 1,.access 1,.access 1,.access 1,.access 1,
          .invoke .pop,.access 2,.access 2] := by
  obtain ⟨s,reached,refused⟩ := Option.map_eq_some_iff.mp (show (run (step id 64 (2 ^ 1)) (init fun _ => 0)
    [.invoke (.push 1),.access 0,.access 0,.access 0,
      .invoke (.push 2),.access 1,.access 1,.access 1,.access 1,.access 1,
      .invoke .pop,.access 2,.access 2]).map (fun s => s.calls[2]?) = some (some (⟨.pop,.refused⟩ : Call Nat)) by decide +kernel)
  refine ⟨s,reached,refused,not_passes (fun state => decide (state.calls.length ≤ 2) ||
    (state.calls.any (fun call => call.accepted == some 1) && state.calls.all (fun call => call.popTicket != some 1)))
    (fun state justified => ?_) (by decide +kernel)⟩
  obtain ⟨⟨point,found,_⟩,drained⟩ := justified
  have begun := get_lt found
  rw [Bool.or_eq_false_iff,decide_eq_false_iff_not,Bool.and_eq_false_iff]
  refine ⟨by omega,?_⟩
  by_contra both
  simp only [not_or,Bool.not_eq_false,List.any_eq_true,List.all_eq_true,beq_iff_eq,bne_iff_ne] at both
  obtain ⟨⟨call,member,owns⟩,unclaimed⟩ := both
  obtain ⟨j,present⟩ := List.mem_iff_getElem?.mp member
  obtain ⟨i,other,claimed,same⟩ := drained 1 ⟨j,call,present,owns⟩
  exact unclaimed other (List.mem_of_getElem? claimed) same

/-- Two cells. A `Pop` stalls after its exchange and the next one empties the queue: a
`Push` is told that it is full. -/
example :
    (run (step id 64 (2 ^ 1)) (init fun _ => 0)
      [.invoke (.push 1),.access 0,.access 0,.access 0,.access 0,.access 0,
        .invoke (.push 2),.access 1,.access 1,.access 1,.access 1,.access 1,
        .invoke .pop,.access 2,.access 2,.access 2,
        .invoke .pop,.access 3,.access 3,.access 3,.access 3,.access 3,
        .invoke (.push 3),.access 4,.access 4]).map (fun s => (s.calls[4]?,decide (s.head = s.tail))) =
      some (some (⟨.push 3,.refused⟩ : Call Nat),true) := by
  decide +kernel

end Ezthread.MpmcQueue
