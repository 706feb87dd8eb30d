import Ezthread.MpmcTickets

/-! `MPMCQueue::Size` beside `Push` and `Pop`: it loads `m_head` and later `m_tail`,
and what it returns need not have been the size at any one moment between. -/
namespace Ezthread.MpmcQueue
open Transition Activation RingBuffer

variable {α : Type*} {moved : α → α} {w k : Nat}

/-- A call of `Size` from its first load on, with what it read of `m_head`. -/
inductive SizeCall
  | loadTail (head : Nat)
  | returned (value : Nat)

structure Sized (α : Type*) where
  queue : State α
  sizes : List SizeCall

inductive SizedLabel (α : Type*)
  | queue (label : Label α)
  | loadHead
  | loadTail (i : Nat)

/-- The `size_t` difference of two positions. -/
def distance (w tail head : Nat) : Nat := (tail + (2 ^ w - head)) % 2 ^ w

def sizedStep (moved : α → α) (w capacity : Nat) (s : Sized α) : SizedLabel α → Option (Sized α)
  | .queue label => (step moved w capacity s.queue label).map fun queue => {s with queue := queue}
  | .loadHead => some {s with sizes := s.sizes ++ [.loadTail s.queue.head]}
  | .loadTail i =>
      match s.sizes[i]? with
      | some (.loadTail head) => some {s with sizes := s.sizes.set i (.returned (distance w s.queue.tail head))}
      | _ => none

def sizedInit (data : Nat → α) : Sized α := ⟨init data,[]⟩

/-- The access with which a `Push` wins a position. -/
def State.wins (s : State α) : Label α → Bool
  | .access i =>
      match s.calls[i]? with
      | some ⟨.push _,.exchange pos⟩ => decide (s.tail = pos)
      | _ => false
  | _ => false

/-- A `Push` that wins a position while the call is between its loads finds `m_head`
as the call has read it. -/
def Abreast (i : Nat) (s : Sized α) : SizedLabel α → Prop
  | .queue label => s.queue.wins label = true → ∀ head, s.sizes[i]? = some (.loadTail head) → s.queue.head = head
  | _ => True

/-- A moment at which the call is between its loads and the size is the value. -/
def Measures (w i value : Nat) (s : Sized α) : Prop :=
  (∃ head, s.sizes[i]? = some (.loadTail head)) ∧ distance w s.queue.tail s.queue.head = value

/-- What the call has returned, or would return now. -/
def SizeCall.value (w tail : Nat) : SizeCall → Nat
  | .loadTail head => distance w tail head
  | .returned value => value

section Size
variable {s t : Sized α} {start : Sized α} {past : List (SizedLabel α)} {i value : Nat}

theorem wins_step {before after : State α} {label : Label α} {capacity : Nat}
    (taken : step moved w capacity before label = some after) :
    if before.wins label = true then after.tail = (before.tail + 1) % 2 ^ w ∧ after.head = before.head
    else after.tail = before.tail := by
  cases label with
  | invoke operation =>
    cases taken
    rfl
  | fail i =>
    simp only [step] at taken
    split at taken <;> first | contradiction | (cases taken; rfl)
  | access i =>
    obtain ⟨call,found,accessed⟩ := Option.bind_eq_some_iff.mp taken
    simp only [State.wins,found]
    unfold advance at accessed
    split at accessed
    next => cases accessed; rfl
    next => cases accessed; rfl
    next item pos =>
      split at accessed
      next same =>
        cases accessed
        simp [same,State.goto]
      next apart =>
        cases accessed
        simp [apart,State.goto]
    next => cases accessed; rfl
    next => cases accessed; rfl
    next => cases accessed; rfl
    next => cases accessed; rfl
    next => split at accessed <;> (cases accessed; rfl)
    next => cases accessed; rfl
    next => cases accessed; rfl
    next => contradiction

/-- Every call of `Size` that no `Push` has passed after a `Pop` has a moment. -/
def Measured (moved : α → α) (w capacity : Nat) (start s : Sized α) (past : List (SizedLabel α)) : Prop :=
  ∀ (i : Nat) (call : SizeCall), s.sizes[i]? = some call → Obeys (sizedStep moved w capacity) (Abreast i) start past →
    Passes (sizedStep moved w capacity) (Measures w i (call.value w s.queue.tail)) start past

theorem measured_step {capacity : Nat} (s : Sized α) (past : List (SizedLabel α)) (label : SizedLabel α) (t : Sized α)
    (reached : run (sizedStep moved w capacity) start past = some s) (measured : Measured moved w capacity start s past)
    (taken : sizedStep moved w capacity s label = some t) : Measured moved w capacity start t (past ++ [label]) := by
  intro i call found obeyed
  obtain ⟨before,own⟩ := (obeys_snoc reached).mp obeyed
  have whole := run_snoc reached taken
  cases label with
  | queue label =>
    obtain ⟨queue,stepped,rfl⟩ := Option.map_eq_some_iff.mp taken
    have moves := wins_step stepped
    cases call with
    | returned value => exact (measured i _ found before).later _
    | loadTail head =>
      split at moves
      next wins =>
        obtain rfl : s.queue.head = head := own wins head found
        refine passes_now whole ⟨⟨_,found⟩,?_⟩
        rw [moves.2]
        rfl
      next =>
        have known := (measured i _ found before).later [.queue label]
        rw [← moves] at known
        exact known
  | loadHead =>
    cases taken
    rcases get_append found with kept | ⟨rfl,rfl⟩
    · exact (measured i call kept before).later _
    · exact passes_now whole ⟨⟨_,found⟩,rfl⟩
  | loadTail j =>
    simp only [sizedStep] at taken
    split at taken
    next head present =>
      cases taken
      rcases get_set found with ⟨rfl,rfl⟩ | ⟨_,kept⟩
      · exact (measured i _ present before).later _
      · exact (measured i call kept before).later _
    next => contradiction

theorem distance_eq {tail head : Nat} (ordered : head ≤ tail) (small : tail < 2 ^ w) : distance w tail head = tail - head := by
  have shifted : tail + (2 ^ w - head) = (tail - head) + 2 ^ w := by omega
  rw [distance,shifted,Nat.add_mod_right,Nat.mod_eq_of_lt (by omega)]

/-- What the moments of the calls of `Size` tell, while no position has wrapped. -/
structure Exact (moved : α → α) (w k : Nat) (start s : Sized α) (past : List (SizedLabel α)) : Prop where
  inv : Inv (2 ^ k) s.queue
  won : Won s.queue
  bounded : ∀ i value, Passes (sizedStep moved w (2 ^ k)) (Measures w i value) start past → value ≤ 2 ^ k
  unbegun : ∀ i, s.sizes.length ≤ i → Obeys (sizedStep moved w (2 ^ k)) (Abreast i) start past ∧
    ∀ value, ¬ Passes (sizedStep moved w (2 ^ k)) (Measures w i value) start past
  loaded : ∀ i head, s.sizes[i]? = some (.loadTail head) → head ≤ s.queue.head ∧
    ∀ value, Passes (sizedStep moved w (2 ^ k)) (Measures w i value) start past → value ≤ s.queue.tail - head
  exact : ∀ i call, s.sizes[i]? = some call →
    Passes (sizedStep moved w (2 ^ k)) (Measures w i (call.value w s.queue.tail)) start past →
      Obeys (sizedStep moved w (2 ^ k)) (Abreast i) start past

theorem Inv.tail_small {queue : State α} (inv : Inv (2 ^ k) queue) (few : queue.pushed.length < 2 ^ (w - 1)) :
    queue.tail < 2 ^ w := by
  rw [inv.tail]
  exact Nat.lt_of_lt_of_le few (Nat.pow_le_pow_right (by omega) (by omega))

theorem Moves.head_grows {before after : State α} (moves : Moves moved w (2 ^ k) before after) (inv : Inv (2 ^ k) before)
    (fits : k < w) (few : before.pushed.length < 2 ^ (w - 1)) : before.head ≤ after.head := by
  cases moves with
  | claimPop i found =>
    change before.head ≤ (before.head + 1) % 2 ^ w
    rw [(inv.no_wrap fits few inv.ordered).1]
    exact Nat.le_succ _
  | _ => exact Nat.le_refl _

theorem exact_queue (two : 1 ≤ k) (fits : k < w) {past : List (SizedLabel α)} {queue : State α} {label : Label α}
    (reached : run (sizedStep moved w (2 ^ k)) start past = some s) (exact : Exact moved w k start s past)
    (stepped : step moved w (2 ^ k) s.queue label = some queue) (few : queue.pushed.length < 2 ^ (w - 1)) :
    Exact moved w k start {s with queue := queue} (past ++ [.queue label]) := by
  have queueMoves := step_moves moved w (2 ^ k) _ _ label stepped
  have fewer : s.queue.pushed.length < 2 ^ (w - 1) := Nat.lt_of_le_of_lt queueMoves.pushed_grows few
  have inv := exact.inv.moves two fits fewer queueMoves
  have taken : sizedStep moved w (2 ^ k) s (.queue label) = some {s with queue := queue} := by
    simp only [sizedStep,stepped,Option.map_some]
  have now : distance w s.queue.tail s.queue.head = s.queue.tail - s.queue.head :=
    distance_eq exact.inv.ordered (exact.inv.tail_small fewer)
  have next : distance w queue.tail queue.head = queue.tail - queue.head := distance_eq inv.ordered (inv.tail_small few)
  have ordered := exact.inv.ordered
  have later := inv.ordered
  -- Either a `Push` wins a position and the head stays, or the head may move and the tail stays.
  have moves : (s.queue.wins label = true ∧ queue.tail = s.queue.tail + 1 ∧ queue.head = s.queue.head) ∨
      (s.queue.wins label = false ∧ queue.tail = s.queue.tail ∧ s.queue.head ≤ queue.head) := by
    have won := wins_step stepped
    split at won
    next wins =>
      rw [(exact.inv.no_wrap fits fewer (Nat.le_refl _)).1] at won
      exact Or.inl ⟨wins,won⟩
    next other =>
      exact Or.inr ⟨by simpa using other,won,queueMoves.head_grows exact.inv fits fewer⟩
  have snoc (i value : Nat) := @passes_snoc _ _ _ (Measures w i value) _ _ _ _ _ reached taken
  refine ⟨inv,exact.won.moves exact.inv fits fewer queueMoves,fun i value passed => ?_,fun i unbegun => ?_,fun i head found => ?_,
    fun i call found passed => ?_⟩
  · rcases (snoc i value).mp passed with old | ⟨_,rfl⟩
    · exact exact.bounded i value old
    · have bounded := inv.bounded
      change distance w queue.tail queue.head ≤ 2 ^ k
      omega
  · obtain ⟨obeyed,never⟩ := exact.unbegun i unbegun
    have absent : s.sizes[i]? = none := List.getElem?_eq_none unbegun
    refine ⟨(obeys_snoc reached).mpr ⟨obeyed,fun _ head found => by simp [absent] at found⟩,fun value passed => ?_⟩
    rcases (snoc i value).mp passed with old | ⟨⟨head,found⟩,_⟩
    · exact never value old
    · simp [absent] at found
  · obtain ⟨below,most⟩ := exact.loaded i head found
    refine ⟨by change head ≤ queue.head; omega,fun value passed => ?_⟩
    change value ≤ queue.tail - head
    rcases (snoc i value).mp passed with old | ⟨_,rfl⟩
    · have bound := most value old
      omega
    · change distance w queue.tail queue.head ≤ queue.tail - head
      omega
  · cases call with
    | returned value =>
      rcases (snoc i value).mp passed with old | ⟨⟨head,reading⟩,_⟩
      · exact (obeys_snoc reached).mpr ⟨exact.exact i _ found old,fun _ head reading => by
          cases found.symm.trans reading⟩
      · cases found.symm.trans reading
    | loadTail head =>
      obtain ⟨below,most⟩ := exact.loaded i head found
      have value : distance w queue.tail head = queue.tail - head :=
        distance_eq (by omega) (inv.tail_small few)
      have before : distance w s.queue.tail head = s.queue.tail - head :=
        distance_eq (by omega) (exact.inv.tail_small fewer)
      -- Had the call read the present head, then no `Push` has passed it so far.
      have level (same : s.queue.head = head) : Obeys (sizedStep moved w (2 ^ k)) (Abreast i) start past := by
        subst same
        exact exact.exact i _ found (passes_now reached ⟨⟨_,found⟩,rfl⟩)
      change Passes _ (Measures w i (distance w queue.tail head)) start _ at passed
      rw [value] at passed
      rw [obeys_snoc reached]
      rcases (snoc i _).mp passed with old | ⟨_,equal⟩
      · have bound := most _ old
        rcases moves with ⟨wins,tail,same⟩ | ⟨other,tail,grows⟩
        · omega
        · rw [tail,← before] at old
          exact ⟨exact.exact i _ found old,fun wins => by simp [other] at wins⟩
      · change distance w queue.tail queue.head = _ at equal
        have same : s.queue.head = head := by
          rcases moves with ⟨_,_,kept⟩ | ⟨_,_,grows⟩ <;> omega
        refine ⟨level same,fun _ other reading => ?_⟩
        cases found.symm.trans reading
        exact same

theorem exact_loadHead {past : List (SizedLabel α)} (reached : run (sizedStep moved w (2 ^ k)) start past = some s)
    (exact : Exact moved w k start s past) (few : s.queue.pushed.length < 2 ^ (w - 1)) :
    Exact moved w k start {s with sizes := s.sizes ++ [.loadTail s.queue.head]} (past ++ [.loadHead]) := by
  have now : distance w s.queue.tail s.queue.head = s.queue.tail - s.queue.head :=
    distance_eq exact.inv.ordered (exact.inv.tail_small few)
  have snoc (i value : Nat) := @passes_snoc _ _ _ (Measures w i value) _ _ _ _ _ reached
    (show sizedStep moved w (2 ^ k) s .loadHead = some _ from rfl)
  have obeys (i : Nat) (obeyed : Obeys (sizedStep moved w (2 ^ k)) (Abreast i) start past) :
      Obeys (sizedStep moved w (2 ^ k)) (Abreast i) start (past ++ [.loadHead]) :=
    (obeys_snoc reached).mpr ⟨obeyed,trivial⟩
  -- A call already begun is no nearer its end, and the moment now is not a new one for it.
  have old (i : Nat) (call : SizeCall) (found : s.sizes[i]? = some call) (value : Nat)
      (passed : Passes (sizedStep moved w (2 ^ k)) (Measures w i value) start (past ++ [.loadHead])) :
      Passes (sizedStep moved w (2 ^ k)) (Measures w i value) start past := by
    rcases (snoc i value).mp passed with before | ⟨⟨head,reading⟩,measured⟩
    · exact before
    · rcases get_append reading with kept | ⟨rfl,_⟩
      · exact passes_now reached ⟨⟨head,kept⟩,measured⟩
      · exact absurd (get_lt found) (Nat.lt_irrefl _)
  refine ⟨exact.inv,exact.won,fun i value passed => ?_,fun i unbegun => ?_,fun i head found => ?_,fun i call found passed => ?_⟩
  · rcases (snoc i value).mp passed with before | ⟨_,rfl⟩
    · exact exact.bounded i value before
    · have bounded := exact.inv.bounded
      have ordered := exact.inv.ordered
      change distance w s.queue.tail s.queue.head ≤ 2 ^ k
      omega
  · have length : s.sizes.length + 1 ≤ i := by simpa using unbegun
    obtain ⟨obeyed,never⟩ := exact.unbegun i (by omega)
    refine ⟨obeys i obeyed,fun value passed => ?_⟩
    rcases (snoc i value).mp passed with before | ⟨⟨head,reading⟩,_⟩
    · exact never value before
    · have inside := get_lt reading
      simp only [List.length_append,List.length_singleton] at inside
      omega
  · rcases get_append found with kept | ⟨rfl,own⟩
    · obtain ⟨below,most⟩ := exact.loaded i head kept
      exact ⟨below,fun value passed => most value (old i _ kept value passed)⟩
    · cases own
      refine ⟨Nat.le_refl _,fun value passed => ?_⟩
      rcases (snoc _ value).mp passed with before | ⟨_,rfl⟩
      · exact absurd before ((exact.unbegun _ (Nat.le_refl _)).2 value)
      · exact Nat.le_of_eq now
  · rcases get_append found with kept | ⟨rfl,own⟩
    · exact obeys i (exact.exact i call kept (old i call kept _ passed))
    · exact obeys _ (exact.unbegun _ (Nat.le_refl _)).1

theorem exact_loadTail {past : List (SizedLabel α)} (reached : run (sizedStep moved w (2 ^ k)) start past = some s)
    (exact : Exact moved w k start s past) {j : Nat} {head : Nat} (present : s.sizes[j]? = some (.loadTail head)) :
    Exact moved w k start {s with sizes := s.sizes.set j (.returned (distance w s.queue.tail head))} (past ++ [.loadTail j]) := by
  have taken : sizedStep moved w (2 ^ k) s (.loadTail j) =
      some {s with sizes := s.sizes.set j (.returned (distance w s.queue.tail head))} := by
    simp only [sizedStep,present]
  have obeys (i : Nat) (obeyed : Obeys (sizedStep moved w (2 ^ k)) (Abreast i) start past) :
      Obeys (sizedStep moved w (2 ^ k)) (Abreast i) start (past ++ [.loadTail j]) :=
    (obeys_snoc reached).mpr ⟨obeyed,trivial⟩
  have old (i value : Nat) (passed : Passes (sizedStep moved w (2 ^ k)) (Measures w i value) start (past ++ [.loadTail j])) :
      Passes (sizedStep moved w (2 ^ k)) (Measures w i value) start past := by
    rcases (passes_snoc reached taken).mp passed with before | ⟨⟨other,reading⟩,measured⟩
    · exact before
    · rcases get_set reading with ⟨_,own⟩ | ⟨_,kept⟩
      · contradiction
      · exact passes_now reached ⟨⟨other,kept⟩,measured⟩
  refine ⟨exact.inv,exact.won,fun i value passed => exact.bounded i value (old i value passed),fun i unbegun => ?_,
    fun i other found => ?_,fun i call found passed => ?_⟩
  · obtain ⟨obeyed,never⟩ := exact.unbegun i (by simpa using unbegun)
    exact ⟨obeys i obeyed,fun value passed => never value (old i value passed)⟩
  · rcases get_set found with ⟨_,own⟩ | ⟨_,kept⟩
    · contradiction
    · obtain ⟨below,most⟩ := exact.loaded i other kept
      exact ⟨below,fun value passed => most value (old i value passed)⟩
  · rcases get_set found with ⟨rfl,rfl⟩ | ⟨_,kept⟩
    · exact obeys i (exact.exact i _ present (old i _ passed))
    · exact obeys i (exact.exact i call kept (old i _ passed))

theorem exact_step (two : 1 ≤ k) (fits : k < w) (s : Sized α) (past : List (SizedLabel α)) (label : SizedLabel α) (t : Sized α)
    (reached : run (sizedStep moved w (2 ^ k)) start past = some s)
    (known : s.queue.pushed.length < 2 ^ (w - 1) → Exact moved w k start s past)
    (taken : sizedStep moved w (2 ^ k) s label = some t) (few : t.queue.pushed.length < 2 ^ (w - 1)) :
    Exact moved w k start t (past ++ [label]) := by
  cases label with
  | queue label =>
    obtain ⟨queue,stepped,rfl⟩ := Option.map_eq_some_iff.mp taken
    have grows := (step_moves moved w (2 ^ k) _ _ label stepped).pushed_grows
    exact exact_queue two fits reached (known (Nat.lt_of_le_of_lt grows few)) stepped few
  | loadHead =>
    cases taken
    exact exact_loadHead reached (known few) few
  | loadTail j =>
    simp only [sizedStep] at taken
    split at taken
    next head present =>
      cases taken
      exact exact_loadTail reached (known few) present
    next => contradiction

theorem exact_init (data : Nat → α) : Exact moved w k (sizedInit data) (sizedInit data) [] where
  inv := (inv_init k data).1
  won := (inv_init k data).2
  bounded i value passed := by
    obtain ⟨⟨head,found⟩,_⟩ := passed.nil
    contradiction
  unbegun i _ := by
    refine ⟨trivial,fun value passed => ?_⟩
    obtain ⟨⟨head,found⟩,_⟩ := passed.nil
    contradiction
  loaded i head found := by contradiction
  exact i call found := by contradiction

theorem exact_run {data : Nat → α} {labels : List (SizedLabel α)} (two : 1 ≤ k) (fits : k < w)
    (reached : run (sizedStep moved w (2 ^ k)) (sizedInit data) labels = some s)
    (few : s.queue.pushed.length < 2 ^ (w - 1)) : Exact moved w k (sizedInit data) s labels :=
  run_past (fun state past => state.queue.pushed.length < 2 ^ (w - 1) → Exact moved w k (sizedInit data) state past)
    (exact_step two fits) (fun _ => exact_init data) reached few

/-- What a call of `Size` returns is the size at some moment between its loads, and
within the capacity, if no `Push` won a position after a `Pop` had won one since
the first load; while no position has wrapped, if and only if. -/
theorem size_iff {data : Nat → α} {labels : List (SizedLabel α)} (two : 1 ≤ k) (fits : k < w)
    (reached : run (sizedStep moved w (2 ^ k)) (sizedInit data) labels = some s)
    (found : s.sizes[i]? = some (.returned value)) :
    (Obeys (sizedStep moved w (2 ^ k)) (Abreast i) (sizedInit data) labels →
      Passes (sizedStep moved w (2 ^ k)) (Measures w i value) (sizedInit data) labels) ∧
    (s.queue.pushed.length < 2 ^ (w - 1) →
      ((Passes (sizedStep moved w (2 ^ k)) (Measures w i value) (sizedInit data) labels ∧ value ≤ 2 ^ k) ↔
        Obeys (sizedStep moved w (2 ^ k)) (Abreast i) (sizedInit data) labels)) := by
  have measured := run_past (Measured moved w (2 ^ k) (sizedInit data)) measured_step
    (fun i call found => by contradiction) reached
  have sufficient := measured i _ found
  refine ⟨sufficient,fun few => ?_⟩
  have exact := exact_run two fits reached few
  constructor
  · exact fun given => exact.exact i _ found given.1
  · intro obeyed
    have passed := sufficient obeyed
    exact ⟨passed,exact.bounded i value passed⟩

end Size

/-- Calls that run one after another, with no failed exchange. -/
def oneByOne (first : Nat) (operations : List (Operation α)) : List (SizedLabel α) :=
  (operations.zipIdx first).flatMap fun call =>
    .queue (.invoke call.1) :: List.replicate 5 (.queue (.access call.2))

theorem size_iff_popped :
    ∃ s : Sized Nat, run (sizedStep id 64 (2 ^ 1)) (sizedInit fun _ => 0)
      (oneByOne 0 [.push 1] ++ .loadHead :: oneByOne 1 [.pop] ++ [.loadTail 0]) = some s ∧
      ((Passes (sizedStep id 64 (2 ^ 1)) (Measures 64 0 1) (sizedInit fun _ => 0)
          (oneByOne 0 [.push 1] ++ .loadHead :: oneByOne 1 [.pop] ++ [.loadTail 0]) ∧ 1 ≤ 2 ^ 1) ↔
        Obeys (sizedStep id 64 (2 ^ 1)) (Abreast 0) (sizedInit fun _ => 0)
          (oneByOne 0 [.push 1] ++ .loadHead :: oneByOne 1 [.pop] ++ [.loadTail 0])) := by
  obtain ⟨s,reached,found,pushed⟩ : ∃ s : Sized Nat, run (sizedStep id 64 (2 ^ 1)) (sizedInit fun _ => 0)
      (oneByOne 0 [.push 1] ++ .loadHead :: oneByOne 1 [.pop] ++ [.loadTail 0]) = some s ∧
      s.sizes[0]? = some (.returned 1) ∧ s.queue.pushed = [1] := ⟨_,rfl,rfl,rfl⟩
  exact ⟨s,reached,(size_iff (by decide) (by decide) reached found).2 (by rw [pushed]; decide)⟩

/-- Two cells, both full. Between the loads of a `Size` two items are popped and two
pushed: it returns 4, which is above the capacity and was never the size. -/
theorem size_above_capacity :
    ∃ s : Sized Nat, run (sizedStep id 64 (2 ^ 1)) (sizedInit fun _ => 0)
      (oneByOne 0 [.push 1,.push 2] ++ .loadHead :: oneByOne 2 [.pop,.push 3,.pop,.push 4] ++ [.loadTail 0]) = some s ∧
      s.sizes[0]? = some (.returned 4) ∧ ¬ 4 ≤ 2 ^ 1 ∧
      ¬ Passes (sizedStep id 64 (2 ^ 1)) (Measures 64 0 4) (sizedInit fun _ => 0)
        (oneByOne 0 [.push 1,.push 2] ++ .loadHead :: oneByOne 2 [.pop,.push 3,.pop,.push 4] ++ [.loadTail 0]) := by
  obtain ⟨s,reached,found,pushed⟩ : ∃ s : Sized Nat, run (sizedStep id 64 (2 ^ 1)) (sizedInit fun _ => 0)
      (oneByOne 0 [.push 1,.push 2] ++ .loadHead :: oneByOne 2 [.pop,.push 3,.pop,.push 4] ++ [.loadTail 0]) = some s ∧
      s.sizes[0]? = some (.returned 4) ∧ s.queue.pushed = [1,2,3,4] := ⟨_,rfl,rfl,rfl⟩
  have exact := exact_run (by decide) (by decide) reached (by rw [pushed]; decide)
  exact ⟨s,reached,found,by decide,fun passed => absurd (exact.bounded 0 4 passed) (by decide)⟩

end Ezthread.MpmcQueue
