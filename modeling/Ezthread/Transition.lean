import Mathlib.Algebra.Ring.Nat
import Mathlib.Order.WellFounded
import Mathlib.Tactic.Common

/-! Finite runs of a labelled step function, and the rules by which a fact about
one step becomes a fact about every run. A label resolves all nondeterminism of
its step, so a run is exactly a list of labels and can be evaluated. -/
namespace Ezthread.Transition

variable {State Label : Type*} {step : State → Label → Option State}

def run (step : State → Label → Option State) : State → List Label → Option State
  | state, [] => some state
  | state, label :: rest => (step state label).bind (fun next => run step next rest)

/-- Every state a run passes through, its first and last included. -/
def Along (step : State → Label → Option State) (good : State → Prop) : State → List Label → Prop
  | state, [] => good state
  | state, label :: rest => good state ∧ ∀ next, step state label = some next → Along step good next rest

def Obeys (step : State → Label → Option State) (cond : State → Label → Prop) : State → List Label → Prop
  | _, [] => True
  | state, label :: rest => cond state label ∧ ∀ next, step state label = some next → Obeys step cond next rest

theorem obeys_taken {cond : State → Label → Prop} {state next : State} {label : Label} {rest : List Label}
    (taken : step state label = some next) :
    cond state label ∧ Obeys step cond next rest ↔ Obeys step cond state (label :: rest) := by
  refine and_congr_right fun _ => ⟨fun obeyed other same => ?_,fun all => all next taken⟩
  cases taken.symm.trans same
  exact obeyed

theorem obeys_stuck {cond : State → Label → Prop} {state : State} {label : Label} {rest : List Label}
    (stuck : step state label = none) : cond state label ↔ Obeys step cond state (label :: rest) :=
  ⟨fun own => ⟨own,fun _ same => by cases stuck.symm.trans same⟩,And.left⟩

instance Obeys.decidable {cond : State → Label → Prop} [∀ state label, Decidable (cond state label)] :
    (state : State) → (labels : List Label) → Decidable (Obeys step cond state labels)
  | _, [] => inferInstanceAs (Decidable True)
  | state, label :: rest =>
      match found : step state label with
      | some next =>
          have : Decidable (Obeys step cond next rest) := Obeys.decidable next rest
          decidable_of_iff _ (obeys_taken found)
      | none => decidable_of_iff _ (obeys_stuck found)

theorem run_cons (state : State) (label : Label) (rest : List Label) :
    run step state (label :: rest) = (step state label).bind (fun next => run step next rest) := rfl

theorem run_cons_some {state last : State} {label : Label} {rest : List Label}
    (reached : run step state (label :: rest) = some last) :
    ∃ next, step state label = some next ∧ run step next rest = some last :=
  Option.bind_eq_some_iff.mp reached

theorem run_step {state next last : State} {label : Label} {rest : List Label} (taken : step state label = some next)
    (after : run step next rest = some last) : run step state (label :: rest) = some last :=
  Option.bind_eq_some_iff.mpr ⟨next,taken,after⟩

theorem run_append (state : State) (first second : List Label) :
    run step state (first ++ second) = (run step state first).bind (fun middle => run step middle second) := by
  induction first generalizing state with
  | nil => rfl
  | cons label rest ih =>
    simp only [List.cons_append,run_cons,Option.bind_assoc,ih]

theorem run_trans {state middle last : State} {first second : List Label}
    (before : run step state first = some middle) (after : run step middle second = some last) :
    run step state (first ++ second) = some last := by
  rw [run_append,before]
  exact after

theorem run_invariant_obeying (Inv : State → Prop) (cond : State → Label → Prop)
    (preserved : ∀ state label next, Inv state → cond state label → step state label = some next → Inv next)
    {state last : State} {labels : List Label} (initial : Inv state)
    (obeyed : Obeys step cond state labels) (reached : run step state labels = some last) : Inv last := by
  induction labels generalizing state with
  | nil =>
    cases reached
    exact initial
  | cons label rest ih =>
    obtain ⟨next,taken,remaining⟩ := run_cons_some reached
    exact ih (preserved state label next initial obeyed.1 taken) (obeyed.2 next taken) remaining

theorem obeys_true (state : State) (labels : List Label) : Obeys step (fun _ _ => True) state labels := by
  induction labels generalizing state with
  | nil => exact trivial
  | cons label rest ih => exact ⟨trivial,fun next _ => ih next⟩

/-- The invariant rule: what holds first and survives each step holds last. -/
theorem run_invariant (Inv : State → Prop)
    (preserved : ∀ state label next, Inv state → step state label = some next → Inv next)
    {state last : State} {labels : List Label} (initial : Inv state)
    (reached : run step state labels = some last) : Inv last :=
  run_invariant_obeying Inv (fun _ _ => True)
    (fun state label next holds _ taken => preserved state label next holds taken)
    initial (obeys_true state labels) reached

/-- The invariant rule for facts about a state and the steps that led to it. -/
theorem run_history (Inv : State → List Label → Prop)
    (preserved : ∀ state past label next, Inv state past → step state label = some next → Inv next (past ++ [label]))
    {state last : State} (past : List Label) {labels : List Label} (initial : Inv state past)
    (reached : run step state labels = some last) : Inv last (past ++ labels) := by
  induction labels generalizing state past with
  | nil =>
    cases reached
    rw [List.append_nil]
    exact initial
  | cons label rest ih =>
    obtain ⟨next,taken,remaining⟩ := run_cons_some reached
    rw [← List.singleton_append,← List.append_assoc]
    exact ih (past ++ [label]) (preserved state past label next initial taken) remaining

/-- A fact absent at first and present at last has a step that brought it: the
step's label and the state it was taken from are a moment of the run. -/
theorem run_moment (Inv Later : State → Prop) (Moment : State → Label → Prop)
    (preserved : ∀ state label next, Inv state → step state label = some next → Inv next)
    (brought : ∀ state label next, Inv state → step state label = some next → Later next →
      Later state ∨ Moment state label)
    {state last : State} {labels : List Label} (initial : Inv state) (absent : ¬ Later state)
    (reached : run step state labels = some last) (present : Later last) :
    ∃ before label after middle, labels = before ++ label :: after ∧
      run step state before = some middle ∧ Moment middle label := by
  induction labels generalizing state with
  | nil =>
    cases reached
    exact absurd present absent
  | cons label rest ih =>
    obtain ⟨next,taken,remaining⟩ := run_cons_some reached
    by_cases already : Later next
    · rcases brought state label next initial taken already with old | moment
      · exact absurd old absent
      · exact ⟨[],label,rest,state,rfl,rfl,moment⟩
    · obtain ⟨before,found,after,middle,split,prior,moment⟩ :=
        ih (preserved state label next initial taken) already remaining
      exact ⟨label :: before,found,after,middle,by simp [split],run_step taken prior,moment⟩

/-- Where the condition keeps the invariant and each breach spoils the property,
the property along a run and the condition on its steps are one and the same; all
this for runs whose steps meet what is assumed of them. -/
theorem along_iff_obeys_within (Inv : State → Prop) {good : State → Prop} {assumed cond : State → Label → Prop}
    (preserved : ∀ state label next, Inv state → assumed state label → cond state label →
      step state label = some next → Inv next)
    (sound : ∀ state, Inv state → good state)
    (breach : ∀ state label next, Inv state → assumed state label → ¬ cond state label →
      step state label = some next → ¬ good next)
    {state last : State} {labels : List Label} (initial : Inv state) (within : Obeys step assumed state labels)
    (reached : run step state labels = some last) :
    Along step good state labels ↔ Obeys step cond state labels := by
  induction labels generalizing state with
  | nil => exact ⟨fun _ => trivial,fun _ => sound state initial⟩
  | cons label rest ih =>
    obtain ⟨next,taken,remaining⟩ := run_cons_some reached
    obtain ⟨permitted,later⟩ := within
    have only (other : State) (same : step state label = some other) : other = next :=
      Option.some.inj (same.symm.trans taken)
    constructor
    · intro along
      have nextAlong := along.2 next taken
      have obeyed : cond state label := by
        by_contra broken
        have spoiled := breach state label next initial permitted broken taken
        cases rest with
        | nil => exact spoiled nextAlong
        | cons => exact spoiled nextAlong.1
      refine ⟨obeyed,fun other same => ?_⟩
      rw [only other same]
      exact (ih (preserved state label next initial permitted obeyed taken) (later next taken) remaining).mp nextAlong
    · intro obeys
      refine ⟨sound state initial,fun other same => ?_⟩
      rw [only other same]
      exact (ih (preserved state label next initial permitted obeys.1 taken) (later next taken) remaining).mpr
        (obeys.2 next taken)

theorem along_iff_obeys {Inv good : State → Prop} {cond : State → Label → Prop}
    (preserved : ∀ state label next, Inv state → cond state label → step state label = some next → Inv next)
    (sound : ∀ state, Inv state → good state)
    (breach : ∀ state label next, Inv state → ¬ cond state label → step state label = some next → ¬ good next)
    {state last : State} {labels : List Label} (initial : Inv state)
    (reached : run step state labels = some last) :
    Along step good state labels ↔ Obeys step cond state labels :=
  along_iff_obeys_within Inv (fun state label next holds _ => preserved state label next holds) sound
    (fun state label next holds _ => breach state label next holds) initial (obeys_true state labels) reached

theorem obeys_of_labels {cond : State → Label → Prop} {labels : List Label}
    (permitted : ∀ label ∈ labels, ∀ state, cond state label) (state : State) : Obeys step cond state labels := by
  induction labels generalizing state with
  | nil => exact trivial
  | cons label rest ih =>
    obtain ⟨own,others⟩ := List.forall_mem_cons.mp permitted
    exact ⟨own state,fun next _ => ih others next⟩

theorem obeys_imp {cond weaker : State → Label → Prop} (implies : ∀ state label, cond state label → weaker state label)
    {state : State} {labels : List Label} (obeyed : Obeys step cond state labels) : Obeys step weaker state labels := by
  induction labels generalizing state with
  | nil => exact trivial
  | cons label rest ih => exact ⟨implies state label obeyed.1,fun next taken => ih (obeyed.2 next taken)⟩

/-- What holds all along a run and permits a step wherever it holds permits all steps. -/
theorem obeys_of_along {good : State → Prop} {cond : State → Label → Prop}
    (permits : ∀ state label, good state → cond state label) {state : State} {labels : List Label}
    (along : Along step good state labels) : Obeys step cond state labels := by
  induction labels generalizing state with
  | nil => exact trivial
  | cons label rest ih => exact ⟨permits state label along.1,fun next taken => ih (along.2 next taken)⟩

theorem along_first {good : State → Prop} {state : State} {labels : List Label}
    (along : Along step good state labels) : good state := by
  cases labels with
  | nil => exact along
  | cons => exact along.1

theorem along_last {good : State → Prop} {state last : State} {labels : List Label}
    (along : Along step good state labels) (reached : run step state labels = some last) : good last := by
  induction labels generalizing state with
  | nil =>
    cases reached
    exact along
  | cons label rest ih =>
    obtain ⟨next,taken,remaining⟩ := run_cons_some reached
    exact ih (along.2 next taken) remaining

theorem along_of_obeys {good : State → Prop} {state last : State} {labels : List Label}
    (obeyed : Obeys step (fun state _ => good state) state labels) (reached : run step state labels = some last)
    (final : good last) : Along step good state labels := by
  induction labels generalizing state with
  | nil =>
    cases reached
    exact final
  | cons label rest ih =>
    obtain ⟨next,taken,remaining⟩ := run_cons_some reached
    refine ⟨obeyed.1,fun other same => ?_⟩
    cases same.symm.trans taken
    exact ih (obeyed.2 _ taken) remaining

theorem along_obeying (Inv : State → Prop) {good : State → Prop} {cond : State → Label → Prop}
    (preserved : ∀ state label next, Inv state → cond state label → step state label = some next → Inv next)
    (sound : ∀ state, Inv state → good state) {state : State} {labels : List Label} (initial : Inv state)
    (obeyed : Obeys step cond state labels) : Along step good state labels := by
  induction labels generalizing state with
  | nil => exact sound state initial
  | cons label rest ih =>
    exact ⟨sound state initial,fun next taken => ih (preserved state label next initial obeyed.1 taken) (obeyed.2 next taken)⟩

/-- Two conditions that agree wherever the invariant holds agree along a run. -/
theorem obeys_congr (Inv : State → Prop) {cond other : State → Label → Prop}
    (preserved : ∀ state label next, Inv state → step state label = some next → Inv next)
    (same : ∀ state label, Inv state → (cond state label ↔ other state label))
    {state : State} {labels : List Label} (initial : Inv state) :
    Obeys step cond state labels ↔ Obeys step other state labels := by
  induction labels generalizing state with
  | nil => exact Iff.rfl
  | cons label rest ih =>
    exact and_congr (same state label initial)
      (forall₂_congr fun next taken => ih (preserved state label next initial taken))

theorem obeys_append {cond : State → Label → Prop} {state middle : State} {first second : List Label}
    (before : Obeys step cond state first) (reached : run step state first = some middle)
    (after : Obeys step cond middle second) : Obeys step cond state (first ++ second) := by
  induction first generalizing state with
  | nil =>
    cases reached
    exact after
  | cons label rest ih =>
    obtain ⟨next,taken,remaining⟩ := run_cons_some reached
    refine ⟨before.1,fun other same => ?_⟩
    cases same.symm.trans taken
    exact ih (before.2 _ taken) remaining

theorem Obeys.beginning {cond : State → Label → Prop} {state : State} {first second : List Label}
    (obeyed : Obeys step cond state (first ++ second)) : Obeys step cond state first := by
  induction first generalizing state with
  | nil => exact trivial
  | cons label rest ih => exact ⟨obeyed.1,fun next taken => ih (obeyed.2 next taken)⟩

/-- What every step pays for out of its gain and a potential, a run pays for out
of its gains and the first potential. -/
theorem run_bound (Inv : State → Prop) (cond : State → Label → Prop) (cost gain : Label → Nat) (potential : State → Nat)
    (preserved : ∀ state label next, Inv state → cond state label → step state label = some next → Inv next)
    (pays : ∀ state label next, Inv state → cond state label → step state label = some next →
      cost label + potential next ≤ potential state + gain label)
    {state last : State} {labels : List Label} (initial : Inv state) (obeyed : Obeys step cond state labels)
    (reached : run step state labels = some last) :
    (labels.map cost).sum + potential last ≤ potential state + (labels.map gain).sum := by
  induction labels generalizing state with
  | nil =>
    cases reached
    exact Nat.le_of_eq (Nat.add_comm _ _)
  | cons label rest ih =>
    obtain ⟨next,taken,remaining⟩ := run_cons_some reached
    have paid := pays state label next initial obeyed.1 taken
    have later := ih (preserved state label next initial obeyed.1 taken) (obeyed.2 next taken) remaining
    simp only [List.map_cons,List.sum_cons]
    omega

/-- Where what a breach brings about stays, its absence at the end of a run tells that
every step met the condition. -/
theorem obeys_of_last (Inv : State → Prop) {bad : State → Prop} {cond : State → Label → Prop}
    (kept : ∀ state label next, Inv state → step state label = some next → Inv next)
    (breach : ∀ state label next, Inv state → ¬ cond state label → step state label = some next → bad next)
    (persists : ∀ state label next, Inv state → bad state → step state label = some next → bad next)
    {state last : State} {labels : List Label} (initial : Inv state) (reached : run step state labels = some last)
    (absent : ¬ bad last) : Obeys step cond state labels := by
  induction labels generalizing state with
  | nil => exact trivial
  | cons label rest ih =>
    obtain ⟨next,taken,remaining⟩ := run_cons_some reached
    have inv := kept state label next initial taken
    constructor
    · by_contra broken
      have spoiled := run_invariant (fun other => Inv other ∧ bad other) (fun other label next known taken =>
        ⟨kept other label next known.1 taken,persists other label next known.1 known.2 taken⟩)
        ⟨inv,breach state label next initial broken taken⟩ remaining
      exact absent spoiled.2
    · intro other same
      obtain rfl : next = other := Option.some.inj (taken.symm.trans same)
      exact ih inv remaining

/-- Where a property once spoiled stays so, it holds at the end of a run if and
only if no step of the run spoiled it. -/
theorem last_iff_obeys (Inv : State → Prop) {good : State → Prop} {cond : State → Label → Prop}
    (kept : ∀ state label next, Inv state → step state label = some next → Inv next)
    (preserved : ∀ state label next, Inv state → good state → cond state label → step state label = some next → good next)
    (breach : ∀ state label next, Inv state → ¬ cond state label → step state label = some next → ¬ good next)
    (persists : ∀ state label next, Inv state → ¬ good state → step state label = some next → ¬ good next)
    {state last : State} {labels : List Label} (initial : Inv state) (first : good state)
    (reached : run step state labels = some last) : good last ↔ Obeys step cond state labels := by
  constructor
  · exact fun holds => obeys_of_last Inv kept breach persists initial reached fun spoiled => spoiled holds
  · intro obeyed
    exact (run_invariant_obeying (fun other => Inv other ∧ good other) cond (fun other label next known own taken =>
      ⟨kept other label next known.1 taken,preserved other label next known.1 known.2 own taken⟩)
      ⟨initial,first⟩ obeyed reached).2

/-- A continuation to a goal by steps that meet a condition, from such a step that
lowers a rank wherever the goal is not yet met. -/
theorem run_to_goal_obeying (Inv : State → Prop) {Goal : State → Prop} (cond : State → Label → Prop) {Rank : Type*} [Preorder Rank]
    [WellFoundedLT Rank] (rank : State → Rank)
    (progress : ∀ state, Inv state → ¬ Goal state →
      ∃ label next, cond state label ∧ step state label = some next ∧ Inv next ∧ rank next < rank state)
    (state : State) (initial : Inv state) :
    ∃ labels last, Obeys step cond state labels ∧ run step state labels = some last ∧ Inv last ∧ Goal last := by
  induction size : rank state using WellFoundedLT.induction generalizing state with
  | ind value ih =>
    by_cases met : Goal state
    · exact ⟨[],state,trivial,rfl,initial,met⟩
    · obtain ⟨label,next,permitted,taken,holds,smaller⟩ := progress state initial met
      obtain ⟨labels,last,obeyed,reached,kept,goal⟩ := ih (rank next) (size ▸ smaller) next holds rfl
      refine ⟨label :: labels,last,⟨permitted,fun other same => ?_⟩,run_step taken reached,kept,goal⟩
      cases same.symm.trans taken
      exact obeyed

theorem obeys_labels {allowed : Label → Prop} {state last : State} {labels : List Label}
    (obeyed : Obeys step (fun _ label => allowed label) state labels) (reached : run step state labels = some last) :
    ∀ label ∈ labels, allowed label := by
  induction labels generalizing state with
  | nil => simp
  | cons label rest ih =>
    obtain ⟨next,taken,remaining⟩ := run_cons_some reached
    exact List.forall_mem_cons.mpr ⟨obeyed.1,ih (obeyed.2 next taken) remaining⟩

theorem run_to_goal {Inv Goal : State → Prop} (allowed : Label → Prop) {Rank : Type*} [Preorder Rank]
    [WellFoundedLT Rank] (rank : State → Rank)
    (progress : ∀ state, Inv state → ¬ Goal state →
      ∃ label next, allowed label ∧ step state label = some next ∧ Inv next ∧ rank next < rank state)
    (state : State) (initial : Inv state) :
    ∃ labels last, (∀ label ∈ labels, allowed label) ∧ run step state labels = some last ∧ Inv last ∧ Goal last := by
  obtain ⟨labels,last,obeyed,reached,kept,goal⟩ :=
    run_to_goal_obeying Inv (fun _ label => allowed label) rank progress state initial
  exact ⟨labels,last,obeys_labels obeyed reached,reached,kept,goal⟩

theorem run_snoc {start state next : State} {past : List Label} {label : Label}
    (reached : run step start past = some state) (taken : step state label = some next) :
    run step start (past ++ [label]) = some next :=
  run_trans reached (run_step taken rfl)

/-- Some state the run passes through, its first and last included. -/
def Passes (step : State → Label → Option State) (moment : State → Prop) (start : State) (labels : List Label) : Prop :=
  ∃ (before after : List Label) (middle : State), labels = before ++ after ∧ run step start before = some middle ∧
    moment middle

theorem passes_now {moment : State → Prop} {start state : State} {past : List Label}
    (reached : run step start past = some state) (now : moment state) : Passes step moment start past :=
  ⟨past,[],state,(List.append_nil past).symm,reached,now⟩

theorem Passes.nil {moment : State → Prop} {start : State} (passed : Passes step moment start []) : moment start := by
  obtain ⟨before,after,middle,split,reached,held⟩ := passed
  obtain ⟨rfl,_⟩ := List.append_eq_nil_iff.mp split.symm
  cases reached
  exact held

theorem Passes.later {moment : State → Prop} {start : State} {past : List Label} (passed : Passes step moment start past)
    (rest : List Label) : Passes step moment start (past ++ rest) := by
  obtain ⟨before,after,middle,rfl,reached,held⟩ := passed
  exact ⟨before,after ++ rest,middle,List.append_assoc before after rest,reached,held⟩

theorem passes_snoc {moment : State → Prop} {start state next : State} {past : List Label} {label : Label}
    (reached : run step start past = some state) (taken : step state label = some next) :
    Passes step moment start (past ++ [label]) ↔ Passes step moment start past ∨ moment next := by
  have whole := run_snoc reached taken
  constructor
  · intro passed
    obtain ⟨before,after,middle,split,found,held⟩ := passed
    rcases List.eq_nil_or_concat after with rfl | ⟨initial,last,rfl⟩
    · rw [List.append_nil] at split
      subst split
      exact Or.inr (Option.some.inj (found.symm.trans whole) ▸ held)
    · have same : past = before ++ initial := by
        rw [List.concat_eq_append,← List.append_assoc] at split
        exact (List.append_inj' split rfl).1
      exact Or.inl ⟨before,initial,middle,same,found,held⟩
  · intro given
    rcases given with passed | now
    · exact passed.later [label]
    · exact passes_now whole now

/-- A run short enough to be checked passes through no such state. -/
theorem not_passes {moment : State → Prop} {start : State} {labels : List Label} (check : State → Bool)
    (fails : ∀ state, moment state → check state = false)
    (all : ∀ n ≤ labels.length, (run step start (labels.take n)).all check = true) : ¬ Passes step moment start labels := by
  intro passed
  obtain ⟨before,after,middle,rfl,reached,held⟩ := passed
  have checked := all before.length (by simp)
  rw [List.take_left,reached,Option.all_some,fails middle held] at checked
  contradiction

theorem obeys_snoc {cond : State → Label → Prop} {start state : State} {past : List Label} {label : Label}
    (reached : run step start past = some state) :
    Obeys step cond start (past ++ [label]) ↔ Obeys step cond start past ∧ cond state label := by
  induction past generalizing start with
  | nil =>
    cases reached
    exact ⟨fun obeyed => ⟨trivial,obeyed.1⟩,fun obeyed => ⟨obeyed.2,fun _ _ => trivial⟩⟩
  | cons first rest ih =>
    obtain ⟨next,taken,remaining⟩ := run_cons_some reached
    rw [List.cons_append,← obeys_taken taken,← obeys_taken taken,ih remaining,and_assoc]

/-- The rule for facts about a state and the whole run that led to it. -/
theorem run_past (Inv : State → List Label → Prop) {start : State}
    (preserved : ∀ state past label next, run step start past = some state → Inv state past →
      step state label = some next → Inv next (past ++ [label]))
    {last : State} {labels : List Label} (initial : Inv start []) (reached : run step start labels = some last) :
    Inv last labels :=
  (run_history (fun state past => run step start past = some state ∧ Inv state past)
    (fun state past label next known taken => ⟨run_snoc known.1 taken,
      preserved state past label next known.1 known.2 taken⟩) [] ⟨rfl,initial⟩ reached).2

/-- Where a step adds to a total what its label gives, or less if it breaches a condition,
a run adds all that its labels give if and only if none of its steps is a breach. -/
theorem run_total_iff (Inv : State → Prop) {cond : State → Label → Prop} (gain : Label → Nat) (total : State → Nat)
    (preserved : ∀ state label next, Inv state → step state label = some next → Inv next)
    (adds : ∀ state label next, Inv state → step state label = some next →
      total next ≤ total state + gain label ∧ (total next = total state + gain label ↔ cond state label))
    {state last : State} {labels : List Label} (initial : Inv state) (reached : run step state labels = some last) :
    total last ≤ total state + (labels.map gain).sum ∧
      (total last = total state + (labels.map gain).sum ↔ Obeys step cond state labels) := by
  induction labels generalizing state with
  | nil =>
    cases reached
    exact ⟨Nat.le_refl _,fun _ => trivial,fun _ => rfl⟩
  | cons label rest ih =>
    obtain ⟨next,taken,remaining⟩ := run_cons_some reached
    obtain ⟨bound,exact_iff⟩ := adds state label next initial taken
    obtain ⟨later,later_iff⟩ := ih (preserved state label next initial taken) remaining
    rw [← obeys_taken taken,← exact_iff,← later_iff]
    simp only [List.map_cons,List.sum_cons]
    omega

end Ezthread.Transition
