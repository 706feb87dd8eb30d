import Ezthread.Transition

/-! Deleting hidden steps from a run. What an observer sees of a run is undisturbed by
some of its steps if it comes out the same, after every beginning of the run, when
those steps are deleted. -/
namespace Ezthread.Purge
open Transition

variable {State Label Sight : Type*} {step : State → Label → Option State} {hidden : Label → Bool}
  {forget : State → State} {sight : State → Sight} {cond : State → Label → Prop}

def purge (hidden : Label → Bool) (labels : List Label) : List Label := labels.filter fun label => !hidden label

def Undisturbed (step : State → Label → Option State) (hidden : Label → Bool) (sight : State → Sight) (start : State)
    (labels : List Label) : Prop :=
  ∀ before after s, labels = before ++ after → run step start before = some s →
    ∃ t, run step start (purge hidden before) = some t ∧ sight t = sight s

/-- Up to what is forgotten a hidden step that meets the condition changes nothing,
and one that breaks it is seen at once. -/
structure Erasable (step : State → Label → Option State) (hidden : Label → Bool) (forget : State → State)
    (sight : State → Sight) (cond : State → Label → Prop) : Prop where
  shown : ∀ s label t, hidden label = false → step s label = some t → step (forget s) label = some (forget t)
  silent : ∀ s label t, hidden label = true → cond s label → step s label = some t → forget t = forget s
  loud : ∀ s label t, hidden label = true → ¬ cond s label → step s label = some t → sight t ≠ sight s
  seen : ∀ s, sight (forget s) = sight s
  free : ∀ s label, hidden label = false → cond s label

theorem purge_run (erasable : Erasable step hidden forget sight cond) {start last : State} {labels : List Label}
    (obeyed : Obeys step cond start labels) (reached : run step start labels = some last) :
    run step (forget start) (purge hidden labels) = some (forget last) := by
  induction labels generalizing start with
  | nil =>
    cases reached
    rfl
  | cons label rest ih =>
    obtain ⟨next,taken,remaining⟩ := run_cons_some reached
    have later := ih (obeyed.2 next taken) remaining
    cases shape : hidden label with
    | true =>
      rw [erasable.silent start label next shape obeyed.1 taken] at later
      simpa [purge,shape] using later
    | false =>
      have kept := run_step (erasable.shown start label next shape taken) later
      simpa [purge,shape] using kept

theorem Undisturbed.beginning {start : State} {past rest : List Label}
    (undisturbed : Undisturbed step hidden sight start (past ++ rest)) : Undisturbed step hidden sight start past := by
  intro before after s split reached
  exact undisturbed before (after ++ rest) s (by rw [split,List.append_assoc]) reached

/-- The hidden steps leave what is seen of a run undisturbed if and only if all of
them meet the condition. -/
theorem undisturbed_iff (erasable : Erasable step hidden forget sight cond) {start last : State} {labels : List Label}
    (initial : forget start = start) (reached : run step start labels = some last) :
    Undisturbed step hidden sight start labels ↔ Obeys step cond start labels := by
  constructor
  · refine run_past (fun _ past => Undisturbed step hidden sight start past → Obeys step cond start past) ?_
      (fun _ => trivial) reached
    intro s past label t prior obeys taken undisturbed
    refine (obeys_snoc prior).mpr ⟨obeys undisturbed.beginning,?_⟩
    by_contra broken
    have hides : hidden label = true := by
      by_contra shown
      exact broken (erasable.free s label (by simpa using shown))
    obtain ⟨u,deleted,same⟩ := undisturbed past [label] s rfl prior
    obtain ⟨v,alike,seen⟩ := undisturbed (past ++ [label]) [] t (List.append_nil _).symm (run_snoc prior taken)
    have equal : purge hidden (past ++ [label]) = purge hidden past := by simp [purge,hides]
    rw [equal,deleted] at alike
    cases alike
    exact erasable.loud s label t hides broken taken (seen.symm.trans same)
  · intro obeyed before after s split prior
    have own : Obeys step cond start before := by
      subst split
      exact obeyed.beginning
    have deleted := purge_run erasable own prior
    rw [initial] at deleted
    exact ⟨forget s,deleted,erasable.seen s⟩

end Ezthread.Purge
