import Ezthread.Transition

/-! A machine whose states are images of another's, and which takes each step as
the image of the other's. -/
namespace Ezthread.Lockstep
open Transition

variable {State Other Label : Type*} {first : State → Label → Option State} {second : Other → Label → Option Other}

/-- Both machines on the same labels. -/
def joint (first : State → Label → Option State) (second : Other → Label → Option Other)
    (pair : State × Other) (label : Label) : Option (State × Other) :=
  (first pair.1 label).bind fun state => (second pair.2 label).map (Prod.mk state)

theorem joint_taken {pair next : State × Other} {label : Label} :
    joint first second pair label = some next ↔ first pair.1 label = some next.1 ∧ second pair.2 label = some next.2 := by
  obtain ⟨state,other⟩ := next
  simp [joint,Option.bind_eq_some_iff]

theorem joint_commutes (image : Other → State) {other : Other} {label : Label}
    (commutes : first (image other) label = (second other label).map image) :
    joint first second (image other,other) label = (second other label).map fun next => (image next,next) := by
  rw [joint,commutes]
  cases second other label with
  | none => rfl
  | some next => rfl

theorem obeys_joint {cond : State → Label → Prop} {pair last : State × Other} {labels : List Label}
    (reached : run (joint first second) pair labels = some last) :
    Obeys (joint first second) (fun pair => cond pair.1) pair labels ↔ Obeys first cond pair.1 labels := by
  induction labels generalizing pair with
  | nil => exact Iff.rfl
  | cons label rest ih =>
    obtain ⟨next,taken,remaining⟩ := run_cons_some reached
    have own := (joint_taken.mp taken).1
    rw [← obeys_taken taken,← obeys_taken own,ih remaining]

section Image
variable (image : Other → State) (Inv : Other → Prop) (cond : Other → Label → Prop)
  (commutes : ∀ other label, Inv other → cond other label → first (image other) label = (second other label).map image)
  (preserved : ∀ other label next, Inv other → cond other label → second other label = some next → Inv next)
  {other : Other} {labels : List Label} (initial : Inv other)

include commutes preserved initial

theorem run_image (obeyed : Obeys second cond other labels) :
    run first (image other) labels = (run second other labels).map image := by
  induction labels generalizing other with
  | nil => rfl
  | cons label rest ih =>
    rw [run_cons,run_cons,commutes other label initial obeyed.1]
    cases taken : second other label with
    | none => rfl
    | some next => exact ih (preserved other label next initial obeyed.1 taken) (obeyed.2 next taken)

/-- A condition is obeyed by both machines or by neither where what they assume is. -/
theorem obeys_image {asked : State → Label → Prop} (implies : ∀ state label, asked (image state) label → cond state label) :
    Obeys first asked (image other) labels ↔ Obeys second (fun state => asked (image state)) other labels := by
  induction labels generalizing other with
  | nil => exact Iff.rfl
  | cons label rest ih =>
    refine and_congr_right fun own => ?_
    have permitted := implies other label own
    rw [commutes other label initial permitted]
    cases taken : second other label with
    | none => simp
    | some next =>
      have later := ih (preserved other label next initial permitted taken)
      simpa using later

end Image

end Ezthread.Lockstep
