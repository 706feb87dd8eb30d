import Ezthread.Future
import Ezthread.Latch

/-! The timed waits of `Latch` and `Future`: when one of them gives up although what
it waits for has come. -/
namespace Ezthread.Latch
open Transition Activation Monitor

variable {w : Nat}

/-- `WaitFor` returns false. -/
def refuses (operation : Operation w) (result : Result) : Bool :=
  match operation,result with
  | .waitFor,.answered false => true
  | _,_ => false

theorem whilePositive_gives (result : Result) (fields : Fields w) {operation : Operation w}
    (accepts : refuses operation result = false) :
    Call.gives refuses ⟨operation,(whilePositive result fields).exit.point⟩ = false := by
  unfold whilePositive
  split
  · rfl
  · exact accepts

theorem gives_up (w : Nat) : GivesUp (program w) refuses fun _ _ => True where
  enter operation fields := by
    cases operation with
    | countDown | isReady => rfl
    | wait | waitFor => exact whilePositive_gives _ fields rfl
  woken operation _ fields _ := by
    cases operation with
    | countDown | isReady | wait | waitFor => exact whilePositive_gives _ fields rfl
  late operation _ fields _ timed := by
    cases operation with
    | countDown | isReady | wait => contradiction
    | waitFor => exact ⟨rfl,rfl⟩

end Ezthread.Latch

namespace Ezthread.Future
open Transition Activation Monitor

variable {α ε : Type*}

/-- `TryGet` or `WaitFor` returns false. -/
def refuses (operation : Operation α ε) (result : Result α ε) : Bool :=
  match operation.method,result with
  | .tryGet,.tried none => true
  | .waitFor,.answered false => true
  | _,_ => false

theorem unlessReady_gives {state : SharedState α ε} {operation : Operation α ε} (sleep : Sleep) {result : Result α ε}
    (accepts : refuses operation result = false) :
    Call.gives refuses ⟨operation,(unlessReady state sleep result).exit.point⟩ = false := by
  unfold unlessReady
  split
  · exact accepts
  · rfl

theorem tryGetResult_accepts (state : SharedState α ε) (hasState : Bool) :
    refuses ⟨hasState,.tryGet⟩ (tryGetResult state) = false := by
  unfold tryGetResult
  split <;> rfl

theorem untimed_gives {operation : Operation α ε} (untimed : program.timed operation = false)
    (point : Point Sleep (Result α ε)) : Call.gives refuses ⟨operation,point⟩ = false := by
  obtain ⟨hasState,method⟩ := operation
  have accepts (result : Result α ε) : refuses ⟨hasState,method⟩ result = false := by
    cases method with
    | tryGet | waitFor => contradiction
    | _ => rfl
  cases point with
  | announcing result | returned result => exact accepts result
  | _ => rfl

theorem gives_up : GivesUp (program : Program (Operation α ε) _ _ _) refuses fun operation sleep =>
    operation.method.sleep = some sleep where
  enter operation state := by
    obtain ⟨hasState,method⟩ := operation
    cases method with
    | tryGet =>
      cases hasState with
      | false => rfl
      | true => exact unlessReady_gives .tryGet (tryGetResult_accepts state true)
    | waitFor =>
      cases hasState with
      | false => rfl
      | true => exact unlessReady_gives .waitFor rfl
    | _ => exact untimed_gives rfl _
  woken operation sleep state own := by
    obtain ⟨hasState,method⟩ := operation
    cases method with
    | tryGet =>
      cases own
      exact tryGetResult_accepts state hasState
    | waitFor =>
      cases own
      rfl
    | _ => exact untimed_gives rfl _
  late operation sleep state own timed := by
    obtain ⟨hasState,method⟩ := operation
    cases method with
    | setValue | setException | get | isReady | wait => contradiction
    | tryGet | waitFor =>
      cases own
      exact ⟨rfl,rfl⟩

end Ezthread.Future

namespace Ezthread
open Transition Activation Monitor

variable {α ε : Type*}

/-- The timed waits give up only before what they wait for if and only if none that has
timed out has the lock back after it. -/
theorem timed_waits_iff_punctual [Inhabited α] [Inhabited ε] :
    (∀ (w : Nat) (initial : BitVec w) (labels : List (Label (Latch.Operation w))),
      Obeys (step (Latch.program w)) (Answers (Latch.program w) Latch.refuses fun fields => fields.count ≠ 0)
          (init ⟨initial⟩) labels ↔
        Obeys (step (Latch.program w)) (Punctual fun fields => fields.count ≠ 0) (init ⟨initial⟩) labels) ∧
    ∀ labels : List (Label (Future.Operation α ε)),
      Obeys (step Future.program) (Answers Future.program Future.refuses fun state => state.ready = false)
          (init Future.SharedState.new) labels ↔
        Obeys (step Future.program) (Punctual fun state => state.ready = false) (init Future.SharedState.new) labels := by
  constructor
  · intro w initial labels
    exact obeys_congr _ timed_out_step (fun state label timed => answers_iff_punctual (Latch.gives_up w)
      fun i operation frame result found => ⟨trivial,fun late => timed i _ found frame (by rw [late])⟩) (Every.nil _)
  · intro labels
    refine obeys_congr (fun s => Future.Inv s ∧ Every (fun _ call => ∀ frame, call.point = .woken frame false →
        Future.program.timed call.operation = true) s.calls) (fun s label t known taken =>
          ⟨Future.inv_step s label t known.1 taken,timed_out_step s label t known.2 taken⟩) (fun state label known => ?_)
      ⟨Future.inv_init,Every.nil _⟩
    exact answers_iff_punctual Future.gives_up fun i operation frame result found =>
      ⟨known.1.facts i _ found,fun late => known.2 i _ found frame (by rw [late])⟩

/-- A timed wait times out, what it waits for comes, and only then does it have the
lock back: it gives up though the count is zero, or the promise satisfied. -/
theorem gives_up_after_event :
    ¬ Obeys (step (Latch.program 64)) (Answers (Latch.program 64) Latch.refuses fun fields => fields.count ≠ 0)
      (init ⟨1⟩) [.invoke .waitFor,.enter 0,.timeout 0,.invoke (.countDown 1),.enter 1,.resume 0] ∧
    ¬ Obeys (step (Future.program (α := Nat) (ε := Nat))) (Answers Future.program Future.refuses fun state => state.ready = false)
      (init Future.SharedState.new)
      [.invoke ⟨true,.tryGet⟩,.enter 0,.timeout 0,.invoke ⟨true,.setValue (.stores 5)⟩,.enter 1,.resume 0] := by
  constructor
  · intro obeyed
    have answers := (((((obeyed.2 _ rfl).2 _ rfl).2 _ rfl).2 _ rfl).2 _ rfl).1
    exact answers _ 0 _ _ rfl rfl rfl rfl rfl rfl
  · intro obeyed
    have answers := (((((obeyed.2 _ rfl).2 _ rfl).2 _ rfl).2 _ rfl).2 _ rfl).1
    exact absurd (answers _ 0 _ _ rfl rfl rfl rfl rfl) (by decide)

end Ezthread
