import Ezthread.Barrier
import Ezthread.Future
import Ezthread.Latch
import Ezthread.LockedBlocks

/-! The methods of `Latch`, `Barrier`, `Promise` and `Future` access by access, with the
`ScopedLock` on their mutex, and the blocks they make up. -/
namespace Ezthread.Latch
open Transition Monitor

variable {w : Nat}

abbrev Code (w : Nat) := Monitor.Code (Fields w) Unit Result

def countDownCode (count : BitVec w) : Code w :=
  .read fun fields =>
    if count > fields.count then .write (fun _ => ⟨0⟩) notifyIfZero
    else .read fun fields => .write (fun _ => ⟨fields.count - count⟩) notifyIfZero
where
  notifyIfZero : Code w :=
    .read fun fields => if fields.count == 0 then .notifyAll (.finish (.leave .done)) else .finish (.leave .done)

/-- One turn of `while (m_count > 0)`. -/
def whilePositiveCode (result : Result) : Code w :=
  .read fun fields => if fields.count > 0 then .finish (.sleep ()) else .finish (.leave result)

def source (w : Nat) : Source (Operation w) (Fields w) Unit Result where
  immediate _ := none
  enter
    | .countDown count => countDownCode count
    | .wait => whilePositiveCode .done
    | .waitFor => whilePositiveCode (.answered true)
    | .isReady => .read fun fields => .finish (.leave (.answered (fields.count == 0)))
  resume
    | .waitFor,_,result => if result then whilePositiveCode (.answered true) else .finish (.leave (.answered false))
    | _,_,_ => whilePositiveCode .done
  timed
    | .waitFor => true
    | _ => false

theorem whilePositive_block (result : Result) : (whilePositiveCode result).block = whilePositive (w := w) result := by
  funext fields
  simp only [whilePositiveCode,whilePositive,Code.block]
  split <;> rfl

theorem countDown_block (count : BitVec w) : (countDownCode count).block = countDown count := by
  funext fields
  simp only [countDownCode,countDownCode.notifyIfZero,countDown,Code.block]
  split <;> simp only [Code.block] <;> split <;> simp_all [Code.block]

theorem source_program (w : Nat) : (source w).program = program w := by
  have enter : (source w).program.enter = (program w).enter := by
    funext operation fields
    cases operation with
    | countDown count => exact congrFun (countDown_block count) fields
    | wait | waitFor => exact congrFun (whilePositive_block _) fields
    | isReady => rfl
  have resume : (source w).program.resume = (program w).resume := by
    funext operation frame result fields
    cases operation with
    | waitFor =>
      cases result with
      | true => exact congrFun (whilePositive_block _) fields
      | false => rfl
    | countDown | wait | isReady => exact congrFun (whilePositive_block _) fields
  have timed : (source w).program.timed = (program w).timed := by
    funext operation
    cases operation <;> rfl
  exact (Program.mk.injEq ..).mpr ⟨enter,resume,timed⟩

/-- `Latch` taken access by access under its mutex is the latch of the blocks. -/
theorem latch_atomic (w : Nat) (fields : Fields w) : Atomic (source w) (program w) fields :=
  source_atomic (source_program w) fields

end Ezthread.Latch

namespace Ezthread.Barrier
open Transition Monitor

abbrev Code := Monitor.Code Fields Frame Result

def whileSameCode (frame : Frame) : Code :=
  .read fun fields =>
    if fields.generation = frame.currentGeneration then .finish (.sleep frame)
    else .finish (.leave ⟨true,frame.arrived,fields.completed⟩)

def arriveCode (w count : Nat) : Code :=
  .read fun entry =>
  .read fun fields =>
  .write (fun now => {now with waiting := (fields.waiting + 1) % 2 ^ w}) <|
  .read fun fields =>
    if fields.waiting = count then
      .write (fun now => {now with waiting := 0}) <|
      .read fun fields =>
      .write (fun now => ⟨(fields.generation + 1) % 2 ^ w,now.waiting,now.completed + 1⟩) <|
      .notifyAll <|
      .finish (.leave ⟨true,entry.completed,entry.completed + 1⟩)
    else whileSameCode ⟨entry.generation,entry.completed⟩

/-- A timeout takes the call out of the count. -/
def resumeWaitForCode (w : Nat) (frame : Frame) (result : Bool) : Code :=
  if result then whileSameCode frame
  else
    .read fun fields =>
    .write (fun now => {now with waiting := (fields.waiting + (2 ^ w - 1)) % 2 ^ w}) <|
    .read fun fields => .finish (.leave ⟨false,frame.arrived,fields.completed⟩)

def source (w count : Nat) : Source Operation Fields Frame Result where
  immediate _ := none
  enter _ := arriveCode w count
  resume
    | .wait,frame,_ => whileSameCode frame
    | .waitFor,frame,result => resumeWaitForCode w frame result
  timed
    | .wait => false
    | .waitFor => true

theorem whileSame_block (frame : Frame) : (whileSameCode frame).block = whileSame frame := by
  funext fields
  simp only [whileSameCode,whileSame,Code.block]
  split <;> rfl

theorem arrive_block (w count : Nat) : (arriveCode w count).block = arrive w count := by
  funext fields
  simp only [arriveCode,arrive,Code.block]
  split
  · rfl
  · exact congrFun (whileSame_block _) _

theorem resumeWaitFor_block (w : Nat) (frame : Frame) (result : Bool) :
    (resumeWaitForCode w frame result).block = resumeWaitFor w frame result := by
  cases result with
  | true => exact whileSame_block frame
  | false => rfl

theorem source_program (w count : Nat) : (source w count).program = program w count := by
  have enter : (source w count).program.enter = (program w count).enter := by
    funext operation
    exact arrive_block w count
  have resume : (source w count).program.resume = (program w count).resume := by
    funext operation frame result
    cases operation with
    | wait => exact whileSame_block frame
    | waitFor => exact resumeWaitFor_block w frame result
  have timed : (source w count).program.timed = (program w count).timed := by
    funext operation
    cases operation <;> rfl
  exact (Program.mk.injEq ..).mpr ⟨enter,resume,timed⟩

/-- `Barrier` taken access by access under its mutex is the barrier of the blocks. -/
theorem barrier_atomic (w count : Nat) (fields : Fields) : Atomic (source w count) (program w count) fields :=
  source_atomic (source_program w count) fields

end Ezthread.Barrier

namespace Ezthread.Future
open Transition Monitor

variable {α ε : Type*}

abbrev Code (α ε : Type*) := Monitor.Code (SharedState α ε) Sleep (Result α ε)

def ifSatisfied (rest : Code α ε) : Code α ε :=
  .read fun state =>
    if state.ready then .finish (.leave (.threw (.threadException "Promise already satisfied"))) else rest

def setValueCode (assignment : Assignment α ε) : Code α ε :=
  ifSatisfied <| match assignment with
    | .stores value =>
        .write (fun state => {state with value := value}) <|
        .write (fun state => {state with ready := true}) <|
        .finish (.announce .done)
    | .throws left ex => .write (fun state => {state with value := left}) <| .finish (.leave (.threw (.raised ex)))

def setExceptionCode (ex : ε) : Code α ε :=
  ifSatisfied <|
  .write (fun state => {state with exception := ex}) <|
  .write (fun state => {state with hasException := true}) <|
  .write (fun state => {state with ready := true}) <|
  .finish (.announce .done)

/-- `if (m_state->hasException) std::rethrow_exception(m_state->exception)`, else a copy of the value. -/
def resultCode (answer : α → Result α ε) : Code α ε :=
  .read fun state =>
    if state.hasException then .read fun state => .finish (.leave (.threw (.raised state.exception)))
    else .read fun state => .finish (.leave (answer state.value))

def unlessReadyCode (sleep : Sleep) (rest : Code α ε) : Code α ε :=
  .read fun state => if state.ready then rest else .finish (.sleep sleep)

def enterCode : Method α ε → Code α ε
  | .setValue assignment => setValueCode assignment
  | .setException ex => setExceptionCode ex
  | .get => unlessReadyCode .get (resultCode .got)
  | .tryGet => unlessReadyCode .tryGet (resultCode fun value => .tried (some value))
  | .isReady => .read fun state => .finish (.leave (.answered state.ready))
  | .wait => unlessReadyCode .wait (.finish (.leave .done))
  | .waitFor => unlessReadyCode .waitFor (.finish (.leave (.answered true)))

def resumeCode (result : Bool) : Sleep → Code α ε
  | .get => unlessReadyCode .get (resultCode .got)
  | .tryGet => if result then resultCode fun value => .tried (some value) else .finish (.leave (.tried none))
  | .wait => unlessReadyCode .wait (.finish (.leave .done))
  | .waitFor => .finish (.leave (.answered result))

/-- Without `m_state` there is no mutex to lock. -/
def source : Source (Operation α ε) (SharedState α ε) Sleep (Result α ε) where
  immediate operation := if operation.hasState then none else some (stateless operation.method)
  enter operation := enterCode operation.method
  resume _ sleep result := resumeCode result sleep
  timed operation :=
    match operation.method with
    | .tryGet | .waitFor => true
    | _ => false

theorem setValue_block (assignment : Assignment α ε) :
    (setValueCode assignment).block = fun state => finish (setValue assignment state) := by
  funext state
  cases assignment <;> simp only [setValueCode,ifSatisfied,setValue,Code.block] <;> split <;> rfl

theorem setException_block (ex : ε) :
    (setExceptionCode ex : Code α ε).block = fun state => finish (setException ex state) := by
  funext state
  simp only [setExceptionCode,ifSatisfied,setException,Code.block]
  split <;> rfl

theorem get_block : (resultCode .got : Code α ε).block = fun state => ⟨state,false,.leave (getResult state)⟩ := by
  funext state
  simp only [resultCode,getResult,Code.block]
  split <;> rfl

theorem tryGet_block : (resultCode (fun value => .tried (some value)) : Code α ε).block =
    fun state => ⟨state,false,.leave (tryGetResult state)⟩ := by
  funext state
  simp only [resultCode,tryGetResult,Code.block]
  split <;> rfl

theorem unlessReady_block {rest : Code α ε} {result : SharedState α ε → Result α ε}
    (same : rest.block = fun state => ⟨state,false,.leave (result state)⟩) (sleep : Sleep) :
    (unlessReadyCode sleep rest).block = fun state => unlessReady state sleep (result state) := by
  funext state
  simp only [unlessReadyCode,unlessReady,Code.block]
  split
  · exact congrFun same state
  · rfl

theorem enter_block (method : Method α ε) : (enterCode method).block = fun state => enter state method := by
  cases method with
  | setValue assignment => exact setValue_block assignment
  | setException ex => exact setException_block ex
  | get => exact unlessReady_block get_block .get
  | tryGet => exact unlessReady_block tryGet_block .tryGet
  | isReady => rfl
  | wait => exact @unlessReady_block _ _ _ (fun _ => .done) rfl .wait
  | waitFor => exact @unlessReady_block _ _ _ (fun _ => .answered true) rfl .waitFor

theorem resume_block (result : Bool) (sleep : Sleep) :
    (resumeCode result sleep : Code α ε).block = fun state => resume result state sleep := by
  cases sleep with
  | get => exact unlessReady_block get_block .get
  | tryGet =>
    cases result with
    | true => exact tryGet_block
    | false => rfl
  | wait => exact @unlessReady_block _ _ _ (fun _ => .done) rfl .wait
  | waitFor => rfl

theorem source_program : (source : Source (Operation α ε) (SharedState α ε) Sleep (Result α ε)).program = program := by
  have enter : (source : Source (Operation α ε) _ _ _).program.enter = program.enter := by
    funext operation state
    obtain ⟨hasState,method⟩ := operation
    cases hasState with
    | true => exact congrFun (enter_block method) state
    | false => rfl
  have resume : (source : Source (Operation α ε) _ _ _).program.resume = program.resume := by
    funext operation sleep result
    exact resume_block result sleep
  exact (Program.mk.injEq ..).mpr ⟨enter,resume,rfl⟩

/-- `Promise` and `Future` taken access by access under the mutex of their shared state
are the monitor of the blocks, setters that throw included. -/
theorem future_atomic (state : SharedState α ε) : Atomic source program state :=
  source_atomic source_program state

end Ezthread.Future
