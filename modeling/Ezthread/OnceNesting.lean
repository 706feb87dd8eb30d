import Mathlib.Tactic.Common

/-! One thread's nested calls of `CallOnce` on one `OnceFlag`. The lock lets its owner
in again, so only `m_called` stands between a callable and the calls it makes. -/
namespace Ezthread.OnceNesting

variable {ε : Type*}

/-- Calls of `CallOnce` made one after another: of each, the calls its callable makes
should it run, how the callable then ends, and the calls that come next. -/
inductive Calls (ε : Type*)
  | done
  | call (nested : Calls ε) (result : Except ε Unit) (next : Calls ε)

/-- `depth` is how often the thread has entered `m_mutex`, and `returned` how many
callables have returned normally, which is no memory of the program. -/
structure State where
  called : Bool
  depth : Nat
  returned : Nat
  deriving DecidableEq

def init : State := ⟨false,0,0⟩

def State.lock (s : State) : State := {s with depth := s.depth + 1}

def State.unlock (s : State) : State := {s with depth := s.depth - 1}

/-- `func` is the callable with what it does before it ends; what it throws passes the
guard, which unlocks, to the caller. -/
def callOnce (func : State → State × Except ε Unit) (s : State) : State × Except ε Unit :=
  if s.called then (s,.ok ()) else
    let s := s.lock
    if s.called then (s.unlock,.ok ()) else
      match func s with
      | (s,.ok _) => ({s with called := true, returned := s.returned + 1}.unlock,.ok ())
      | (s,.error thrown) => (s.unlock,.error thrown)

/-- What a nested call throws is the callable's to catch or to throw on. -/
def perform : Calls ε → State → State
  | .done, s => s
  | .call nested result next, s => perform next (callOnce (fun s => (perform nested s,result)) s).1

def returns : Except ε Unit → Bool
  | .ok _ => true
  | .error _ => false

/-- Some callable, should all run, would return normally. -/
def Calls.completes : Calls ε → Bool
  | .done => false
  | .call nested result next => nested.completes || returns result || next.completes

/-- The callables that are under way when a callable first returns normally all throw. -/
def Calls.abandons : Calls ε → Bool
  | .done => true
  | .call nested result next =>
      if nested.completes then !returns result && nested.abandons
      else returns result || next.abandons

def Calls.normals : Calls ε → Nat
  | .done => 0
  | .call nested result next =>
      if nested.completes then nested.normals + (returns result).toNat
      else if returns result then 1 else next.normals

theorem perform_called (calls : Calls ε) (s : State) (called : s.called = true) : perform calls s = s := by
  induction calls generalizing s with
  | done => rfl
  | call nested result next _ later => rw [perform,callOnce,if_pos called,later s called]

theorem normals_pos_iff (calls : Calls ε) : calls.completes = true ↔ 0 < calls.normals := by
  induction calls with
  | done => simp [Calls.completes,Calls.normals]
  | call nested result next inner later =>
    rw [Calls.completes,Calls.normals]
    by_cases completes : nested.completes = true
    · have some := inner.mp completes
      simp only [completes,Bool.true_or,if_true,true_iff]
      omega
    · cases result with
      | ok value => simp [completes,returns]
      | error thrown => simpa [completes,returns] using later

theorem normals_none {calls : Calls ε} (incomplete : calls.completes = false) : calls.normals = 0 := by
  by_contra some
  have completes := (normals_pos_iff calls).mpr (Nat.pos_of_ne_zero some)
  rw [incomplete] at completes
  contradiction

theorem callOnce_uncalled {s : State} (uncalled : s.called = false) (nested : Calls ε) (result : Except ε Unit)
    (inner : perform nested s.lock = ⟨nested.completes,s.lock.depth,s.lock.returned + nested.normals⟩) :
    (callOnce (fun s => (perform nested s,result)) s).1 =
      ⟨nested.completes || returns result,s.depth,s.returned + nested.normals + (returns result).toNat⟩ := by
  have entered : ¬ s.called = true := by simp [uncalled]
  rw [callOnce,if_neg entered,if_neg (show ¬ s.lock.called = true from entered),inner]
  cases result with
  | ok value => simp [State.lock,State.unlock,returns]
  | error thrown => simp [State.lock,State.unlock,returns]

/-- From the unset flag the calls set it if any callable returns normally, leave the
lock as it was, and so many callables return normally. -/
theorem perform_uncalled (calls : Calls ε) (s : State) (uncalled : s.called = false) :
    perform calls s = ⟨calls.completes,s.depth,s.returned + calls.normals⟩ := by
  induction calls generalizing s with
  | done =>
    obtain ⟨called,depth,returned⟩ := s
    cases uncalled
    rfl
  | call nested result next inner later =>
    rw [perform,callOnce_uncalled uncalled nested result (inner s.lock uncalled),Calls.completes,Calls.normals]
    cases completes : nested.completes with
    | true =>
      rw [perform_called _ _ rfl]
      simp [Nat.add_assoc]
    | false =>
      rw [normals_none completes]
      cases result with
      | ok value =>
        rw [perform_called _ _ rfl]
        simp [returns]
      | error thrown =>
        rw [later _ rfl]
        simp [returns]

theorem normals_le_one_iff (calls : Calls ε) : calls.normals ≤ 1 ↔ calls.abandons = true := by
  induction calls with
  | done => simp [Calls.normals,Calls.abandons]
  | call nested result next inner later =>
    rw [Calls.normals,Calls.abandons]
    by_cases completes : nested.completes = true
    · have some := (normals_pos_iff nested).mp completes
      rw [if_pos completes,if_pos completes,Bool.and_eq_true,← inner]
      cases result with
      | ok value =>
        simp only [returns,Bool.toNat_true,Bool.not_true,Bool.false_eq_true,false_and,iff_false]
        omega
      | error thrown => simp [returns]
    · rw [if_neg completes,if_neg completes]
      cases result with
      | ok value => simp [returns]
      | error thrown => simpa [returns] using later

/-- Over a whole tree of nested calls at most one callable returns normally if and only
if every callable that is under way when the first one does goes on to throw. -/
theorem nested_once_iff (calls : Calls ε) : (perform calls init).returned ≤ 1 ↔ calls.abandons = true := by
  rw [perform_uncalled calls init rfl,← normals_le_one_iff]
  simp [init]

/-- A callable calls `CallOnce` itself, and both callables return. -/
theorem nested_twice : ¬ (perform (.call (.call .done (.ok ()) .done) (.ok ()) .done : Calls String) init).returned ≤ 1 := by
  decide

end Ezthread.OnceNesting
