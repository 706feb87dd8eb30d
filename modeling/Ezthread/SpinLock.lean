import Ezthread.Permits
import Ezthread.Transition

/-! `SpinLock` of atomic.hpp: `Lock` tests and sets one flag until it finds it clear, and
`Unlock` clears it whoever calls. -/
namespace Ezthread.SpinLock
open Transition Permits

/-- `spinning` are the threads in `Lock`. What is none of the program: `inside` has an entry
for each time a thread found the flag clear and did not unlock since, `entered` the order in
which the calls of `Lock` returned. -/
structure State where
  m_flag : Bool
  spinning : List Nat
  tries : List Bool
  inside : List Nat
  entered : List Nat

def init : State := ⟨false,[],[],[],[]⟩

inductive Label
  | lock (thread : Nat)
  | test (place : Nat)
  | tryLock (thread : Nat)
  | unlock (thread : Nat)

/-- The flag before, and after. -/
def testAndSet (flag : Bool) : Bool × Bool := (flag,true)

def test (place : Nat) (s : State) : Option State :=
  (s.spinning[place]?).map fun thread =>
    match testAndSet s.m_flag with
    | (true,after) => {s with m_flag := after}
    | (false,after) => {s with
        m_flag := after
        spinning := s.spinning.eraseIdx place
        inside := s.inside ++ [thread]
        entered := s.entered ++ [thread]}

def tryLock (thread : Nat) (s : State) : State :=
  match testAndSet s.m_flag with
  | (true,after) => {s with m_flag := after, tries := s.tries ++ [false]}
  | (false,after) => {s with m_flag := after, tries := s.tries ++ [true], inside := s.inside ++ [thread]}

def unlock (thread : Nat) (s : State) : State := {s with m_flag := false, inside := give thread 1 s.inside}

/-- A thread in `Lock` makes no other call. -/
def step (s : State) : Label → Option State
  | .lock thread => if thread ∈ s.spinning then none else some {s with spinning := s.spinning ++ [thread]}
  | .test place => test place s
  | .tryLock thread => if thread ∈ s.spinning then none else some (tryLock thread s)
  | .unlock thread => if thread ∈ s.spinning then none else some (unlock thread s)

/-- The lock is unlocked by a thread that has it, or by anyone while no thread has. -/
def Rightful (s : State) : Label → Prop
  | .unlock thread => s.m_flag = false ∨ thread ∈ s.inside
  | .lock _ | .test _ | .tryLock _ => True

instance (s : State) : (label : Label) → Decidable (Rightful s label)
  | .unlock thread => inferInstanceAs (Decidable (s.m_flag = false ∨ thread ∈ s.inside))
  | .lock _ | .test _ | .tryLock _ => inferInstanceAs (Decidable True)

/-- The flag is set when one thread is inside, and clear when none is. -/
def Guarded (s : State) : Prop := s.inside.length = s.m_flag.toNat

variable {s t : State}

theorem enter_guarded (guarded : Guarded s) (clear : s.m_flag = false) (thread : Nat) : (s.inside ++ [thread]).length = 1 := by
  rw [Guarded,clear] at guarded
  rw [List.length_append,guarded]
  rfl

theorem unlock_guarded (guarded : Guarded s) (thread : Nat) :
    Guarded (unlock thread s) ↔ s.m_flag = false ∨ thread ∈ s.inside := by
  have fewer := give_length thread 1 s.inside
  have counted : 0 < s.inside.count thread ↔ thread ∈ s.inside := List.count_pos_iff
  unfold Guarded at guarded ⊢
  simp only [unlock,Bool.toNat_false]
  rw [← counted]
  cases flag : s.m_flag with
  | false =>
    simp only [flag,Bool.toNat_false] at guarded
    exact ⟨fun _ => Or.inl rfl,fun _ => by omega⟩
  | true =>
    simp only [flag,Bool.toNat_true] at guarded
    simp only [Bool.true_eq_false,false_or]
    omega

theorem guarded_step {label : Label} (guarded : Guarded s) (taken : step s label = some t) : Guarded t ↔ Rightful s label := by
  have always (kept : Guarded t) (rightful : Rightful s label) : Guarded t ↔ Rightful s label := ⟨fun _ => rightful,fun _ => kept⟩
  cases label with
  | lock thread =>
    refine always ?_ trivial
    simp only [step] at taken
    split at taken
    next => contradiction
    next => cases taken; exact guarded
  | test place =>
    refine always ?_ trivial
    obtain ⟨thread,_,rfl⟩ := Option.map_eq_some_iff.mp taken
    cases flag : s.m_flag with
    | true => exact guarded.trans (by rw [flag]; rfl)
    | false => exact enter_guarded guarded flag thread
  | tryLock thread =>
    refine always ?_ trivial
    simp only [step] at taken
    split at taken
    next => contradiction
    next =>
      cases taken
      unfold tryLock
      cases flag : s.m_flag with
      | true => exact guarded.trans (by rw [flag]; rfl)
      | false => exact enter_guarded guarded flag thread
  | unlock thread =>
    simp only [step] at taken
    split at taken
    next => contradiction
    next =>
      cases taken
      exact unlock_guarded guarded thread

/-- All along a run the flag tells whether a thread is inside, and never two are, if and only if the lock
is unlocked only by the thread that has it or while none has. -/
theorem guarded_iff_rightful {labels : List Label} (reached : run step init labels = some s) :
    Along step (fun state => state.inside.length = state.m_flag.toNat) init labels ↔ Obeys step Rightful init labels := by
  have preserved (state : State) (label : Label) (next : State) (guarded : Guarded state) (rightful : Rightful state label)
      (taken : step state label = some next) : Guarded next := (guarded_step guarded taken).mpr rightful
  have breach (state : State) (label : Label) (next : State) (guarded : Guarded state) (wrong : ¬ Rightful state label)
      (taken : step state label = some next) : ¬ Guarded next := fun kept => wrong ((guarded_step guarded taken).mp kept)
  exact along_iff_obeys preserved (fun _ guarded => guarded) breach rfl reached

theorem guarded_iff_rightful_pair : ∃ s, run step init [.lock 1,.test 0,.lock 2,.test 0,.tryLock 3,.unlock 1,.test 0] = some s ∧
    s.tries = [false] ∧ s.entered = [1,2] ∧
    Along step (fun state => state.inside.length = state.m_flag.toNat) init
      [.lock 1,.test 0,.lock 2,.test 0,.tryLock 3,.unlock 1,.test 0] := by
  obtain ⟨s,reached,tries,entered⟩ : ∃ s, run step init [.lock 1,.test 0,.lock 2,.test 0,.tryLock 3,.unlock 1,.test 0] = some s ∧
      s.tries = [false] ∧ s.entered = [1,2] := ⟨_,rfl,rfl,rfl⟩
  exact ⟨s,reached,tries,entered,(guarded_iff_rightful reached).mpr (by decide)⟩

/-- Another thread takes the lock, the first one tests the flag in vain, and the other unlocks. -/
def pass (second : Nat) : List Label := [.lock second,.test 1,.test 0,.unlock second]

theorem pass_run {first second : Nat} (apart : second ≠ first) (entered : List Nat) :
    run step ⟨false,[first],[],[],entered⟩ (pass second) = some ⟨false,[first],[],[],entered ++ [second]⟩ := by
  simp [pass,run,step,test,testAndSet,unlock,give,apart]

/-- A thread in `Lock` may be passed by another as often as one likes, though the lock is clear in between. -/
theorem passed_any_times {first second : Nat} (apart : second ≠ first) (n : Nat) :
    run step init (.lock first :: (List.replicate n (pass second)).flatten) =
      some ⟨false,[first],[],[],List.replicate n second⟩ := by
  have passes (entered : List Nat) : run step ⟨false,[first],[],[],entered⟩ (List.replicate n (pass second)).flatten =
      some ⟨false,[first],[],[],entered ++ List.replicate n second⟩ := by
    induction n generalizing entered with
    | zero => simp [run]
    | succ n ih =>
      rw [List.replicate_succ,List.flatten_cons,run_append,pass_run apart,Option.bind_some,ih,List.append_assoc,
        List.replicate_succ,List.singleton_append]
  exact run_step rfl (passes [])

example : run step init (.lock 1 :: (List.replicate 3 (pass 2)).flatten) = some ⟨false,[1],[],[],[2,2,2]⟩ := rfl

end Ezthread.SpinLock
