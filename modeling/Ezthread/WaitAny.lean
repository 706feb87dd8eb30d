import Ezthread.WaitAll
import Mathlib.Algebra.Ring.Nat

/-! `async::WaitAny` over what it polls. `GetTickCount64` is read at the start and after
each round of `IsReady`; the branch for other targets keeps the start as
`GetTickCount`, its low 32 bits. -/
namespace Ezthread.Async

inductive Branch
  | x64
  | other
  deriving DecidableEq

/-- A round of the loop: what `IsReady` says of each future, and the tick after. -/
structure Poll where
  ready : List Bool
  tick : BitVec 64
  deriving DecidableEq

def elapsed (branch : Branch) (start now : BitVec 64) : DWORD :=
  match branch with
  | .x64 => (now - start).setWidth 32
  | .other => (now - (start.setWidth 32).setWidth 64).setWidth 32

/-- The round in which the loop ends, with the future it found ready, if any. -/
def pollLoop (branch : Branch) (timeoutMs : DWORD) (start : BitVec 64) : Nat → List Poll → Option (Nat × Option Nat)
  | _,[] => none
  | round,poll :: rest =>
      match poll.ready.findIdx? id with
      | some i => some (round,some i)
      | none =>
          if elapsed branch start poll.tick ≥ timeoutMs then some (round,none)
          else pollLoop branch timeoutMs start (round + 1) rest

def thrown : Option Nat → Except ThreadException Unit
  | some _ => .ok ()
  | none => .error ⟨"WaitAny timeout",WAIT_TIMEOUT⟩

/-- The overload without `completed` for vectors, and the one for iterators. -/
def waitAny (branch : Branch) (timeoutMs : DWORD) (size : Nat) (start : BitVec 64) (polls : List Poll) :
    Option (Nat × Except ThreadException Unit) :=
  if size = 0 then some (0,.ok ())
  else (pollLoop branch timeoutMs start 0 polls).map fun ended => (ended.1,thrown ended.2)

/-- The result, and what is left in `completed`. -/
def indexed (size : Nat) : Option Nat → Int × List Bool
  | some i => (i,(List.replicate size false).set i true)
  | none => (-1,List.replicate size false)

/-- The overload with `completed` for vectors, and the one for iterators. -/
def waitAnyCompleted (branch : Branch) (timeoutMs : DWORD) (size : Nat) (start : BitVec 64) (polls : List Poll) :
    Option (Nat × Int × List Bool) :=
  if size = 0 then some (0,-1,[])
  else (pollLoop branch timeoutMs start 0 polls).map fun ended => (ended.1,indexed size ended.2)

def throwsAt : Option (Nat × Except ThreadException Unit) → Option Nat
  | some (round,.error _) => some round
  | _ => none

def givesUpAt : Option (Nat × Int × List Bool) → Option Nat
  | some (round,result,_) => if result = -1 then some round else none
  | none => none

def unready (size : Nat) (ticks : List (BitVec 64)) : List Poll :=
  ticks.map fun tick => ⟨List.replicate size false,tick⟩

/-- When a call should time out: at the first reading with the true time elapsed no
less than the limit, and with no limit never. -/
def dueAt (timeoutMs : DWORD) (start : BitVec 64) (ticks : List (BitVec 64)) : Option Nat :=
  if timeoutMs = INFINITE then none
  else ticks.findIdx? fun tick => decide (timeoutMs.toNat ≤ tick.toNat - start.toNat)

/-- The time elapsed when the limit is first reached is no less than the limit in its low 32
bits either; without a limit these are never all ones. -/
def Visible (timeoutMs : DWORD) (start : BitVec 64) (ticks : List (BitVec 64)) : Prop :=
  if timeoutMs = INFINITE then ∀ tick ∈ ticks, (tick.toNat - start.toNat) % 2 ^ 32 ≠ 2 ^ 32 - 1
  else ∀ tick, (ticks.find? fun tick => decide (timeoutMs.toNat ≤ tick.toNat - start.toNat)) = some tick →
    timeoutMs.toNat ≤ (tick.toNat - start.toNat) % 2 ^ 32

section Polls
variable {branch : Branch} {timeoutMs : DWORD} {size : Nat} {start tick : BitVec 64} {ticks : List (BitVec 64)}

/-- Both branches compute the true time elapsed up to its low 32 bits. -/
theorem elapsed_toNat (branch : Branch) (after : start ≤ tick) :
    (elapsed branch start tick).toNat = (tick.toNat - start.toNat) % 2 ^ 32 := by
  have ordered : start.toNat ≤ tick.toNat := after
  have startBound := start.isLt
  have tickBound := tick.isLt
  cases branch with
  | x64 =>
    simp only [elapsed,BitVec.toNat_setWidth,BitVec.toNat_sub]
    omega
  | other =>
    simp only [elapsed,BitVec.toNat_setWidth,BitVec.toNat_sub]
    omega

theorem pollLoop_unready (size : Nat) (round : Nat) : pollLoop branch timeoutMs start round (unready size ticks) =
    (ticks.findIdx? fun tick => decide (elapsed branch start tick ≥ timeoutMs)).map fun n => (round + n,none) := by
  induction ticks generalizing round with
  | nil => rfl
  | cons tick rest ih =>
    have idle : (List.replicate size false).findIdx? id = none := by simp
    rw [unready,List.map_cons,pollLoop,idle,List.findIdx?_cons]
    simp only
    by_cases due : elapsed branch start tick ≥ timeoutMs
    · simp [due]
    · have later := ih (round + 1)
      rw [unready] at later
      simp only [due,if_false,decide_false,Bool.false_eq_true,later,Option.map_map]
      refine congrArg (fun ended => Option.map ended _) (funext fun n => ?_)
      simp [Nat.add_assoc,Nat.add_comm 1 n]

theorem throwsAt_unready (nonempty : size ≠ 0) : throwsAt (waitAny branch timeoutMs size start (unready size ticks)) =
    ticks.findIdx? fun tick => decide (elapsed branch start tick ≥ timeoutMs) := by
  rw [waitAny,if_neg nonempty,pollLoop_unready]
  cases ticks.findIdx? fun tick => decide (elapsed branch start tick ≥ timeoutMs) <;> simp [throwsAt,thrown]

theorem givesUpAt_unready (nonempty : size ≠ 0) :
    givesUpAt (waitAnyCompleted branch timeoutMs size start (unready size ticks)) =
      ticks.findIdx? fun tick => decide (elapsed branch start tick ≥ timeoutMs) := by
  rw [waitAnyCompleted,if_neg nonempty,pollLoop_unready]
  cases ticks.findIdx? fun tick => decide (elapsed branch start tick ≥ timeoutMs) <;> simp [givesUpAt,indexed]

/-- A stricter test finds the same first element if and only if that element passes it. -/
theorem findIdx_eq_iff {Element : Type*} {strict lenient : Element → Bool} {elements : List Element}
    (implies : ∀ element ∈ elements, strict element = true → lenient element = true) :
    elements.findIdx? strict = elements.findIdx? lenient ↔
      ∀ element, elements.find? lenient = some element → strict element = true := by
  induction elements with
  | nil => simp
  | cons element rest ih =>
    obtain ⟨own,others⟩ := List.forall_mem_cons.mp implies
    rw [List.findIdx?_cons,List.findIdx?_cons,List.find?_cons]
    cases passes : lenient element with
    | true =>
      cases strictly : strict element with
      | true => simp [strictly]
      | false => simp [strictly]
    | false =>
      have fails : strict element = false := by
        by_contra strictly
        have lenient := own (by simpa using strictly)
        rw [passes] at lenient
        contradiction
      simp only [fails,Bool.false_eq_true,if_false]
      rw [← ih others]
      exact (Option.map_injective fun _ _ => Nat.succ.inj).eq_iff

/-- A test of the low 32 bits of the time elapsed comes out as it should if and only if
nothing is hidden from it. -/
theorem due_iff (ordered : (start :: ticks).Pairwise (· ≤ ·)) :
    (ticks.findIdx? fun tick => decide (elapsed branch start tick ≥ timeoutMs)) = dueAt timeoutMs start ticks ↔
      Visible timeoutMs start ticks := by
  have after := (List.pairwise_cons.mp ordered).1
  have low (tick : BitVec 64) (member : tick ∈ ticks) :
      elapsed branch start tick ≥ timeoutMs ↔ timeoutMs.toNat ≤ (tick.toNat - start.toNat) % 2 ^ 32 := by
    rw [← elapsed_toNat branch (after tick member)]
    exact Iff.rfl
  unfold dueAt Visible
  by_cases infinite : timeoutMs = INFINITE
  · rw [if_pos infinite,if_pos infinite,List.findIdx?_eq_none_iff]
    refine forall₂_congr fun tick member => ?_
    have bound := Nat.mod_lt (tick.toNat - start.toNat) (show 0 < 2 ^ 32 by decide)
    have limit : timeoutMs.toNat = 2 ^ 32 - 1 := by rw [infinite]; rfl
    rw [decide_eq_false_iff_not,low tick member,limit]
    omega
  · rw [if_neg infinite,if_neg infinite,findIdx_eq_iff]
    · refine forall_congr' fun tick => forall_congr' fun found => ?_
      rw [decide_eq_true_iff,low tick (List.mem_of_find?_eq_some found)]
    · intro tick member due
      have reached := (low tick member).mp (of_decide_eq_true due)
      have less := Nat.mod_le (tick.toNat - start.toNat) (2 ^ 32)
      exact decide_eq_true (by omega)

/-- With no future ready every overload, on either branch, times out when it should if
and only if the low 32 bits of the time elapsed show that it should. -/
theorem waitAny_iff (branch : Branch) (nonempty : size ≠ 0) (ordered : (start :: ticks).Pairwise (· ≤ ·)) :
    (throwsAt (waitAny branch timeoutMs size start (unready size ticks)) = dueAt timeoutMs start ticks ↔
      Visible timeoutMs start ticks) ∧
    (givesUpAt (waitAnyCompleted branch timeoutMs size start (unready size ticks)) = dueAt timeoutMs start ticks ↔
      Visible timeoutMs start ticks) := by
  rw [throwsAt_unready nonempty,givesUpAt_unready nonempty]
  exact ⟨due_iff ordered,due_iff ordered⟩

end Polls

/-- A limit of 10 ms, polled after 4 ms and again after 15 ms, the clock passing 2 to
the 32 between. -/
theorem waitAny_iff_carry :
    throwsAt (waitAny .other 10 1 0xFFFFFFFA (unready 1 [0xFFFFFFFE,0x100000009])) = some 1 := by
  refine (waitAny_iff .other (by decide) (by decide)).1.mpr ?_
  rw [Visible,if_neg (by decide)]
  intro tick found
  cases found
  decide

/-- Polled after 2 to the 32 less one milliseconds, a call without a limit times out. -/
theorem infinite_times_out :
    throwsAt (waitAny .x64 INFINITE 1 0 (unready 1 [0xFFFFFFFF])) = some 0 ∧ dueAt INFINITE 0 [0xFFFFFFFF] = none ∧
    throwsAt (waitAny .other INFINITE 1 0 (unready 1 [0xFFFFFFFF])) = some 0 :=
  ⟨rfl,rfl,rfl⟩

end Ezthread.Async
