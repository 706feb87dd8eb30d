import Ezthread.Activation
import Mathlib.Logic.Function.Basic

/-! Things that are made and destroyed by hand, each with one owner among the records
of a run: what the owners do decides that none is used when it is not there, none is
destroyed twice and none is forgotten. -/
namespace Ezthread.Ownership
open Activation

variable {Call Key : Type*} {key : Call → Option Key} {calls : List Call} {next old : Call} {i : Nat} {k : Key}

/-- `faults` counts the uses and destructions of what was not there. -/
structure Store (Key : Type*) where
  live : Key → Bool
  made : List Key
  destroyed : List Key
  faults : Nat

def Store.empty : Store Key := ⟨fun _ => false,[],[],0⟩

def Store.use (k : Key) (s : Store Key) : Store Key := {s with faults := s.faults + if s.live k then 0 else 1}

variable [DecidableEq Key]

def Store.make (k : Key) (s : Store Key) : Store Key :=
  {s with live := Function.update s.live k true, made := s.made ++ [k]}

def Store.destroy (k : Key) (s : Store Key) : Store Key :=
  {s.use k with live := Function.update s.live k false, destroyed := s.destroyed ++ [k]}

/-- What is there is what some record owns, and no two records own the same. -/
structure Owned (key : Call → Option Key) (calls : List Call) (s : Store Key) : Prop where
  exclusive : Exclusive key calls
  live : ∀ k, s.live k = true ↔ Held key calls k
  ledger : ∀ k, s.made.count k = s.destroyed.count k + if s.live k then 1 else 0
  faultless : s.faults = 0

variable {s : Store Key}

theorem Owned.empty (key : Call → Option Key) : Owned key [] Store.empty where
  exclusive := Exclusive.nil key
  live k := by simp [Store.empty,Held]
  ledger k := rfl
  faultless := rfl

theorem Owned.append (owned : Owned key calls s) (free : key next = none) : Owned key (calls ++ [next]) s :=
  ⟨owned.exclusive.append free,fun k => by rw [owned.live,Held.append_iff free],owned.ledger,owned.faultless⟩

theorem Owned.keep (owned : Owned key calls s) (found : calls[i]? = some old) (same : key next = key old) :
    Owned key (calls.set i next) s :=
  ⟨owned.exclusive.set found fun k owns => Or.inl (same ▸ owns),
    fun k => by rw [owned.live,Held.keep_iff key next found same],owned.ledger,owned.faultless⟩

theorem Owned.use (owned : Owned key calls s) (found : calls[i]? = some old) (owns : key old = some k) : s.use k = s := by
  have there : s.live k = true := (owned.live k).mpr ⟨i,old,found,owns⟩
  simp [Store.use,there]

theorem Owned.make (owned : Owned key calls s) (found : calls[i]? = some old) (before : key old = none)
    (after : key next = some k) (fresh : s.live k = false) : Owned key (calls.set i next) (s.make k) := by
  have unheld : ¬ Held key calls k := fun held => Bool.false_ne_true (fresh.symm.trans ((owned.live k).mpr held))
  refine ⟨owned.exclusive.set found fun other owns => Or.inr fun j call present shares => ?_,fun other => ?_,fun other => ?_,
    owned.faultless⟩
  · obtain rfl : k = other := Option.some.inj (after.symm.trans owns)
    exact unheld ⟨j,call,present,shares⟩
  · rw [Held.gain_iff key next found before after,← owned.live]
    by_cases same : other = k <;> simp [Store.make,same]
  · have paid := owned.ledger other
    by_cases same : other = k
    · subst same
      simp only [fresh] at paid
      simp [Store.make,paid]
    · simpa [Store.make,same,Ne.symm same] using paid

theorem Owned.destroy (owned : Owned key calls s) (found : calls[i]? = some old) (before : key old = some k)
    (after : key next = none) : Owned key (calls.set i next) (s.destroy k) := by
  have there : s.live k = true := (owned.live k).mpr ⟨i,old,found,before⟩
  refine ⟨owned.exclusive.set found fun other owns => by simp [after] at owns,fun other => ?_,fun other => ?_,?_⟩
  · rw [Held.release_iff next owned.exclusive found before after,← owned.live]
    by_cases same : other = k <;> simp [Store.destroy,same]
  · have paid := owned.ledger other
    by_cases same : other = k
    · subst same
      simp only [there] at paid
      simp [Store.destroy,Store.use,paid]
    · simpa [Store.destroy,Store.use,same,Ne.symm same] using paid
  · simp [Store.destroy,Store.use,there,owned.faultless]

/-- With no owner left all is destroyed, as often as it was made. -/
theorem Owned.settled (owned : Owned key calls s) (none : ∀ call ∈ calls, key call = none) (k : Key) :
    s.live k = false ∧ s.made.count k = s.destroyed.count k := by
  have absent : s.live k = false := by
    by_contra there
    obtain ⟨j,call,found,owns⟩ := (owned.live k).mp (by simpa using there)
    simp [none call (List.mem_of_getElem? found)] at owns
  have paid := owned.ledger k
  simp only [absent] at paid
  exact ⟨absent,paid⟩

end Ezthread.Ownership
