import Mathlib.Data.List.Count
import Mathlib.Data.List.Perm.Basic

/-! Calls that wait for a permit and the permits that are held. A call is known by how
many were begun before it; whoever serves the waiting calls picks one by its place. -/
namespace Ezthread.Permits

variable {Limit Result Thread : Type*}

structure Calls (Limit Result : Type*) where
  waiting : List (Nat × Limit)
  begun : Nat
  results : List (Nat × Result)

def Calls.none : Calls Limit Result := ⟨[],0,[]⟩

/-- A call that comes back at once. -/
def Calls.reply (result : Result) (s : Calls Limit Result) : Calls Limit Result :=
  {s with begun := s.begun + 1, results := s.results ++ [(s.begun,result)]}

def Calls.block (limit : Limit) (s : Calls Limit Result) : Calls Limit Result :=
  {s with begun := s.begun + 1, waiting := s.waiting ++ [(s.begun,limit)]}

def Calls.finish (place : Nat) (call : Nat × Limit) (result : Result) (s : Calls Limit Result) : Calls Limit Result :=
  {s with waiting := s.waiting.eraseIdx place, results := s.results ++ [(call.1,result)]}

def Calls.finishAll (result : Result) (s : Calls Limit Result) : Calls Limit Result :=
  {s with waiting := [], results := s.results ++ s.waiting.map fun call => (call.1,result)}

/-- Every call begun waits or has come back, and only once. -/
def Calls.Complete (s : Calls Limit Result) : Prop :=
  (s.waiting.map Prod.fst ++ s.results.map Prod.fst).Perm (List.range s.begun)

section Calls
variable {s : Calls Limit Result} {place : Nat} {call : Nat × Limit}

theorem Calls.none_complete : (Calls.none : Calls Limit Result).Complete := .refl _

theorem Calls.Complete.reply (complete : s.Complete) (result : Result) : (s.reply result).Complete := by
  simp only [Calls.Complete,Calls.reply,List.map_append,List.map_cons,List.map_nil,← List.append_assoc,List.range_succ]
  exact List.Perm.append_right [s.begun] complete

theorem Calls.Complete.block (complete : s.Complete) (limit : Limit) : (s.block limit).Complete := by
  simp only [Calls.Complete,Calls.block,List.map_append,List.map_cons,List.map_nil,List.append_assoc,List.range_succ]
  refine (List.Perm.append_left _ List.perm_append_comm).trans ?_
  rw [← List.append_assoc]
  exact List.Perm.append_right [s.begun] complete

theorem eraseIdx_perm (found : s.waiting[place]? = some call) : (call :: s.waiting.eraseIdx place).Perm s.waiting := by
  obtain ⟨inside,rfl⟩ := List.getElem?_eq_some_iff.mp found
  exact List.getElem_cons_eraseIdx_perm inside

theorem Calls.Complete.finish (complete : s.Complete) (found : s.waiting[place]? = some call) (result : Result) :
    (s.finish place call result).Complete := by
  have moved : (call.1 :: (s.waiting.eraseIdx place).map Prod.fst).Perm (s.waiting.map Prod.fst) :=
    (eraseIdx_perm found).map Prod.fst
  simp only [Calls.Complete,Calls.finish,List.map_append,List.map_cons,List.map_nil,← List.append_assoc]
  refine (List.perm_append_singleton _ _).trans ?_
  rw [← List.cons_append]
  exact (moved.append_right _).trans complete

theorem Calls.Complete.finishAll (complete : s.Complete) (result : Result) : (s.finishAll result).Complete := by
  simp only [Calls.Complete,Calls.finishAll,List.map_nil,List.nil_append,List.map_append,List.map_map,Function.comp_def]
  exact List.perm_append_comm.trans complete

end Calls

section Holders
variable [DecidableEq Thread] (thread : Thread) (n : Nat) (holders : List Thread)

/-- One entry for each permit held; a thread gives back as many as it has, at most. -/
def give : List Thread := holders.diff (List.replicate n thread)

theorem give_length : (give thread n holders).length + min n (holders.count thread) = holders.length := by
  induction n generalizing holders with
  | zero => simp [give]
  | succ n ih =>
    have later := ih (holders.erase thread)
    have same : give thread (n + 1) holders = give thread n (holders.erase thread) := by
      simp only [give,List.replicate_succ,List.diff_cons]
    rw [same]
    by_cases member : thread ∈ holders
    · have fewer := List.length_erase_of_mem member
      have positive := List.length_pos_of_mem member
      have counted := List.count_pos_iff.mpr member
      rw [List.count_erase_self] at later
      omega
    · rw [List.erase_of_not_mem member] at later ⊢
      rw [List.count_eq_zero.mpr member] at later ⊢
      omega

/-- Giving back keeps what is free and what is held at one sum if and only if all of it is one's own. -/
theorem give_balance_iff (available : Nat) :
    available + n + (give thread n holders).length = available + holders.length ↔ n ≤ holders.count thread := by
  have fewer := give_length thread n holders
  omega

end Holders

end Ezthread.Permits
