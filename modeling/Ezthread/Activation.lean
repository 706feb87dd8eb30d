import Mathlib.Algebra.Ring.Nat
import Mathlib.Data.List.Basic
import Mathlib.Tactic.Common

/-! Lists of activation records. A system of concurrent calls keeps one record
for each call ever begun, addressed by its position; a step appends a record or
replaces one. These rules carry facts about all records across such a step. -/
namespace Ezthread.Activation

variable {Call Key : Type*} {calls : List Call} {old next call : Call} {i j : Nat}

theorem get_set (found : (calls.set i next)[j]? = some call) :
    (j = i ∧ call = next) ∨ (j ≠ i ∧ calls[j]? = some call) := by
  by_cases same : i = j
  · subst same
    have inside : i < calls.length := by
      have bound := (List.getElem?_eq_some_iff.mp found).1
      simpa using bound
    rw [List.getElem?_set_self inside] at found
    exact Or.inl ⟨rfl,(Option.some.inj found).symm⟩
  · rw [List.getElem?_set_ne same] at found
    exact Or.inr ⟨Ne.symm same,found⟩

theorem get_append (found : (calls ++ [next])[j]? = some call) :
    calls[j]? = some call ∨ (j = calls.length ∧ call = next) := by
  rcases Nat.lt_trichotomy j calls.length with inside | last | outside
  · rw [List.getElem?_append_left inside] at found
    exact Or.inl found
  · subst last
    rw [List.getElem?_concat_length] at found
    exact Or.inr ⟨rfl,(Option.some.inj found).symm⟩
  · have bound := (List.getElem?_eq_some_iff.mp found).1
    simp only [List.length_append,List.length_singleton] at bound
    omega

theorem get_self (found : calls[i]? = some old) : (calls.set i next)[i]? = some next :=
  List.getElem?_set_self (List.getElem?_eq_some_iff.mp found).1

theorem get_lt (found : calls[i]? = some old) : i < calls.length :=
  (List.getElem?_eq_some_iff.mp found).1

theorem get_grows (found : calls[j]? = some call) : (calls ++ [next])[j]? = some call := by
  rw [List.getElem?_append_left (get_lt found)]
  exact found

def Every (fact : Nat → Call → Prop) (calls : List Call) : Prop :=
  ∀ j call, calls[j]? = some call → fact j call

theorem Every.nil (fact : Nat → Call → Prop) : Every fact [] := by
  intro j call found
  simp at found

theorem Every.set {fact : Nat → Call → Prop} (every : Every fact calls) (holds : fact i next) :
    Every fact (calls.set i next) := by
  intro j call found
  rcases get_set found with ⟨rfl,rfl⟩ | ⟨_,kept⟩
  · exact holds
  · exact every j call kept

theorem Every.append {fact : Nat → Call → Prop} (every : Every fact calls)
    (holds : fact calls.length next) : Every fact (calls ++ [next]) := by
  intro j call found
  rcases get_append found with kept | ⟨rfl,rfl⟩
  · exact every j call kept
  · exact holds

theorem Every.imp {before after : Nat → Call → Prop} (every : Every before calls)
    (weaker : ∀ j call, calls[j]? = some call → before j call → after j call) : Every after calls :=
  fun j call found => weaker j call found (every j call found)

theorem count_set (holds : Call → Bool) (next : Call) (found : calls[i]? = some old) :
    (calls.set i next).countP holds + (if holds old then 1 else 0) =
      calls.countP holds + (if holds next then 1 else 0) := by
  obtain ⟨inside,rfl⟩ := List.getElem?_eq_some_iff.mp found
  have counted := List.boole_getElem_le_countP (p := holds) inside
  rw [List.countP_set inside]
  omega

theorem count_keep (holds : Call → Bool) (next : Call) (found : calls[i]? = some old) (same : holds next = holds old) :
    (calls.set i next).countP holds = calls.countP holds := by
  have counted := count_set holds next found
  rw [same] at counted
  exact Nat.add_right_cancel counted

theorem sum_set (weight : Call → Nat) (next : Call) (found : calls[i]? = some old) :
    ((calls.set i next).map weight).sum + weight old = (calls.map weight).sum + weight next := by
  induction calls generalizing i with
  | nil => simp at found
  | cons call rest ih =>
    cases i with
    | zero =>
      cases found
      simp only [List.set_cons_zero,List.map_cons,List.sum_cons]
      omega
    | succ i =>
      have moved := ih (i := i) (by simpa using found)
      simp only [List.set_cons_succ,List.map_cons,List.sum_cons]
      omega

theorem count_pos (holds : Call → Bool) (found : calls[j]? = some call) (held : holds call = true) :
    0 < calls.countP holds :=
  List.countP_pos_iff.mpr ⟨call,List.mem_of_getElem? found,held⟩

theorem count_some {holds : Call → Bool} (positive : 0 < calls.countP holds) :
    ∃ (j : Nat) (call : Call), calls[j]? = some call ∧ holds call = true := by
  obtain ⟨call,member,held⟩ := List.countP_pos_iff.mp positive
  obtain ⟨j,found⟩ := List.mem_iff_getElem?.mp member
  exact ⟨j,call,found,held⟩

theorem count_none {holds : Call → Bool} (none : Every (fun _ call => holds call = false) calls) :
    calls.countP holds = 0 := by
  apply List.countP_eq_zero.mpr
  intro call member held
  obtain ⟨j,found⟩ := List.mem_iff_getElem?.mp member
  exact Bool.false_ne_true ((none j call found).symm.trans held)

/-- A resource each record may own, owned by no two records at once. -/
def Exclusive (key : Call → Option Key) (calls : List Call) : Prop :=
  ∀ (i j : Nat) (a b : Call) (k : Key), calls[i]? = some a → calls[j]? = some b → key a = some k → key b = some k → i = j

theorem Exclusive.nil (key : Call → Option Key) : Exclusive key [] := by
  intro i j a b k found
  simp at found

theorem Exclusive.set {key : Call → Option Key} (exclusive : Exclusive key calls)
    (found : calls[i]? = some old)
    (fresh : ∀ k, key next = some k → key old = some k ∨
      ∀ (j : Nat) (b : Call), calls[j]? = some b → key b ≠ some k) : Exclusive key (calls.set i next) := by
  intro m n a b k first second owns shares
  rcases get_set first with ⟨rfl,rfl⟩ | ⟨_,keptFirst⟩ <;>
    rcases get_set second with ⟨rfl,rfl⟩ | ⟨_,keptSecond⟩
  · rfl
  · rcases fresh k owns with before | unowned
    · exact exclusive m n old b k found keptSecond before shares
    · exact absurd shares (unowned n b keptSecond)
  · rcases fresh k shares with before | unowned
    · exact exclusive m n a old k keptFirst found owns before
    · exact absurd owns (unowned m a keptFirst)
  · exact exclusive m n a b k keptFirst keptSecond owns shares

def Held (key : Call → Option Key) (calls : List Call) (k : Key) : Prop :=
  ∃ (j : Nat) (call : Call), calls[j]? = some call ∧ key call = some k

theorem Exclusive.append_unheld {key : Call → Option Key} (exclusive : Exclusive key calls)
    (unheld : ∀ k, key next = some k → ¬ Held key calls k) : Exclusive key (calls ++ [next]) := by
  intro m n a b k first second owns shares
  rcases get_append first with keptFirst | ⟨rfl,rfl⟩ <;>
    rcases get_append second with keptSecond | ⟨rfl,rfl⟩
  · exact exclusive m n a b k keptFirst keptSecond owns shares
  · exact absurd ⟨m,a,keptFirst,owns⟩ (unheld k shares)
  · exact absurd ⟨n,b,keptSecond,shares⟩ (unheld k owns)
  · rfl

theorem Exclusive.append {key : Call → Option Key} (exclusive : Exclusive key calls)
    (free : key next = none) : Exclusive key (calls ++ [next]) :=
  exclusive.append_unheld fun k owns => by simp [free] at owns

theorem Held.append_iff {key : Call → Option Key} (free : key next = none) (k : Key) :
    Held key (calls ++ [next]) k ↔ Held key calls k := by
  constructor
  · intro given
    obtain ⟨j,call,found,owns⟩ := given
    rcases get_append found with kept | ⟨rfl,rfl⟩
    · exact ⟨j,call,kept,owns⟩
    · simp [free] at owns
  · intro given
    obtain ⟨j,call,found,owns⟩ := given
    exact ⟨j,call,get_grows found,owns⟩

theorem Held.append {key : Call → Option Key} {k : Key} (held : Held key calls k) (next : Call) :
    Held key (calls ++ [next]) k := by
  obtain ⟨j,call,found,owns⟩ := held
  exact ⟨j,call,get_grows found,owns⟩

/-- A resource stays owned while no record gives it up. -/
theorem Held.set {key : Call → Option Key} {k : Key} (held : Held key calls k)
    (found : calls[i]? = some old) (kept : key old = none ∨ key next = key old) :
    Held key (calls.set i next) k := by
  obtain ⟨j,call,present,owns⟩ := held
  by_cases own : j = i
  · subst own
    have equal : call = old := Option.some.inj (present.symm.trans found)
    subst equal
    rcases kept with none | same
    · simp [none] at owns
    · exact ⟨j,next,get_self found,same.trans owns⟩
  · exact ⟨j,call,by rw [List.getElem?_set_ne (Ne.symm own)]; exact present,owns⟩

theorem Held.keep_iff (key : Call → Option Key) (next : Call) (found : calls[i]? = some old)
    (same : key next = key old) (k : Key) : Held key (calls.set i next) k ↔ Held key calls k := by
  constructor
  · intro given
    obtain ⟨j,call,present,owns⟩ := given
    rcases get_set present with ⟨rfl,rfl⟩ | ⟨_,kept⟩
    · exact ⟨j,old,found,same ▸ owns⟩
    · exact ⟨j,call,kept,owns⟩
  · exact fun held => held.set found (.inr same)

theorem Held.gain_iff (key : Call → Option Key) (next : Call) {gained : Key} (found : calls[i]? = some old)
    (before : key old = none) (after : key next = some gained) (k : Key) :
    Held key (calls.set i next) k ↔ k = gained ∨ Held key calls k := by
  constructor
  · intro given
    obtain ⟨j,call,present,owns⟩ := given
    rcases get_set present with ⟨rfl,rfl⟩ | ⟨_,kept⟩
    · exact Or.inl (Option.some.inj (owns.symm.trans after))
    · exact Or.inr ⟨j,call,kept,owns⟩
  · intro either
    rcases either with rfl | held
    · exact ⟨i,next,get_self found,after⟩
    · exact held.set found (.inl before)

theorem Held.release_iff (next : Call) {key : Call → Option Key} {released : Key}
    (exclusive : Exclusive key calls) (found : calls[i]? = some old) (before : key old = some released) (after : key next = none) (k : Key) :
    Held key (calls.set i next) k ↔ k ≠ released ∧ Held key calls k := by
  constructor
  · intro given
    obtain ⟨j,call,present,owns⟩ := given
    rcases get_set present with ⟨rfl,rfl⟩ | ⟨other,kept⟩
    · simp [after] at owns
    · refine ⟨?_,j,call,kept,owns⟩
      intro same
      subst same
      exact other (exclusive j i call old k kept found owns before)
  · intro given
    obtain ⟨different,j,call,present,owns⟩ := given
    have own : j ≠ i := by
      intro same
      subst same
      have equal : call = old := Option.some.inj (present.symm.trans found)
      exact different (Option.some.inj (owns.symm.trans (equal ▸ before)))
    exact ⟨j,call,by rw [List.getElem?_set_ne (Ne.symm own)]; exact present,owns⟩

theorem Held.append_gain_iff (key : Call → Option Key) {gained : Key} (owns : key next = some gained) (k : Key) :
    Held key (calls ++ [next]) k ↔ k = gained ∨ Held key calls k := by
  constructor
  · intro given
    obtain ⟨j,call,found,holds⟩ := given
    rcases get_append found with kept | ⟨rfl,rfl⟩
    · exact Or.inr ⟨j,call,kept,holds⟩
    · exact Or.inl (Option.some.inj (holds.symm.trans owns))
  · intro either
    rcases either with rfl | held
    · exact ⟨calls.length,next,List.getElem?_concat_length,owns⟩
    · exact held.append next

section Pass
variable {key : Call → Option Key} {giver taker given taken : Call}

/-- What one record gives up another takes: the record at `j` passes its resource,
if it has one, to the record at `i`. -/
theorem Held.pass_iff (exclusive : Exclusive key calls) (apart : i ≠ j) (taking : calls[i]? = some taker)
    (giving : calls[j]? = some giver) (empty : key taker = none) (passed : key taken = key giver)
    (spent : key given = none) (k : Key) : Held key ((calls.set j given).set i taken) k ↔ Held key calls k := by
  have still : (calls.set j given)[i]? = some taker := by
    rw [List.getElem?_set_ne apart.symm]
    exact taking
  cases owned : key giver with
  | none =>
    rw [Held.keep_iff key taken still (by rw [passed,owned,empty]),Held.keep_iff key given giving (by rw [spent,owned])]
  | some resource =>
    rw [Held.gain_iff key taken still empty (passed.trans owned),Held.release_iff given exclusive giving owned spent]
    constructor
    · intro either
      rcases either with rfl | ⟨_,held⟩
      · exact ⟨j,giver,giving,owned⟩
      · exact held
    · intro held
      by_cases same : k = resource
      · exact Or.inl same
      · exact Or.inr ⟨same,held⟩

theorem Exclusive.pass (exclusive : Exclusive key calls) (apart : i ≠ j) (taking : calls[i]? = some taker)
    (giving : calls[j]? = some giver) (passed : key taken = key giver) (spent : key given = none) :
    Exclusive key ((calls.set j given).set i taken) := by
  have still : (calls.set j given)[i]? = some taker := by
    rw [List.getElem?_set_ne apart.symm]
    exact taking
  have first : Exclusive key (calls.set j given) := exclusive.set giving fun k owns => by simp [spent] at owns
  refine first.set still fun k owns => Or.inr ?_
  intro m call found shares
  rcases get_set found with ⟨rfl,rfl⟩ | ⟨other,kept⟩
  · simp [spent] at shares
  · exact other (exclusive m j call giver k kept giving shares (passed ▸ owns))

end Pass

end Ezthread.Activation
