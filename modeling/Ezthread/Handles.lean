import Ezthread.Activation
import Mathlib.Data.List.Basic

/-! A process's kernel handles. The kernel keeps a record for each handle it has
ever returned and may return a closed handle's value again; the program's objects
own handles by their values. -/
namespace Ezthread.Handles
open Activation

variable {Object Owner : Type*}

structure Handle (Object : Type*) where
  value : Nat
  object : Object
  closes : Nat
  deriving DecidableEq

/-- The value an open handle answers to. -/
def Handle.key (h : Handle Object) : Option Nat := if h.closes = 0 then some h.value else none

/-- `misused` records that a call was given a value no open handle has. -/
structure Table (Object : Type*) where
  handles : List (Handle Object)
  misused : Bool
  deriving DecidableEq

def Table.empty : Table Object := ⟨[],false⟩

def Table.find (t : Table Object) (value : Nat) : Option Nat :=
  t.handles.findIdx? fun h => decide (h.key = some value)

def Table.create (t : Table Object) (value : Nat) (object : Object) : Option (Table Object) :=
  if value ≠ 0 ∧ t.find value = none then some {t with handles := t.handles ++ [⟨value,object,0⟩]} else none

def Table.close (t : Table Object) (value : Nat) : Table Object :=
  match t.find value with
  | some n => {t with handles := t.handles.modify n fun h => {h with closes := h.closes + 1}}
  | none => {t with misused := true}

def Table.Open (t : Table Object) (value : Nat) : Prop := Held Handle.key t.handles value

section Table
variable {t u : Table Object} {value n : Nat} {object : Object}

theorem find_some (found : t.find value = some n) : ∃ h, t.handles[n]? = some h ∧ h.key = some value := by
  obtain ⟨inside,answers,_⟩ := List.findIdx?_eq_some_iff_getElem.mp found
  exact ⟨t.handles[n],List.getElem?_eq_getElem inside,of_decide_eq_true answers⟩

theorem find_isSome (held : t.Open value) : ∃ n, t.find value = some n := by
  obtain ⟨j,h,found,answers⟩ := held
  cases search : t.find value with
  | some n => exact ⟨n,rfl⟩
  | none =>
    have silent := List.findIdx?_eq_none_iff.mp search h (List.mem_of_getElem? found)
    exact absurd answers (of_decide_eq_false silent)

theorem create_fresh (created : t.create value object = some u) :
    value ≠ 0 ∧ ¬ t.Open value ∧ u = {t with handles := t.handles ++ [⟨value,object,0⟩]} := by
  unfold Table.create at created
  split at created
  next fresh =>
    cases created
    refine ⟨fresh.1,fun held => ?_,rfl⟩
    obtain ⟨n,found⟩ := find_isSome held
    rw [fresh.2] at found
    contradiction
  next => contradiction

theorem close_open (held : t.Open value) : ∃ n h, t.find value = some n ∧ t.handles[n]? = some h ∧
    h.key = some value ∧ t.close value = {t with handles := t.handles.set n {h with closes := h.closes + 1}} := by
  obtain ⟨n,found⟩ := find_isSome held
  obtain ⟨h,present,answers⟩ := find_some found
  refine ⟨n,h,found,present,answers,?_⟩
  simp only [Table.close,found,List.modify_eq_set_getElem?,present]
  rfl

theorem close_every {fact : Nat → Handle Object → Prop} (held : t.Open value) (every : Every fact t.handles)
    (closed : ∀ n h, t.find value = some n → t.handles[n]? = some h → fact n {h with closes := h.closes + 1}) :
    Every fact (t.close value).handles := by
  obtain ⟨n,h,found,present,_,same⟩ := close_open held
  rw [same]
  exact every.set (closed n h found present)

end Table

/-- The objects' handles are open and each has one owner; no call was given a
closed one. An open handle may have no owner. -/
structure Ledger (key : Owner → Option Nat) (owners : List Owner) (t : Table Object) : Prop where
  exclusive : Exclusive key owners
  single : Exclusive Handle.key t.handles
  opened : ∀ value, Held key owners value → t.Open value
  sound : t.misused = false
  once : Every (fun _ h => h.closes ≤ 1) t.handles

/-- No open handle is held by nobody. -/
def Kept (key : Owner → Option Nat) (owners : List Owner) (t : Table Object) : Prop :=
  ∀ value, t.Open value → Held key owners value

def Stray (key : Owner → Option Nat) (owners : List Owner) (t : Table Object) (value : Nat) : Prop :=
  t.Open value ∧ ¬ Held key owners value

theorem kept_iff {key : Owner → Option Nat} {owners : List Owner} {t : Table Object} :
    Kept key owners t ↔ ∀ value, ¬ Stray key owners t value :=
  forall_congr' fun _ => not_and_not_right.symm

section Ledger
variable {key : Owner → Option Nat} {owners : List Owner} {t u : Table Object} {value i j : Nat} {object : Object}
  {old next giver given : Owner}

theorem Ledger.empty (none : ∀ owner ∈ owners, key owner = none) : Ledger key owners (Table.empty : Table Object) := by
  have unheld (k : Nat) : ¬ Held key owners k := by
    intro held
    obtain ⟨j,owner,found,owns⟩ := held
    rw [none owner (List.mem_of_getElem? found)] at owns
    contradiction
  exact ⟨fun i j a b k first _ owns _ => absurd ⟨i,a,first,owns⟩ (unheld k),Exclusive.nil _,
    fun k held => absurd held (unheld k),rfl,Every.nil _⟩

theorem Ledger.create (ledger : Ledger key owners t) (created : t.create value object = some u) :
    Ledger key owners u := by
  obtain ⟨_,fresh,rfl⟩ := create_fresh created
  refine ⟨ledger.exclusive,ledger.single.append_unheld ?_,fun k held => ?_,ledger.sound,ledger.once.append (Nat.zero_le _)⟩
  · intro k answers
    cases answers
    exact fresh
  · exact (ledger.opened k held).append _

theorem create_opens (created : t.create value object = some u) (k : Nat) : u.Open k ↔ k = value ∨ t.Open k := by
  obtain ⟨_,_,rfl⟩ := create_fresh created
  exact Held.append_gain_iff Handle.key rfl k

theorem Ledger.take (ledger : Ledger key owners t) (found : owners[i]? = some old) (spent : key old = none)
    (owns : key next = some value) (held : t.Open value) (unheld : ¬ Held key owners value) :
    Ledger key (owners.set i next) t := by
  refine ⟨ledger.exclusive.set found ?_,ledger.single,fun k owned => ?_,ledger.sound,ledger.once⟩
  · intro k same
    cases owns.symm.trans same
    exact Or.inr fun j owner present shares => unheld ⟨j,owner,present,shares⟩
  · rcases (Held.gain_iff key next found spent owns k).mp owned with rfl | before
    · exact held
    · exact ledger.opened k before

theorem Ledger.close (ledger : Ledger key owners t) (found : owners[i]? = some old) (owns : key old = some value)
    (spent : key next = none) : Ledger key (owners.set i next) (t.close value) ∧
      ∀ k, (t.close value).Open k ↔ k ≠ value ∧ t.Open k := by
  obtain ⟨n,h,_,present,answers,closed⟩ := close_open (ledger.opened value ⟨i,old,found,owns⟩)
  have silent : ({h with closes := h.closes + 1} : Handle Object).key = none := by simp [Handle.key]
  have opens (k : Nat) : (t.close value).Open k ↔ k ≠ value ∧ t.Open k := by
    rw [closed]
    exact Held.release_iff _ ledger.single present answers silent k
  refine ⟨⟨ledger.exclusive.set found (by simp [spent]),?_,fun k held => ?_,?_,?_⟩,opens⟩
  · rw [closed]
    exact ledger.single.set present (by simp [silent])
  · obtain ⟨apart,before⟩ := (Held.release_iff next ledger.exclusive found owns spent k).mp held
    exact (opens k).mpr ⟨apart,ledger.opened k before⟩
  · rw [closed]
    exact ledger.sound
  · have zero : h.closes = 0 := by
      by_contra closes
      simp [Handle.key,closes] at answers
    rw [closed]
    exact ledger.once.set (by simp [zero])

theorem Ledger.pass (ledger : Ledger key owners t) (apart : i ≠ j) (taking : owners[i]? = some old)
    (giving : owners[j]? = some giver) (empty : key old = none) (passed : key next = key giver)
    (spent : key given = none) : Ledger key ((owners.set j given).set i next) t :=
  ⟨ledger.exclusive.pass apart taking giving passed spent,ledger.single,
    fun k held => ledger.opened k ((Held.pass_iff ledger.exclusive apart taking giving empty passed spent k).mp held),
    ledger.sound,ledger.once⟩

theorem Ledger.keep (ledger : Ledger key owners t) (found : owners[i]? = some old) (same : key next = key old) :
    Ledger key (owners.set i next) t := by
  refine ⟨ledger.exclusive.set found fun k owns => Or.inl (same ▸ owns),ledger.single,fun k held => ?_,ledger.sound,ledger.once⟩
  exact ledger.opened k ((Held.keep_iff key next found same k).mp held)

theorem Ledger.update {n : Nat} {h changed : Handle Object} (ledger : Ledger key owners t) (found : t.handles[n]? = some h)
    (answers : changed.key = h.key) (closes : changed.closes = h.closes) :
    Ledger key owners {t with handles := t.handles.set n changed} where
  exclusive := ledger.exclusive
  single := ledger.single.set found fun _ owns => Or.inl (answers ▸ owns)
  opened value held := (Held.keep_iff Handle.key changed found answers value).mpr (ledger.opened value held)
  sound := ledger.sound
  once := ledger.once.set (closes ▸ ledger.once n h found)

section Strays

theorem stray_create (ledger : Ledger key owners t) (created : t.create value object = some u) (k : Nat) :
    Stray key owners u k ↔ k = value ∨ Stray key owners t k := by
  have fresh := (create_fresh created).2.1
  rw [Stray,create_opens created,Stray,or_and_right]
  refine or_congr_left (and_iff_left_of_imp fun same held => ?_)
  subst same
  exact fresh (ledger.opened k held)

theorem stray_take (found : owners[i]? = some old) (spent : key old = none) (owns : key next = some value) (k : Nat) :
    Stray key (owners.set i next) t k ↔ k ≠ value ∧ Stray key owners t k := by
  rw [Stray,Held.gain_iff key next found spent owns,not_or,Stray]
  exact and_left_comm

theorem Ledger.drop (ledger : Ledger key owners t) (found : owners[i]? = some old) (owns : key old = some value)
    (spent : key next = none) : Ledger key (owners.set i next) t ∧
      ∀ k, Stray key (owners.set i next) t k ↔ k = value ∨ Stray key owners t k := by
  have release := Held.release_iff next ledger.exclusive found owns spent
  refine ⟨⟨ledger.exclusive.set found (by simp [spent]),ledger.single,
    fun k held => ledger.opened k ((release k).mp held).2,ledger.sound,ledger.once⟩,fun k => ?_⟩
  rw [Stray,release,Stray,not_and_or,not_not,and_or_left]
  refine or_congr_left (and_iff_right_of_imp fun same => ?_)
  subst same
  exact ledger.opened k ⟨i,old,found,owns⟩

theorem stray_close (ledger : Ledger key owners t) (found : owners[i]? = some old) (owns : key old = some value)
    (spent : key next = none) (k : Nat) : Stray key (owners.set i next) (t.close value) k ↔ Stray key owners t k := by
  rw [Stray,(ledger.close found owns spent).2,Held.release_iff next ledger.exclusive found owns spent,Stray,not_and,and_assoc]
  constructor
  · intro given
    exact ⟨given.2.1,given.2.2 given.1⟩
  · intro stray
    have apart : k ≠ value := by
      intro same
      subst same
      exact stray.2 ⟨i,old,found,owns⟩
    exact ⟨apart,stray.1,fun _ => stray.2⟩

theorem stray_keep (found : owners[i]? = some old) (same : key next = key old) (k : Nat) :
    Stray key (owners.set i next) t k ↔ Stray key owners t k :=
  and_congr_right fun _ => not_congr (Held.keep_iff key next found same k)

theorem stray_pass (ledger : Ledger key owners t) (apart : i ≠ j) (taking : owners[i]? = some old)
    (giving : owners[j]? = some giver) (empty : key old = none) (passed : key next = key giver)
    (spent : key given = none) (k : Nat) : Stray key ((owners.set j given).set i next) t k ↔ Stray key owners t k :=
  and_congr_right fun _ => not_congr (Held.pass_iff ledger.exclusive apart taking giving empty passed spent k)

end Strays

/-- Once nobody holds anything, what is kept by its holders has been closed once. -/
theorem Ledger.closed_once (ledger : Ledger key owners t) (none : ∀ owner ∈ owners, key owner = none) :
    Kept key owners t ↔ ∀ h ∈ t.handles, h.closes = 1 := by
  constructor
  · intro kept h member
    obtain ⟨n,found⟩ := List.mem_iff_getElem?.mp member
    have once := ledger.once n h found
    have closed : h.closes ≠ 0 := by
      intro zero
      obtain ⟨j,owner,present,owns⟩ := kept h.value ⟨n,h,found,by simp [Handle.key,zero]⟩
      rw [none owner (List.mem_of_getElem? present)] at owns
      contradiction
    omega
  · intro closed k held
    obtain ⟨n,h,found,answers⟩ := held
    simp [Handle.key,closed h (List.mem_of_getElem? found)] at answers

end Ledger

end Ezthread.Handles
