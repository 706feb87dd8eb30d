import Mathlib.Algebra.Ring.Nat
import Mathlib.Data.List.Basic
import Mathlib.Logic.Function.Basic
import Mathlib.Tactic.Common

/-! Rings: unbounded positions kept in a bounded buffer by their remainder. -/
namespace Ezthread.RingBuffer

variable {α : Type*} {capacity : Nat}

theorem slot_inj {low high : Nat} (ordered : low ≤ high) (window : high < low + capacity)
    (same : low % capacity = high % capacity) : low = high := by
  have gap : (high - low) % capacity = 0 := Nat.sub_mod_eq_zero_of_mod_eq same.symm
  have small : (high - low) % capacity = high - low := Nat.mod_eq_of_lt (by omega)
  omega

theorem slot_ne {low high : Nat} (ordered : low < high) (window : high < low + capacity) :
    low % capacity ≠ high % capacity := by
  intro same
  have equal := slot_inj (Nat.le_of_lt ordered) window same
  omega

theorem mask_eq (k position : Nat) : position &&& (2 ^ k - 1) = position % 2 ^ k :=
  Nat.and_two_pow_sub_one_eq_mod position k

/-- From position `low` on, every item lies in the slot of its position. -/
def Holds (capacity : Nat) (buffer : Nat → α) (items : List α) (low : Nat) : Prop :=
  ∀ position item, low ≤ position → items[position]? = some item → buffer (position % capacity) = item

theorem Holds.write_ahead {buffer : Nat → α} {items : List α} {low : Nat} (value : α)
    (holds : Holds capacity buffer items low) (room : items.length < low + capacity) :
    Holds capacity (Function.update buffer (items.length % capacity) value) items low := by
  intro position item above found
  have inside := (List.getElem?_eq_some_iff.mp found).1
  have apart : position % capacity ≠ items.length % capacity := slot_ne inside (by omega)
  rw [Function.update_of_ne apart]
  exact holds position item above found

theorem Holds.write_behind {buffer : Nat → α} {items : List α} {low : Nat} (value : α)
    (holds : Holds capacity buffer items low) (room : items.length ≤ low + capacity) :
    Holds capacity (Function.update buffer (low % capacity) value) items (low + 1) := by
  intro position item above found
  have inside := (List.getElem?_eq_some_iff.mp found).1
  have apart : position % capacity ≠ low % capacity := (slot_ne (by omega) (by omega)).symm
  rw [Function.update_of_ne apart]
  exact holds position item (by omega) found

theorem Holds.append {buffer : Nat → α} {items : List α} {low : Nat} {value : α}
    (holds : Holds capacity buffer items low) (written : buffer (items.length % capacity) = value) :
    Holds capacity buffer (items ++ [value]) low := by
  intro position item above found
  by_cases inside : position < items.length
  · rw [List.getElem?_append_left inside] at found
    exact holds position item above found
  · have bound := (List.getElem?_eq_some_iff.mp found).1
    simp only [List.length_append,List.length_singleton] at bound
    have last : position = items.length := by omega
    subst last
    rw [List.getElem?_concat_length] at found
    exact written.trans (Option.some.inj found)

end Ezthread.RingBuffer
