import Mathlib.Algebra.BigOperators.Group.List.Basic
import Mathlib.Tactic.Common

/-! Products in a monoid whose factors are all preceded by one seed. -/
namespace Ezthread.Seeded

variable {M : Type*} [Monoid M] {seed : M}

/-- The seeds of a product gather in front of it. -/
def Gathers (seed : M) : Prop := ∀ x, seed * x * seed = seed * seed * x

theorem foldl_mul (x : M) (factors : List M) : factors.foldl (· * ·) x = x * factors.prod := by
  induction factors generalizing x with
  | nil => simp
  | cons factor rest ih => simp [ih,mul_assoc]

theorem Gathers.pow (gathers : Gathers seed) (x : M) (n : Nat) : seed * x * seed ^ n = seed ^ (n + 1) * x := by
  induction n generalizing x with
  | zero => simp
  | succ n ih =>
    calc seed * x * seed ^ (n + 1) = seed * (x * seed) * seed ^ n := by simp only [pow_succ',mul_assoc]
      _ = seed ^ (n + 1) * (x * seed) := ih (x * seed)
      _ = seed ^ n * (seed * x * seed) := by simp only [pow_succ,mul_assoc]
      _ = seed ^ n * (seed * seed * x) := by rw [gathers]
      _ = seed ^ (n + 1 + 1) * x := by simp only [pow_succ,mul_assoc]

theorem Gathers.prod (gathers : Gathers seed) (factors : List M) :
    seed * (factors.map (seed * ·)).prod = seed ^ (factors.length + 1) * factors.prod := by
  induction factors with
  | nil => simp
  | cons factor rest ih =>
    calc seed * ((factor :: rest).map (seed * ·)).prod
        = seed * (seed * factor * (rest.map (seed * ·)).prod) := by simp
      _ = seed * factor * seed * (rest.map (seed * ·)).prod := by
          rw [gathers,mul_assoc,mul_assoc,mul_assoc]
      _ = seed * factor * (seed ^ (rest.length + 1) * rest.prod) := by rw [mul_assoc,ih]
      _ = seed * factor * seed ^ (rest.length + 1) * rest.prod := by simp only [mul_assoc]
      _ = seed ^ (rest.length + 2) * factor * rest.prod := by rw [gathers.pow]
      _ = seed ^ ((factor :: rest).length + 1) * (factor :: rest).prod := by simp [mul_assoc]

/-- Where one factor behind two seeds and before `n + 1` more counts as behind
one seed, the seeds gather and `n + 3` of them are one. -/
theorem gathers_of_single {n : Nat} (single : ∀ x, seed * (seed * x) * seed ^ (n + 1) = seed * x) :
    Gathers seed ∧ seed ^ (n + 3) = seed := by
  have cycle : seed ^ (n + 3) = seed := by
    calc seed ^ (n + 3) = seed * (seed * 1) * seed ^ (n + 1) := by simp only [mul_one,pow_succ',mul_assoc]
      _ = seed := by rw [single,mul_one]
  refine ⟨fun x => ?_,cycle⟩
  -- `idle` is the identity of the seed's powers
  let idle := seed ^ (n + 2)
  have left : seed * idle = seed := by rw [← pow_succ',cycle]
  have right : idle * seed = seed := by rw [← pow_succ,cycle]
  have moved (x : M) : idle * x = seed * x * seed ^ (n + 1) := by
    calc idle * x = seed ^ (n + 1) * (seed * x) := by simp only [idle,pow_succ,mul_assoc]
      _ = seed ^ (n + 1) * (seed * (seed * x) * seed ^ (n + 1)) := by rw [single]
      _ = seed ^ (n + 3) * x * seed ^ (n + 1) := by simp only [pow_succ,mul_assoc]
      _ = seed * x * seed ^ (n + 1) := by rw [cycle]
  have stays : seed ^ (n + 1) * idle = seed ^ (n + 1) := by
    calc seed ^ (n + 1) * idle = seed ^ n * (seed * idle) := by simp only [pow_succ,mul_assoc]
      _ = seed ^ (n + 1) := by rw [left,pow_succ]
  have absorbed : idle * x * idle = idle * x := by
    rw [moved,mul_assoc,stays]
  have turned : seed * x * idle = idle * x * seed := by
    rw [moved,mul_assoc (seed * x),← pow_succ]
  have kept : seed * x * idle = seed * x := by
    calc seed * x * idle = seed * (idle * x * idle) := by rw [← mul_assoc,← mul_assoc,left]
      _ = seed * x := by rw [absorbed,← mul_assoc,left]
  calc seed * x * seed = seed * (idle * x * seed) := by rw [← mul_assoc,← mul_assoc,left]
    _ = seed * seed * x := by rw [← turned,kept,mul_assoc]

end Ezthread.Seeded
