import Mathlib.Algebra.Ring.Int.Defs
import Mathlib.Algebra.Ring.Nat
import Mathlib.Data.Int.DivMod
import Mathlib.Tactic.Common

/-! Counters kept in words of `w` bits and compared as signed numbers. The
difference of two words read as signed is the difference of their counters as long
as the one behind does not read as positive where the one ahead reads as negative. -/
namespace Ezthread.Wraparound

variable {w a b distance : Nat}

/-- A word read in two's complement. -/
def signed (w x : Nat) : Int := (x : Int).bmod (2 ^ w)

def Fits (w : Nat) (value : Int) : Prop := -2 ^ (w - 1) ≤ value ∧ value < 2 ^ (w - 1)

instance (w : Nat) (value : Int) : Decidable (Fits w value) := inferInstanceAs (Decidable (_ ∧ _))

theorem fits_iff (value : Int) :
    Fits w value ↔ -((2 ^ (w - 1) : Nat) : Int) ≤ value ∧ value < ((2 ^ (w - 1) : Nat) : Int) := by
  simp [Fits]

theorem signed_low (wide : 0 < w) (low : a < 2 ^ (w - 1)) : signed w a = a := by
  rw [signed,← Nat.two_pow_pred_mul_two wide]
  exact Int.bmod_eq_of_le (by omega) (by omega)

theorem signed_high (wide : 0 < w) (high : 2 ^ (w - 1) ≤ a) (inside : a < 2 ^ w) : signed w a = (a : Int) - (2 ^ w : Nat) := by
  have double := Nat.two_pow_pred_mul_two wide
  rw [signed,← Int.sub_bmod_right]
  exact Int.bmod_eq_of_le (by omega) (by omega)

theorem signed_of_mod (w a : Nat) : signed w (a % 2 ^ w) = signed w a := by
  rw [signed,Int.natCast_emod,Int.emod_bmod]
  rfl

/-- The wrapped difference of two counters nearer than half the words. -/
theorem wrapped_difference (wide : 0 < w) (behind : a + distance = b) (near : distance < 2 ^ (w - 1)) :
    (signed w (a % 2 ^ w) - signed w (b % 2 ^ w)).bmod (2 ^ w) = -(distance : Int) := by
  have apart : (a : Int) - b = -(distance : Int) := by omega
  rw [signed_of_mod,signed_of_mod,signed,signed,← Int.sub_bmod,apart,← Nat.two_pow_pred_mul_two wide]
  exact Int.bmod_eq_of_le (by omega) (by omega)

theorem mod_ahead (behind : a + distance = b) (near : distance < 2 ^ w) :
    b % 2 ^ w = if 2 ^ w ≤ a % 2 ^ w + distance then a % 2 ^ w + distance - 2 ^ w else a % 2 ^ w + distance := by
  rw [← behind,Nat.add_mod_eq_ite,Nat.mod_eq_of_lt near]

/-- The difference itself stays in range, and has the sign of the counters',
unless the two words lie on the two sides of the largest signed number. -/
theorem signed_difference (wide : 0 < w) (behind : a + distance = b) (near : distance < 2 ^ (w - 1)) :
    Fits w (signed w (a % 2 ^ w) - signed w (b % 2 ^ w)) ∧
      (signed w (a % 2 ^ w) - signed w (b % 2 ^ w)).sign = ((a : Int) - b).sign ↔
    ¬ (a % 2 ^ w < 2 ^ (w - 1) ∧ 2 ^ (w - 1) ≤ b % 2 ^ w) := by
  have double := Nat.two_pow_pred_mul_two wide
  have size := Nat.two_pow_pos w
  have below := Nat.mod_lt a size
  have under := Nat.mod_lt b size
  have ahead := mod_ahead behind (by omega : distance < 2 ^ w)
  constructor
  · intro given
    obtain ⟨fits,_⟩ := given
    intro apart
    obtain ⟨low,high⟩ := apart
    rw [fits_iff,signed_low wide low,signed_high wide high under] at fits
    split_ifs at ahead <;> omega
  · intro together
    have exact : signed w (a % 2 ^ w) - signed w (b % 2 ^ w) = (a : Int) - b := by
      rcases Nat.lt_or_ge (a % 2 ^ w) (2 ^ (w - 1)) with low | high <;>
        rcases Nat.lt_or_ge (b % 2 ^ w) (2 ^ (w - 1)) with small | large
      · rw [signed_low wide low,signed_low wide small]
        split_ifs at ahead <;> omega
      · exact absurd ⟨low,large⟩ together
      · rw [signed_high wide high below,signed_low wide small]
        split_ifs at ahead <;> omega
      · rw [signed_high wide high below,signed_high wide large under]
        split_ifs at ahead <;> omega
    rw [exact,fits_iff]
    exact ⟨by omega,rfl⟩

end Ezthread.Wraparound
