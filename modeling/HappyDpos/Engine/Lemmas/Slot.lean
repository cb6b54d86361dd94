import HappyDpos.Engine.Dpos
import Mathlib.Data.Rat.Floor

/-!
# 時刻の枠の計算

`PrevSlot` と `NextSlot` は、途中の `int64` の値がどれも範囲に収まるとき（`1 ≤ I`、`1 ≤ now`、
`now + I ≤ 2^63`）、`now - 1` を `I` で割った商 `q`（床関数の除算）を使って `I * q` と `I * (q + 1)` になる。
-/

namespace HappyDpos

section Slot

variable {now : Int64} {I : UInt64}

theorem ofUInt64_val_of_lt (h : I.toNat < 2^63) : (Int64.ofUInt64 I).val = I.toNat :=
  Int64.ofInt_val_of_range (by omega) (by omega)

theorem slot_mul_val {q : Int64} (hI' : I.toNat < 2^63) (hq : 0 ≤ q.val)
    (hr : I.toNat * q.val < 2^63) : (q * Int64.ofUInt64 I).val = I.toNat * q.val := by
  have := Int.mul_nonneg (Int.ofNat_nonneg I.toNat) hq
  rw [Int64.mul_val_of_range, ofUInt64_val_of_lt hI', Int.mul_comm] <;>
    rw [ofUInt64_val_of_lt hI', Int.mul_comm] <;> omega

theorem prevSlot_eq (hI : 1 ≤ I.toNat) (hn : 1 ≤ now.val) (hr : now.val + I.toNat ≤ 2^63) :
    ∃ p, prevSlot now I = some p ∧ p.val = I.toNat * ((now.val - 1) / I.toNat) := by
  have hbi := ofUInt64_val_of_lt (show I.toNat < 2^63 by omega)
  have hsub : (now - Int64.ofInt 1).val = now.val - 1 :=
    Int64.sub_val_of_range (by rw [Int64.one_val]; omega) (by rw [Int64.one_val]; have := now.lt; omega)
  have hq := Int64.quot_val_of_nonneg (show 0 ≤ (now - Int64.ofInt 1).val by omega)
    (show 0 < (Int64.ofUInt64 I).val by omega)
  rw [hsub, hbi] at hq
  have e := Int.ediv_add_emod (now.val - 1) I.toNat
  have := Int.emod_nonneg (now.val - 1) (show (I.toNat : Int) ≠ 0 by omega)
  have := Int.mul_nonneg (Int.ofNat_nonneg I.toNat) (Int.ediv_nonneg (show 0 ≤ now.val - 1 by omega)
    (Int.ofNat_nonneg I.toNat))
  refine ⟨_, by rw [prevSlot, Int64.div_of_ne_zero (by omega)]; rfl, ?_⟩
  rw [slot_mul_val (by omega) (by rw [hq]; exact Int.ediv_nonneg (by omega) (by omega)) (by rw [hq]; omega), hq]

/-- `now + I` が `2^63` に等しいと途中の和は折り返すが、続く `- 1` で戻る。 -/
theorem nextSlot_eq (hI : 1 ≤ I.toNat) (hn : 1 ≤ now.val) (hr : now.val + I.toNat ≤ 2^63) :
    ∃ n, nextSlot now I = some n ∧ n.val = I.toNat * ((now.val - 1) / I.toNat + 1) := by
  have hbi := ofUInt64_val_of_lt (show I.toNat < 2^63 by omega)
  have hsum : (now + Int64.ofUInt64 I - Int64.ofInt 1).val = now.val - 1 + 1 * I.toNat := by
    simp only [Int64.sub_val, Int64.add_val, Int64.one_val, hbi, wrap64]
    omega
  have hq := Int64.quot_val_of_nonneg (show 0 ≤ (now + Int64.ofUInt64 I - Int64.ofInt 1).val by omega)
    (show 0 < (Int64.ofUInt64 I).val by omega)
  rw [hsum, hbi, Int.add_mul_ediv_right _ _ (show (I.toNat : Int) ≠ 0 by omega)] at hq
  have e := Int.ediv_add_emod (now.val - 1) I.toNat
  have := Int.emod_nonneg (now.val - 1) (show (I.toNat : Int) ≠ 0 by omega)
  have hq0 := Int.ediv_nonneg (show 0 ≤ now.val - 1 by omega) (Int.ofNat_nonneg I.toNat)
  have := Int.mul_nonneg (Int.ofNat_nonneg I.toNat) hq0
  refine ⟨_, by rw [nextSlot, Int64.div_of_ne_zero (by omega)]; rfl, ?_⟩
  rw [slot_mul_val (by omega) (by omega) (by rw [hq, Int.mul_add]; omega), hq]

end Slot

theorem ceil_div_eq (a : Int) {b : Nat} (hb : 0 < b) : ⌈(a : ℚ) / b⌉ = (a - 1) / b + 1 := by
  have e := Int.ediv_add_emod (a - 1) b
  have h1 := Int.emod_lt_of_pos (a - 1) (by omega : (0 : Int) < b)
  have h2 := Int.emod_nonneg (a - 1) (by omega : (b : Int) ≠ 0)
  have hb' : (0 : ℚ) < b := by exact_mod_cast hb
  have hlo : (((a - 1) / b + 1 : Int) - 1) * (b : Int) < a := by linarith
  have hhi : a ≤ ((a - 1) / b + 1 : Int) * (b : Int) := by linarith
  rw [Int.ceil_eq_iff, lt_div_iff₀ hb', div_le_iff₀ hb']
  exact ⟨by exact_mod_cast hlo, by exact_mod_cast hhi⟩

end HappyDpos
