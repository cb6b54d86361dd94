import HappyDpos.Engine.Dpos

/-!
# ヘッダの検証が通るとき

`verifyHeader` が `nil` を返すならどの検査を通ったかを、一つの補題 `verifyHeader_eq_none` で言う。
`Difficulty`、`Number`、`Time` は `Uint64()` で絶対値の下位 64 ビットだけを読み、親の時刻と間隔の和は
`uint64` で折り返す。
-/

namespace HappyDpos

section

variable {cr : Crypto} {chain : ChainReader} {header : Header} {parents : List Header} {bi : UInt64}
  {now : Int64}

theorem verifyHeader_eq_none (h : verifyHeader cr chain header parents bi now = none) :
    header.time ≤ now.val ∧ extraVanity + extraSeal ≤ header.extra.length ∧
    header.mixDigest = zeroHash ∧ bigUint64 header.difficulty = 1 ∧ header.uncleHash = uncleHash cr ∧
    chain.verifyForkHashes header = none ∧
    ∃ p, selectParent chain header parents = some p ∧ bigUint64 p.number = bigUint64 header.number - 1 ∧
      cr.headerHash p = header.parentHash ∧ bigUint64 p.time + bi ≤ bigUint64 header.time := by
  simp only [verifyHeader, ite_eq_iff, reduceCtorEq, and_false, false_or, not_lt, not_not] at h
  obtain ⟨h1, -, h2, h3, h4, h5, h⟩ := h
  split at h
  · cases h
  · rename_i hf
    split at h
    · cases h
    · rename_i p hp
      simp only [ite_eq_iff, reduceCtorEq, and_false, false_or, not_or, not_not, gt_iff_lt, UInt64.not_lt,
        and_true] at h
      exact ⟨h1, h2, h3, h4, h5, hf, p, hp, h.1.1, h.1.2, h.2⟩

end

end HappyDpos
