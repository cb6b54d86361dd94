import HappyDpos.Engine.Dpos

/-!
# 作ったブロックの数

時刻が減らないブロックの列に沿って `updateMintCnt` を順に呼ぶと、mintCnt trie は周期と検証者の組ごとの
ブロックの数をちょうど持つ。一回の呼び出しが何を書くか（`updateMintCnt_eq`）、それが数の表を保つこと
（`MintCounts.step`）、列全体への帰納（`mintRun_counts`）に分ける。
-/

namespace HappyDpos

/-- 時刻 `t` の周期：`t / epochInterval`（0 に向けて切り捨て）。 -/
def epochOf (t : Int64) : Int := t.val.tdiv 86400

/-- 周期 `e`、検証者 `v` の mintCnt のキー。 -/
def mintCntKey (e : Int64) (v : Address) : Bytes := putUint64 e.toUInt64 ++ v.bytes

/-- 列 `bs` の中で、周期 `e` に検証者 `v` が作ったブロックの数。 -/
def mintCount (bs : List (Int64 × Address)) (e : Int) (v : Address) : Nat :=
  bs.countP fun b => epochOf b.1 = e ∧ b.2 = v

/-- ブロックの列に沿った実行：各ブロックの `Finalize` が、親の時刻と自分の時刻で `updateMintCnt` を呼ぶ。 -/
def mintRun : Int64 → List (Int64 × Address) → DposContext → Except DposError DposContext
  | _, [], d => .ok d
  | parent, (t, v) :: bs, d => do
    let d ← updateMintCnt parent t v d
    mintRun t bs d

/-- mintCnt trie が列 `bs` の数をちょうど持つ。 -/
structure MintCounts (t : Trie) (bs : List (Int64 × Address)) : Prop where
  count : ∀ e v, t.get (mintCntKey e v) =
    if 0 < mintCount bs e.val v then some (putUint64 (UInt64.ofNat (mintCount bs e.val v))) else none
  key : ∀ k w, t.get k = some w → ∃ e v, k = mintCntKey e v

/-! ## 周期とキー -/

theorem tdiv_epochInterval (a : Int) : a.tdiv 86400 = if 0 ≤ a then a / 86400 else -((-a) / 86400) := by
  split_ifs with h
  · exact Int.tdiv_eq_ediv h (by decide)
  · rw [← Int.neg_neg a, Int.neg_tdiv, Int.neg_neg, Int.tdiv_eq_ediv (by omega) (by decide)]

theorem quot_epochInterval_val (t : Int64) : (t.quot epochInterval).val = epochOf t := by
  have := t.ge; have := t.lt
  rw [Int64.quot, Int64.ofInt_val, show epochInterval.val = 86400 from rfl, epochOf, tdiv_epochInterval]
  unfold wrap64; split_ifs <;> omega

theorem epochOf_mono {a b : Int64} (h : a.val ≤ b.val) : epochOf a ≤ epochOf b := by
  unfold epochOf; rw [tdiv_epochInterval, tdiv_epochInterval]; split_ifs <;> omega

theorem mintCntKey_inj {e e' : Int64} {v v' : Address} :
    mintCntKey e v = mintCntKey e' v' ↔ e = e' ∧ v = v' := by
  constructor
  · intro h
    obtain ⟨h1, h2⟩ := List.append_inj h (by simp)
    exact ⟨Int64.toUInt64_inj.mp (putUint64_inj.mp h1), Address.bytes_inj.mp h2⟩
  · rintro ⟨rfl, rfl⟩; rfl

theorem toUInt64_succ (n : Nat) :
    (Int64.ofUInt64 (UInt64.ofNat n) + Int64.ofInt 1).toUInt64 = UInt64.ofNat (n + 1) := by
  apply UInt64.toNat.inj
  rw [Int64.toUInt64, UInt64.toNat_ofNat_mod, UInt64.toNat_ofNat_mod, Int64.add_val, Int64.ofUInt64,
    Int64.ofInt_val, UInt64.toNat_ofNat_mod, Int64.one_val]
  unfold wrap64
  omega

theorem mintCount_append_single (bs : List (Int64 × Address)) (t : Int64) (v : Address) (e : Int)
    (v' : Address) : mintCount (bs ++ [(t, v)]) e v' =
      mintCount bs e v' + if epochOf t = e ∧ v = v' then 1 else 0 := by
  by_cases h : epochOf t = e ∧ v = v' <;> simp [mintCount, List.countP_append, h]

/-! ## 一回の呼び出し -/

/-- 数の表のもとで `updateMintCnt` は panic せず、自分の周期と検証者のキーにこれまでの数より 1 多い数を書く。 -/
theorem updateMintCnt_eq {d : DposContext} {bs : List (Int64 × Address)} {tp t : Int64} (v : Address)
    (h : MintCounts d.mintCntTrie bs) (hbs : ∀ b ∈ bs, b.1.val ≤ tp.val) (ht : tp.val ≤ t.val) :
    updateMintCnt tp t v d = .ok { d with mintCntTrie := (d.mintCntTrie.update
      (mintCntKey (t.quot epochInterval) v) (putUint64 (UInt64.ofNat (mintCount bs (epochOf t) v + 1)))) } := by
  have hN := h.count (t.quot epochInterval) v
  rw [quot_epochInterval_val] at hN
  unfold mintCntKey at hN ⊢
  by_cases he : tp.quot epochInterval = t.quot epochInterval
  · unfold updateMintCnt
    rw [he]
    cases hg : d.mintCntTrie.get (putUint64 (t.quot epochInterval).toUInt64 ++ v.bytes) with
    | none =>
      have h0 : mintCount bs (epochOf t) v = 0 := by
        rw [hg] at hN; split_ifs at hN with h0; omega
      simp only [hg, pure_bind, h0, ite_self]
      rfl
    | some w =>
      have h0 : 0 < mintCount bs (epochOf t) v := by
        rw [hg] at hN; split_ifs at hN with h0; exact h0
      rw [hg, if_pos h0, Option.some.injEq] at hN
      subst hN
      simp only [hg, Trie.hasKeyFrom_of_get hg, and_self, ↓reduceIte, uint64BE_putUint64, pure_bind,
        toUInt64_succ]
      rfl
  · -- 新しい周期の最初のブロック：それより前の時刻はどれも前の周期にある。
    have h0 : mintCount bs (epochOf t) v = 0 := by
      refine List.countP_eq_zero.mpr fun b hb hc => ?_
      simp only [decide_eq_true_eq] at hc
      have h1 := epochOf_mono (hbs b hb)
      have h2 : epochOf tp ≠ epochOf t := fun h =>
        he (Int64.ext (by rw [quot_epochInterval_val, quot_epochInterval_val, h]))
      have h3 := epochOf_mono ht
      omega
    unfold updateMintCnt
    simp only [he, false_and, ↓reduceIte, pure_bind, h0]
    rfl

/-- 一回の呼び出しは数の表を保つ。 -/
theorem MintCounts.step {tr : Trie} {bs : List (Int64 × Address)} {t : Int64} {v : Address}
    (h : MintCounts tr bs) :
    MintCounts (tr.update (mintCntKey (t.quot epochInterval) v)
      (putUint64 (UInt64.ofNat (mintCount bs (epochOf t) v + 1)))) (bs ++ [(t, v)]) where
  count e v' := by
    rw [Trie.get_update_of_ne_nil _ _ _ (putUint64_ne_nil _), mintCount_append_single]
    by_cases hk : mintCntKey e v' = mintCntKey (t.quot epochInterval) v
    · obtain ⟨rfl, rfl⟩ := mintCntKey_inj.mp hk
      simp [quot_epochInterval_val]
    · have : ¬(epochOf t = e.val ∧ v = v') := fun ⟨h1, h2⟩ =>
        hk (mintCntKey_inj.mpr ⟨Int64.ext (by rw [quot_epochInterval_val, h1]), h2.symm⟩)
      rw [if_neg hk, h.count, if_neg this, Nat.add_zero]
  key k w hk := by
    rw [Trie.get_update_of_ne_nil _ _ _ (putUint64_ne_nil _)] at hk
    split_ifs at hk with h1
    · exact ⟨_, _, h1⟩
    · exact h.key k w hk

theorem MintCounts.empty : MintCounts Trie.empty [] where
  count _ _ := rfl
  key _ _ h := by cases h

/-! ## ブロックの列 -/

theorem mintRun_counts (tp : Int64) (rest : List (Int64 × Address)) :
    ∀ (d : DposContext) (bs : List (Int64 × Address)), MintCounts d.mintCntTrie bs →
    (∀ b ∈ bs, b.1.val ≤ tp.val) → List.Chain (· ≤ ·) tp.val (rest.map fun b => b.1.val) →
    ∃ d', mintRun tp rest d = .ok d' ∧ d' = { d with mintCntTrie := d'.mintCntTrie } ∧
      MintCounts d'.mintCntTrie (bs ++ rest) := by
  induction rest generalizing tp with
  | nil => intro d bs h _ _; exact ⟨d, rfl, rfl, by simpa using h⟩
  | cons b rest ih =>
    obtain ⟨t, v⟩ := b
    intro d bs h hbs hc
    obtain ⟨ht, hc⟩ := List.chain_cons.mp hc
    have hbs' : ∀ b ∈ bs ++ [(t, v)], b.1.val ≤ t.val := by
      intro b hb
      rcases List.mem_append.mp hb with hb | hb
      · exact Int.le_trans (hbs b hb) ht
      · simp only [List.mem_singleton] at hb; subst hb; exact Int.le_refl _
    obtain ⟨d', hrun, hframe, hcount⟩ := ih t { d with mintCntTrie := _ } _ h.step hbs' hc
    refine ⟨d', by rw [mintRun, updateMintCnt_eq v h hbs ht]; exact hrun, by rw [hframe], ?_⟩
    simpa using hcount

end HappyDpos
