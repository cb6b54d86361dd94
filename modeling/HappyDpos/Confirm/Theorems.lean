import HappyDpos.Confirm.Lemmas.Walk
import HappyDpos.Confirm.Lemmas.Quorum
import HappyDpos.Engine.Theorems

/-!
# 確定したブロックの定理

`updateConfirmedBlockHeader` が新しく確定させるヘッダは、呼び出し時の頭から親をたどって届き、番号は前の
確定したヘッダより大きく、前の確定したヘッダが頭の祖先ならその子孫である。頭が前の確定したヘッダを通らない
別の枝に移れば、確定も別の枝に移る。
番号が `[0, 2^64)` にあって頭との差が `2^63` より小さく、時刻が `int64` の範囲にある鎖では、確定させる
ヘッダは `Rule.lean` の `firstConfirmable` そのもので、早い戻りは確定を見落とさない。範囲の外では
`Uint64()` と `Int64()` の読みが整数と違い、この等式は成り立たない。

新しく確定させたヘッダには、頭からそのヘッダまでの同じ周期のヘッダに署名した `consensusSize` 人以上の
検証者がいる。二つのノードが同じ周期に別々の枝を確定させたなら、`MaxValidatorSize/3` 人より多い検証者が
両方の枝に署名している。

証明は `Lemmas/Walk.lean` の `confirmWalk_confirm`（どの鎖でも）と `confirmWalk_from_head`（範囲にある
鎖で）、`Lemmas/Quorum.lean` の `confirmWalk_quorum` から導く。
-/

namespace HappyDpos

/-! ## 例に使う鎖

創世ブロックの上に二つの枝がある。枝 A は番号 1 のヘッダ、枝 B は番号 1 と 2 のヘッダ。二つの枝の
ヘッダは `Coinbase`（空のアドレスと `otherAddress`）で区別する。 -/

/-- 枝 A の番号 1 のヘッダ。 -/
def branchA1 : Header := sampleHeader 1 (sampleCrypto.headerHash sampleGenesis) Address.zero

/-- 枝 B の番号 1 のヘッダ。 -/
def branchB1 : Header := sampleHeader 1 (sampleCrypto.headerHash sampleGenesis) otherAddress

/-- 枝 B の番号 2 のヘッダ。 -/
def branchB2 : Header := sampleHeader 2 (sampleCrypto.headerHash branchB1) otherAddress

/-- 二つの枝を持つ鎖。頭は `head`。 -/
def forkChain (head : Header) : ChainReader :=
  sampleChain [sampleGenesis, branchA1, branchB1, branchB2] head

/-! ## 頭に向かう確定 -/

/-- `updateConfirmedBlockHeader` が確定したヘッダを歩みの始めの `c` から `h` に変えたなら、`h` は呼び出し
時の頭から `ParentHash` をたどって届き、`Uint64()` で読んだ番号は `c` より大きく、`c` も頭から届くなら
`c` は `h` の祖先である。鎖には何も仮定しない。 -/
theorem updateConfirmedBlockHeader_extends {d d' : Dpos} {cr : Crypto} {chain : ChainReader}
    {fuel : Nat} {c h : Header} {r : Option DposError} (hs : d.startConfirmed chain = .ok c)
    (hu : d.updateConfirmedBlockHeader cr chain fuel = some (d', r))
    (hh : d'.confirmedBlockHeader = some h) :
    h = c ∨ (chain.Reaches chain.currentHeader h ∧ bigUint64 c.number < bigUint64 h.number ∧
      (chain.Reaches chain.currentHeader c → chain.Reaches h c)) := by
  obtain ⟨h', hh', hrel⟩ := updateConfirmedBlockHeader_moves hs hu
  cases hh.symm.trans hh'
  exact hrel

theorem updateConfirmedBlockHeader_extends_fork :
    branchA1 = sampleGenesis ∨ ((forkChain branchA1).Reaches (forkChain branchA1).currentHeader branchA1 ∧
      bigUint64 sampleGenesis.number < bigUint64 branchA1.number ∧
      ((forkChain branchA1).Reaches (forkChain branchA1).currentHeader sampleGenesis →
        (forkChain branchA1).Reaches branchA1 sampleGenesis)) :=
  @updateConfirmedBlockHeader_extends sampleDpos _ sampleCrypto (forkChain branchA1) 2 sampleGenesis
    branchA1 _ rfl rfl rfl

/-- 頭が `c` を通らない別の枝に移ると、確定も移る。初めの呼び出しは枝 A の頭で `branchA1` を確定させ、
次の呼び出しは枝 B の頭で `branchB2` を確定させるが、`branchA1` は `branchB2` から親をたどって届かない。 -/
theorem updateConfirmedBlockHeader_switches_branch :
    ∃ d1 r1 d2 r2, sampleDpos.updateConfirmedBlockHeader sampleCrypto (forkChain branchA1) 2 = some (d1, r1) ∧
      d1.confirmedBlockHeader = some branchA1 ∧
      d1.updateConfirmedBlockHeader sampleCrypto (forkChain branchB2) 2 = some (d2, r2) ∧
      d2.confirmedBlockHeader = some branchB2 ∧ ¬ (forkChain branchB2).Reaches branchB2 branchA1 := by
  refine ⟨_, _, _, _, rfl, rfl, rfl, rfl, fun hr => ?_⟩
  have := hr.mem_of_closed (S := [branchB2, branchB1, sampleGenesis]) (by decide) (by decide)
  exact absurd this (by decide)

/-- `updateConfirmedBlockHeader` をどう並べて呼んでも（呼び出しの間に頭がどの枝に移っても）、確定したヘッダは
一度決まれば消えず、`Uint64()` で読んだその番号は減らない。 -/
theorem confirmRun_number_mono (d : Dpos) (cr : Crypto) (fuel : Nat) (chains : List ChainReader) {c : Header}
    (hc : d.confirmedBlockHeader = some c) :
    ∃ c', (d.confirmRun cr fuel chains).confirmedBlockHeader = some c' ∧ bigUint64 c.number ≤ bigUint64 c'.number := by
  induction chains generalizing d c with
  | nil => exact ⟨c, hc, (UInt64.le_iff_toNat _ _).mpr (Nat.le_refl _)⟩
  | cons chain chains ih =>
    rw [Dpos.confirmRun]
    cases hu : d.updateConfirmedBlockHeader cr chain fuel with
    | none => exact ⟨c, hc, (UInt64.le_iff_toNat _ _).mpr (Nat.le_refl _)⟩
    | some p =>
      obtain ⟨d', r⟩ := p
      obtain ⟨h, hh, hle⟩ := updateConfirmedBlockHeader_number_le hc hu
      obtain ⟨c', hc', hle'⟩ := ih d' hh
      exact ⟨c', hc', UInt64.le_trans hle hle'⟩

theorem confirmRun_number_mono_fork :
    ∃ c', (({ sampleDpos with confirmedBlockHeader := some sampleGenesis }).confirmRun sampleCrypto 2
        [forkChain branchA1, forkChain branchB2]).confirmedBlockHeader = some c' ∧
      bigUint64 sampleGenesis.number ≤ bigUint64 c'.number :=
  confirmRun_number_mono _ _ _ _ rfl

/-! ## 確定の裏付け -/

/-- どの鎖でも、`updateConfirmedBlockHeader` が確定したヘッダを歩みの始めの `c` から別の `h` に変えたなら、
創世ブロック `G` があり、`consensusSize G` 人以上の異なる検証者の列 `W` がある。`W` の各検証者は、呼び出し時
の頭から `h` まで親をたどる途中にあり、`h` と同じ周期（`Time.Int64() / epochInterval`）で、`c` とハッシュが
違い `Uint64()` で読んだ番号が `c` より大きいヘッダの `Validator` である。 -/
theorem updateConfirmedBlockHeader_quorum {d d' : Dpos} {cr : Crypto} {chain : ChainReader} {fuel : Nat}
    {c h : Header} {r : Option DposError} (hs : d.startConfirmed chain = .ok c)
    (hu : d.updateConfirmedBlockHeader cr chain fuel = some (d', r)) (hh : d'.confirmedBlockHeader = some h)
    (hne : h ≠ c) :
    ∃ G, ∃ W : List Address, chain.getHeaderByNumber 0 = some G ∧ W.Nodup ∧ (consensusSize G).val ≤ W.length ∧
      ∀ w ∈ W, ∃ g, chain.Reaches chain.currentHeader g ∧ chain.Reaches g h ∧ g.validator = w ∧
        (bigInt64 g.time).quot epochInterval = (bigInt64 h.time).quot epochInterval ∧
        cr.headerHash g ≠ cr.headerHash c ∧ bigUint64 c.number < bigUint64 g.number := by
  obtain ⟨G, W, hG, hq, hcs⟩ := updateConfirmedBlockHeader_walkQuorum hs hu hh hne
  exact ⟨G, W, hG, hq.1, hcs, hq.2⟩

theorem updateConfirmedBlockHeader_quorum_fork :
    ∃ G, ∃ W : List Address, (forkChain branchA1).getHeaderByNumber 0 = some G ∧ W.Nodup ∧ (consensusSize G).val ≤ W.length ∧
      ∀ w ∈ W, ∃ g, (forkChain branchA1).Reaches (forkChain branchA1).currentHeader g ∧
        (forkChain branchA1).Reaches g branchA1 ∧ g.validator = w ∧
        (bigInt64 g.time).quot epochInterval = (bigInt64 branchA1.time).quot epochInterval ∧
        sampleCrypto.headerHash g ≠ sampleCrypto.headerHash sampleGenesis ∧
        bigUint64 sampleGenesis.number < bigUint64 g.number :=
  @updateConfirmedBlockHeader_quorum sampleDpos _ sampleCrypto (forkChain branchA1) 2 sampleGenesis branchA1 _
    rfl rfl rfl (by decide)

/-- 創世ブロックの `MaxValidatorSize` が `2^63` より小さく、歩みの始めの `c` と頭 `H` の番号が `[0, 2^64)`
にあって差が `2^63` より小さく、`H` から届く `c` より番号の大きいヘッダがどれも、番号が一つ小さい親を
持ち、時刻が `int64` に収まり、`c` とハッシュが違うとする。このとき番号の差より一つ多い回数で歩みは終わり、`ErrNilBlockHeader`
を返さない。`H` から親をたどった `c` より上のヘッダの列で、`R(h)` が `MaxValidatorSize*2/3+1` 人に届く
最も高いヘッダ `h` があれば、その番号は `c` より大きく、確定したヘッダは `h` になり、記憶域には `h` の
ハッシュを書く（書き込みが失敗すればその誤りを返す）。なければ確定したヘッダは `c` のまま。 -/
theorem updateConfirmedBlockHeader_confirms_first {d : Dpos} {cr : Crypto} {chain : ChainReader}
    {c G : Header} (hs : d.startConfirmed chain = .ok c) (hG : chain.getHeaderByNumber 0 = some G)
    (hm : G.maxValidatorSize.toNat < 2^63) (hc : 0 ≤ c.number ∧ c.number < 2^64)
    (hH : 0 ≤ chain.currentHeader.number ∧ chain.currentHeader.number < 2^64)
    (hgap : chain.currentHeader.number - c.number < 2^63) (hch : ChainAbove cr chain c chain.currentHeader) :
    ∃ d' r, d.updateConfirmedBlockHeader cr chain ((chain.currentHeader.number - c.number).toNat + 1) =
        some (d', r) ∧
      match firstConfirmable (csOf G)
          (chain.path (chain.currentHeader.number - c.number).toNat chain.currentHeader) [] with
      | none => d' = { d with confirmedBlockHeader := some c } ∧ r = none
      | some h => c.number < h.number ∧
          match Dpos.storeConfirmedBlockHeader cr h d.db with
          | .ok db => d' = { d with confirmedBlockHeader := some h, db } ∧ r = none
          | .error err => d' = { d with confirmedBlockHeader := some h } ∧ r = some err := by
  obtain ⟨x, hx, hag, hgt⟩ := confirmWalk_from_head hc hH hgap hm hch
  unfold Dpos.updateConfirmedBlockHeader
  rw [hs]
  dsimp only
  rw [hG, hx]
  cases x with
  | confirm h =>
    simp only [WalkExit.Agrees] at hag
    rw [hag]
    dsimp only
    cases Dpos.storeConfirmedBlockHeader cr h d.db <;> exact ⟨_, _, rfl, hgt h rfl, rfl, rfl⟩
  | loopEnd | fastReturn =>
    simp only [WalkExit.Agrees] at hag
    rw [hag]
    exact ⟨_, _, rfl, rfl, rfl⟩
  | nilBlockHeader | nilGenesis => exact hag.elim

theorem updateConfirmedBlockHeader_confirms_first_fork :
    ∃ d' r, sampleDpos.updateConfirmedBlockHeader sampleCrypto (forkChain branchA1)
        ((branchA1.number - sampleGenesis.number).toNat + 1) = some (d', r) ∧
      match firstConfirmable (csOf sampleGenesis)
          ((forkChain branchA1).path (branchA1.number - sampleGenesis.number).toNat branchA1) [] with
      | none => d' = { sampleDpos with confirmedBlockHeader := some sampleGenesis } ∧ r = none
      | some h => sampleGenesis.number < h.number ∧
          match Dpos.storeConfirmedBlockHeader sampleCrypto h sampleDpos.db with
          | .ok db => d' = { sampleDpos with confirmedBlockHeader := some h, db } ∧ r = none
          | .error err => d' = { sampleDpos with confirmedBlockHeader := some h } ∧ r = some err := by
  have hreach : ∀ g, (forkChain branchA1).Reaches branchA1 g → g = branchA1 ∨ g = sampleGenesis := by
    intro g hr
    simpa using hr.mem_of_closed (S := [branchA1, sampleGenesis]) (by decide) (by decide)
  refine @updateConfirmedBlockHeader_confirms_first sampleDpos sampleCrypto (forkChain branchA1) sampleGenesis
    sampleGenesis rfl rfl (by decide) (by decide) (by decide) (by decide)
    ⟨fun g hr hg => ?_, fun g hr _ => ?_, fun g hr hg => ?_⟩
  · rcases hreach g hr with rfl | rfl
    · exact ⟨sampleGenesis, rfl, rfl⟩
    · exact absurd hg (by decide)
  · rcases hreach g hr with rfl | rfl <;> decide
  · rcases hreach g hr with rfl | rfl
    · decide
    · exact absurd hg (by decide)

/-! ## 範囲の外の番号

どの番号のヘッダもあり、親は番号が一つ小さいヘッダである鎖。番号 `n` のヘッダの親のハッシュは、
0 以上なら `n - 1` 個の 0、負なら 1 の後に `1 - n` 個の 0 で、鎖はハッシュから番号を読み戻す。 -/

/-- 番号 `n` のヘッダを指すハッシュ。 -/
def numberHash (n : Int) : Bytes :=
  if 0 ≤ n then List.replicate n.toNat 0 else 1 :: List.replicate (-n).toNat 0

/-- ハッシュから番号を読む。 -/
def hashNumber (b : Bytes) : Int :=
  if b.head? = some 1 then -((b.length - 1 : Nat) : Int) else b.length

theorem hashNumber_numberHash (n : Int) : hashNumber (numberHash n) = n := by
  unfold numberHash hashNumber
  split_ifs with h1 h2 h2
  · cases hn : n.toNat with
    | zero => simp [hn] at h2
    | succ k => simp [hn, List.replicate_succ] at h2
  · simp only [List.length_replicate]; omega
  · simp only [List.length_cons, List.length_replicate, Nat.add_sub_cancel]; omega
  · simp at h2

/-- 番号 `n` のヘッダ。 -/
def numberedHeader (n : Int) : Header := sampleHeader n (numberHash (n - 1)) Address.zero

/-- どの番号のヘッダもある鎖。 -/
def numberedChain (head : Header) : ChainReader where
  currentHeader := head
  getHeader _ _ := none
  getHeaderByNumber n := some (numberedHeader n.toNat)
  getHeaderByHash hash := some (numberedHeader (hashNumber hash))
  verifyForkHashes _ := none

theorem numberedChain_reaches {head h g : Header} (hr : (numberedChain head).Reaches h g) :
    ∀ n, h = numberedHeader n → ∃ k ≤ n, g = numberedHeader k := by
  induction hr with
  | refl => exact fun n hn => ⟨n, le_refl n, hn⟩
  | parent hp _ ih =>
    intro n hn
    subst hn
    simp only [numberedChain, numberedHeader, sampleHeader, hashNumber_numberHash, Option.some.injEq] at hp
    obtain ⟨k, hk, rfl⟩ := ih (n - 1) hp.symm
    exact ⟨k, by omega, rfl⟩

theorem numberedChain_parent (n : Int) {g : Header}
    (hr : (numberedChain (numberedHeader n)).Reaches (numberedHeader n) g) :
    ∃ p, (numberedChain (numberedHeader n)).getHeaderByHash g.parentHash = some p ∧ p.number = g.number - 1 := by
  obtain ⟨k, -, rfl⟩ := numberedChain_reaches hr n rfl
  exact ⟨numberedHeader (k - 1), by simp [numberedChain, numberedHeader, sampleHeader, hashNumber_numberHash], rfl⟩

/-- 番号が `2^64` の確定したヘッダ。 -/
def wrappedConfirmed : Header := sampleHeader (2^64) [] Address.zero

/-- 頭が番号 5 のヘッダの、どの番号のヘッダもある鎖。 -/
def wrappedChain : ChainReader := numberedChain (numberedHeader 5)

/-- 番号が `2^63 + 5` の頭。 -/
def gapHead : Header := numberedHeader 9223372036854775813

/-- 番号の読みが整数と違う二つの鎖。どちらの鎖も、届くどのヘッダも番号が一つ小さい親を持ち、創世ブロックの
`MaxValidatorSize` は 1。確定したヘッダの番号が `2^64` なら `Uint64()` では 0 と読まれ、頭から届くどのヘッダも
番号は確定したヘッダより小さいのに、確定したヘッダは頭に変わる。番号 0 の確定したヘッダと番号 `2^63 + 5` の
頭では `Int64()` で読んだ差が負になり、規則では頭が確定するのに、早い戻りで何も変わらない。 -/
theorem updateConfirmedBlockHeader_wraps_number :
    (∀ g, wrappedChain.Reaches wrappedChain.currentHeader g →
      ∃ p, wrappedChain.getHeaderByHash g.parentHash = some p ∧ p.number = g.number - 1) ∧
    (∀ g, wrappedChain.Reaches wrappedChain.currentHeader g → g.number < wrappedConfirmed.number) ∧
    wrappedChain.getHeaderByNumber 0 = some (numberedHeader 0) ∧
    1 ≤ (numberedHeader 0).maxValidatorSize.toNat ∧
    (∃ d' r, ({ sampleDpos with confirmedBlockHeader := some wrappedConfirmed }).updateConfirmedBlockHeader
        sampleCrypto wrappedChain 1 = some (d', r) ∧
      d'.confirmedBlockHeader = some wrappedChain.currentHeader ∧ wrappedChain.currentHeader ≠ wrappedConfirmed) ∧
    (∀ g, (numberedChain gapHead).Reaches gapHead g →
      ∃ p, (numberedChain gapHead).getHeaderByHash g.parentHash = some p ∧ p.number = g.number - 1) ∧
    firstConfirmable (csOf (numberedHeader 0))
      ((numberedChain gapHead).path (gapHead.number - (numberedHeader 0).number).toNat gapHead) [] = some gapHead ∧
    ∃ d' r, ({ sampleDpos with confirmedBlockHeader := some (numberedHeader 0) }).updateConfirmedBlockHeader
        sampleCrypto (numberedChain gapHead) 1 = some (d', r) ∧
      d'.confirmedBlockHeader = some (numberedHeader 0) := by
  refine ⟨fun g hr => numberedChain_parent 5 hr, fun g hr => ?_, rfl, by decide, ⟨_, _, rfl, rfl, by decide⟩,
    fun g hr => numberedChain_parent _ hr, rfl, _, _, rfl, rfl⟩
  obtain ⟨k, hk, rfl⟩ := numberedChain_reaches hr 5 rfl
  show k < 2^64
  omega

end HappyDpos
