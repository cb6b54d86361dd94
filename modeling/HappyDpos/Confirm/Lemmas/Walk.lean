import HappyDpos.Confirm.Basic
import HappyDpos.Confirm.Rule
import HappyDpos.Engine.Lemmas.MintCnt

/-!
# 確定の歩み

`confirmWalk` が `firstConfirmable` を計算することを示す。歩みが持ち越す `(epoch, validatorMap)` は、
上のヘッダから読んだ周期と同じ周期の検証者の集合に合う（`WalkState`）。一回の本体を集合の大きさの
条件に書き直し（`confirmWalk_succ`）、親をたどった列 `PathAbove` の上の帰納法で歩み全体を扱う。
早い戻りが確定を見落とさないことは `firstConfirmable_eq_none` から来る。

番号は `[0, 2^64)` にあり、頭と確定したヘッダの番号の差は `2^63` より小さく、時刻は `int64` の範囲に
あるとする。そうでなければ Go の `Uint64()` と `Int64()` の読みは整数と違う。確定したヘッダと同じ
ハッシュを持つヘッダが上にあれば、歩みはそこで止まる。
-/

namespace HappyDpos

/-- 確定に要る検証者の数 `MaxValidatorSize*2/3+1`（整数として）。 -/
def csOf (genesis : Header) : Nat := genesis.maxValidatorSize.toNat * 2 / 3 + 1

/-- 歩みの出口が仕様の答え `r` と合う：`r` があればそれを確定させ、なければ確定させずに戻る。 -/
def WalkExit.Agrees : WalkExit → Option Header → Prop
  | .confirm h, r => r = some h
  | .loopEnd, r => r = none
  | .fastReturn, r => r = none
  | .nilBlockHeader, _ => False
  | .nilGenesis, _ => False

/-- 歩みが訪れるヘッダ `g` の条件：番号は確定したヘッダ `c` より大きく `2^64` より小さく、`c` との差は
`2^63` より小さく、時刻は `int64` に収まり、ハッシュは `c` と違う。 -/
structure AboveConfirmed (cr : Crypto) (c g : Header) : Prop where
  number_gt : c.number < g.number
  number_lt : g.number < 2^64
  number_gap : g.number - c.number < 2^63
  time_ge : -2^63 ≤ g.time
  time_lt : g.time < 2^63
  hash_ne : cr.headerHash g ≠ cr.headerHash c

/-- `g :: rest` は `g` から `c` の一つ上まで親をたどった列：親は次の要素で番号は一つ小さく、最後の
ヘッダの親は `c` と同じ番号。 -/
inductive PathAbove (cr : Crypto) (chain : ChainReader) (c : Header) : Header → List Header → Prop
  | last {g p : Header} : AboveConfirmed cr c g → chain.getHeaderByHash g.parentHash = some p →
      p.number = g.number - 1 → p.number = c.number → PathAbove cr chain c g []
  | cons {g h : Header} {rest : List Header} : AboveConfirmed cr c g →
      chain.getHeaderByHash g.parentHash = some h → h.number = g.number - 1 →
      PathAbove cr chain c h rest → PathAbove cr chain c g (h :: rest)

/-- 歩みが持ち越す `(epoch, validatorMap)` が、上のヘッダ `up`（近い順）から読んだものと合う。 -/
def WalkState (cs : Nat) (up : List Header) (epoch : Int64) (validatorMap : List Address) : Prop :=
  validatorMap.Nodup ∧ match up with
    | [] => validatorMap = []
    | u :: _ => epoch.val = timeEpoch u ∧ validatorMap.toFinset = epochWitnesses u up ∧
        validatorMap.length < cs

/-- 頭 `H` から届く、`c` より番号の大きいヘッダについての条件：親が読めて番号が一つ小さく、時刻は
`int64` に収まり、ハッシュは `c` と違う。 -/
structure ChainAbove (cr : Crypto) (chain : ChainReader) (c H : Header) : Prop where
  parent : ∀ g, chain.Reaches H g → c.number < g.number →
    ∃ p, chain.getHeaderByHash g.parentHash = some p ∧ p.number = g.number - 1
  time : ∀ g, chain.Reaches H g → c.number < g.number → -2^63 ≤ g.time ∧ g.time < 2^63
  hash : ∀ g, chain.Reaches H g → c.number < g.number → cr.headerHash g ≠ cr.headerHash c

/-! ## 数の読み -/

theorem UInt64.toNat_div (a b : UInt64) : (a / b).toNat = a.toNat / b.toNat := rfl

theorem consensusSize_val {G : Header} (hm : G.maxValidatorSize.toNat < 2^63) :
    (consensusSize G).val = csOf G := by
  have h : (G.maxValidatorSize * 2 / 3 + 1).toNat = csOf G := by
    rw [UInt64.toNat_add_mod, UInt64.toNat_div, UInt64.toNat_mul_mod]
    show (G.maxValidatorSize.toNat * 2 % 2^64 / 3 + 1) % 2^64 = _
    rw [Nat.mod_eq_of_lt (by omega : G.maxValidatorSize.toNat * 2 < 2^64)]
    exact Nat.mod_eq_of_lt (by omega)
  rw [consensusSize, Int64.ofUInt64, h, Int64.ofInt_val_of_range] <;> unfold csOf <;> omega

theorem one_le_csOf (G : Header) : 1 ≤ csOf G := Nat.le_add_left 1 _

theorem curEpoch_val {g : Header} (h1 : -2^63 ≤ g.time) (h2 : g.time < 2^63) :
    ((bigInt64 g.time).quot epochInterval).val = timeEpoch g := by
  rw [quot_epochInterval_val, epochOf, bigInt64_of_range h1 h2]
  rfl

theorem bigUint64_lt_iff {x y : Int} (hx : 0 ≤ x) (hx' : x < 2^64) (hy : 0 ≤ y) (hy' : y < 2^64) :
    bigUint64 x < bigUint64 y ↔ x < y := by
  rw [UInt64.lt_iff_toNat, ← Int.ofNat_lt, bigUint64_of_range hx hx', bigUint64_of_range hy hy']

/-! ## 一回の本体 -/

theorem walkState_reset {cs : Nat} {up : List Header} {epoch e : Int64} {M : List Address} {g : Header}
    (hws : WalkState cs up epoch M) (hcs : 1 ≤ cs) (he : e.val = timeEpoch g) :
    (if e ≠ epoch then [] else M).Nodup ∧
      (if e ≠ epoch then [] else M).toFinset = epochWitnesses g up ∧
      (if e ≠ epoch then [] else M).length < cs := by
  obtain ⟨hnd, hws⟩ := hws
  cases up with
  | nil =>
    subst hws
    split_ifs <;> exact ⟨List.nodup_nil, rfl, hcs⟩
  | cons u r =>
    obtain ⟨hu, hM, hlen⟩ := hws
    by_cases hge : timeEpoch u = timeEpoch g
    · have : e = epoch := Int64.ext (by rw [he, hu, hge])
      rw [if_neg (not_not.mpr this), epochWitnesses_congr _ hge.symm]
      exact ⟨hnd, hM, hlen⟩
    · have : e ≠ epoch := fun h => hge (by rw [← hu, ← h, he])
      rw [if_pos this, epochWitnesses_of_ne r hge]
      exact ⟨List.nodup_nil, rfl, by simp only [List.length_nil]; omega⟩

section Walk

variable {cr : Crypto} {chain : ChainReader} {G c : Header}

/-- `for` の一回：早い戻り、確定、親へ進むのどれになるかを、集合の大きさで書く。 -/
theorem confirmWalk_succ {up : List Header} {epoch : Int64} {M : List Address} {g : Header} (fuel : Nat)
    (hA : AboveConfirmed cr c g) (hc : 0 ≤ c.number) (hm : G.maxValidatorSize.toNat < 2^63)
    (hws : WalkState (csOf G) up epoch M) :
    ∃ M' : List Address, M'.Nodup ∧ M'.toFinset = epochWitnesses g (g :: up) ∧
      confirmWalk cr chain (some G) c (fuel + 1) g epoch M =
        if g.number - c.number + (epochWitnesses g up).card < csOf G then some .fastReturn
        else if csOf G ≤ (epochWitnesses g (g :: up)).card then some (.confirm g)
        else match chain.getHeaderByHash g.parentHash with
          | none => some .nilBlockHeader
          | some p => confirmWalk cr chain (some G) c fuel p ((bigInt64 g.time).quot epochInterval) M' := by
  obtain ⟨hnd, hM, hlen⟩ :=
    walkState_reset hws (one_le_csOf G) (curEpoch_val hA.time_ge hA.time_lt)
  have hcs := consensusSize_val hm
  have hcs' : csOf G < 2^63 := by unfold csOf; omega
  have hA1 := hA.number_gt; have hA2 := hA.number_lt
  have hcond : cr.headerHash c ≠ cr.headerHash g ∧ bigUint64 c.number < bigUint64 g.number :=
    ⟨hA.hash_ne.symm, (bigUint64_lt_iff hc (by omega) (by omega) hA2).mpr hA1⟩
  have hdiff := bigInt64_sub_of_range hc (Int.le_of_lt hA1) hA.number_gap
  rw [confirmWalk, if_pos hcond]
  dsimp only
  generalize (if (bigInt64 g.time).quot epochInterval ≠ epoch then [] else M) = M₀ at hnd hM hlen ⊢
  have hlen₀ : M₀.length = (epochWitnesses g up).card := by rw [← hM, List.toFinset_card_of_nodup hnd]
  have hins : (M₀.insert g.validator).toFinset = epochWitnesses g (g :: up) := by
    ext a; simp [List.mem_insert_iff, epochWitnesses_self, ← hM]
  have hlen₁ : (M₀.insert g.validator).length = (epochWitnesses g (g :: up)).card := by
    rw [← hins, List.toFinset_card_of_nodup hnd.insert]
  have hle : (epochWitnesses g (g :: up)).card ≤ (epochWitnesses g up).card + 1 := by
    rw [epochWitnesses_self]; exact Finset.card_insert_le _ _
  have hl : (Int64.ofInt M₀.length).val = M₀.length := Int64.ofInt_val_of_range (by omega) (by omega)
  have hroom : (consensusSize G - Int64.ofInt M₀.length).val = csOf G - M₀.length := by
    rw [Int64.sub_val, hcs, hl]; exact wrap64_of_range (by omega) (by omega)
  have hsize : (Int64.ofInt (M₀.insert g.validator).length).val = (M₀.insert g.validator).length :=
    Int64.ofInt_val_of_range (by omega) (by omega)
  refine ⟨M₀.insert g.validator, hnd.insert, hins, ?_⟩
  simp only [hdiff, hroom, hsize, hcs, ge_iff_le]
  split_ifs <;> first | rfl | omega

theorem confirmWalk_loopEnd {genesis : Option Header} {p : Header} (fuel : Nat) (e : Int64)
    (M : List Address) (hp : ¬ bigUint64 c.number < bigUint64 p.number) :
    confirmWalk cr chain genesis c (fuel + 1) p e M = some .loopEnd := by
  rw [confirmWalk, if_neg fun h => hp h.2]

theorem not_bigUint64_lt_self (x : Int) : ¬ bigUint64 x < bigUint64 x :=
  fun h => Nat.lt_irrefl _ ((UInt64.lt_iff_toNat _ _).mp h)

theorem PathAbove.number_eq {g : Header} {rest : List Header} (hp : PathAbove cr chain c g rest) :
    g.number = c.number + (rest.length + 1) := by
  induction hp with
  | last _ _ h1 h2 => simp only [List.length_nil]; omega
  | cons _ _ h1 _ ih => simp only [List.length_cons]; push_cast at ih ⊢; omega

theorem PathAbove.mem {g : Header} {rest : List Header} (hp : PathAbove cr chain c g rest) :
    ∀ x ∈ g :: rest, AboveConfirmed cr c x := by
  induction hp with
  | last hA => simpa using hA
  | cons hA _ _ _ ih => exact List.forall_mem_cons.mpr ⟨hA, ih⟩

/-- 歩み全体：燃料が足りれば、歩みは `c` の一つ上まで続く列の上の `firstConfirmable` の答えで終わる。 -/
theorem confirmWalk_agrees (hc : 0 ≤ c.number) (hm : G.maxValidatorSize.toNat < 2^63) {g : Header}
    {rest : List Header} (hp : PathAbove cr chain c g rest) :
    ∀ (up : List Header) (epoch : Int64) (M : List Address) (fuel : Nat),
      WalkState (csOf G) up epoch M → rest.length + 1 < fuel →
      ∃ x, confirmWalk cr chain (some G) c fuel g epoch M = some x ∧
        x.Agrees (firstConfirmable (csOf G) (g :: rest) up) := by
  have hnum := hp.number_eq
  induction hp with
  | @last g p hA hpar hpn hpc =>
    intro up epoch M fuel hws hf
    obtain ⟨f, rfl⟩ : ∃ f, fuel = f + 1 := ⟨fuel - 1, by omega⟩
    obtain ⟨M', -, -, heq⟩ := @confirmWalk_succ _ chain _ _ _ _ _ _ f hA hc hm hws
    rw [heq]
    split_ifs with h1 h2
    · exact ⟨_, rfl, firstConfirmable_eq_none [] g up (by simp only [List.length_singleton]; omega)⟩
    · exact ⟨_, rfl, by rw [firstConfirmable, if_pos h2]; exact rfl⟩
    · obtain ⟨f', rfl⟩ : ∃ f', f = f' + 1 := ⟨f - 1, by simp only [List.length_nil] at hf; omega⟩
      rw [hpar]
      exact ⟨_, confirmWalk_loopEnd f' _ _ (hpc ▸ not_bigUint64_lt_self _), by rw [firstConfirmable, if_neg h2]; rfl⟩
  | @cons g h rest hA hpar hpn hrest ih =>
    intro up epoch M fuel hws hf
    obtain ⟨f, rfl⟩ : ∃ f, fuel = f + 1 := ⟨fuel - 1, by omega⟩
    obtain ⟨M', hnd, hM', heq⟩ := @confirmWalk_succ _ chain _ _ _ _ _ _ f hA hc hm hws
    rw [heq]
    split_ifs with h1 h2
    · exact ⟨_, rfl, firstConfirmable_eq_none _ g up (by simp only [List.length_cons] at hnum ⊢; push_cast at hnum; omega)⟩
    · exact ⟨_, rfl, by rw [firstConfirmable, if_pos h2]; exact rfl⟩
    · rw [hpar]
      have hws' : WalkState (csOf G) (g :: up) ((bigInt64 g.time).quot epochInterval) M' :=
        ⟨hnd, curEpoch_val hA.time_ge hA.time_lt, hM', by
          rw [← List.toFinset_card_of_nodup hnd, hM']; omega⟩
      obtain ⟨x, hx, hag⟩ := ih hrest.number_eq (g :: up) _ M' f hws' (by simp only [List.length_cons] at hf ⊢; omega)
      exact ⟨x, hx, by rw [firstConfirmable, if_neg h2]; exact hag⟩

theorem pathAbove_of_chainAbove {H : Header} (hch : ChainAbove cr chain c H) (hH : H.number < 2^64)
    (hgap : H.number - c.number < 2^63) (k : Nat) :
    ∀ g : Header, chain.Reaches H g → g.number = c.number + (k + 1) → g.number ≤ H.number →
      PathAbove cr chain c g (chain.path (k + 1) g).tail := by
  induction k with
  | zero | succ k ih =>
    intro g hr hn hle
    have hgt : c.number < g.number := by omega
    obtain ⟨p, hp, hpn⟩ := hch.parent g hr hgt
    have hA : AboveConfirmed cr c g :=
      ⟨hgt, by omega, by omega, (hch.time g hr hgt).1, (hch.time g hr hgt).2, hch.hash g hr hgt⟩
    rw [ChainReader.path, hp, List.tail_cons]
    first
    | exact .last hA hp hpn (by omega)
    | exact .cons hA hp hpn (ih p (hr.trans_parent hp) (by push_cast at hn; omega) (by omega))

theorem confirmWalk_from_head {H : Header} (hc : 0 ≤ c.number ∧ c.number < 2^64)
    (hH : 0 ≤ H.number ∧ H.number < 2^64) (hgap : H.number - c.number < 2^63)
    (hm : G.maxValidatorSize.toNat < 2^63) (hch : ChainAbove cr chain c H) :
    ∃ x, confirmWalk cr chain (some G) c ((H.number - c.number).toNat + 1) H (Int64.ofInt (-1)) [] = some x ∧
      x.Agrees (firstConfirmable (csOf G) (chain.path (H.number - c.number).toNat H) []) ∧
      ∀ h, x = .confirm h → c.number < h.number := by
  by_cases hlt : c.number < H.number
  · obtain ⟨k, hk⟩ : ∃ k, (H.number - c.number).toNat = k + 1 := ⟨(H.number - c.number).toNat - 1, by omega⟩
    have hp := pathAbove_of_chainAbove hch hH.2 hgap k H (.refl H) (by omega) le_rfl
    have hlen := ChainReader.length_path_le chain (k + 1) H
    have hps : chain.path (k + 1) H = H :: (chain.path (k + 1) H).tail := rfl
    obtain ⟨x, hx, hag⟩ := confirmWalk_agrees hc.1 hm hp [] _ [] (k + 1 + 1) ⟨List.nodup_nil, rfl⟩
      (by rw [List.length_tail]; omega)
    rw [hk, hps]
    refine ⟨x, hx, hag, fun h he => ?_⟩
    subst he
    exact (hp.mem h (firstConfirmable_mem hag)).number_gt
  · have hk : (H.number - c.number).toNat = 0 := by omega
    rw [hk]
    refine ⟨_, confirmWalk_loopEnd 0 _ _ ?_, rfl, fun h he => nomatch he⟩
    rw [bigUint64_lt_iff hc.1 hc.2 hH.1 hH.2]
    exact hlt

end Walk

theorem confirmWalk_confirm {cr : Crypto} {chain : ChainReader} {genesis : Option Header} {c h : Header} :
    ∀ (fuel : Nat) (cur : Header) (e : Int64) (M : List Address),
      confirmWalk cr chain genesis c fuel cur e M = some (.confirm h) →
      chain.Reaches cur h ∧ cr.headerHash c ≠ cr.headerHash h ∧ bigUint64 c.number < bigUint64 h.number
  | 0, _, _, _, hw => nomatch hw
  | fuel + 1, cur, e, M, hw => by
    rw [confirmWalk] at hw
    split_ifs at hw with hcond
    · split at hw
      · cases hw
      · dsimp only at hw
        generalize (if (bigInt64 cur.time).quot epochInterval ≠ e then [] else M) = M₀ at hw
        split_ifs at hw
        · cases hw
        · cases hw; exact ⟨.refl _, hcond⟩
        · split at hw
          · cases hw
          · rename_i p hp
            obtain ⟨hr, hh⟩ := confirmWalk_confirm fuel p _ _ hw
            exact ⟨.parent hp hr, hh⟩
    · cases hw

/-- 歩みは確定したヘッダ `c` を越えて下りない。 -/
theorem confirmWalk_confirm_above {cr : Crypto} {chain : ChainReader} {genesis : Option Header}
    {c h : Header} :
    ∀ (fuel : Nat) (cur : Header) (e : Int64) (M : List Address),
      confirmWalk cr chain genesis c fuel cur e M = some (.confirm h) → chain.Reaches cur c →
      chain.Reaches h c
  | 0, _, _, _, hw, _ => nomatch hw
  | fuel + 1, cur, e, M, hw, hc => by
    rw [confirmWalk] at hw
    split_ifs at hw with hcond
    · split at hw
      · cases hw
      · dsimp only at hw
        generalize (if (bigInt64 cur.time).quot epochInterval ≠ e then [] else M) = M₀ at hw
        split_ifs at hw
        · cases hw
        · cases hw; exact hc
        · split at hw
          · cases hw
          · rename_i p hp
            refine confirmWalk_confirm_above fuel p _ _ hw ?_
            cases hc with
            | refl => exact absurd rfl hcond.1
            | parent hq hr => rw [hp] at hq; cases hq; exact hr
    · cases hw

theorem confirmWalk_add_fuel {cr : Crypto} {chain : ChainReader} {genesis : Option Header} {c : Header} :
    ∀ (fuel : Nat) (cur : Header) (e : Int64) (M : List Address) (x : WalkExit) (k : Nat),
      confirmWalk cr chain genesis c fuel cur e M = some x →
      confirmWalk cr chain genesis c (fuel + k) cur e M = some x
  | 0, _, _, _, _, _, hw => nomatch hw
  | fuel + 1, cur, e, M, x, k, hw => by
    rw [show fuel + 1 + k = fuel + k + 1 by omega]
    rw [confirmWalk] at hw ⊢
    split_ifs at hw ⊢
    · dsimp only at hw ⊢
      generalize (if (bigInt64 cur.time).quot epochInterval ≠ e then [] else M) = M₀ at hw ⊢
      cases genesis with
      | none => exact hw
      | some g =>
        dsimp only at hw ⊢
        split_ifs at hw ⊢
        · exact hw
        · exact hw
        · cases hp : chain.getHeaderByHash cur.parentHash with
          | none => simp only [hp] at hw ⊢; exact hw
          | some p =>
            simp only [hp] at hw ⊢
            exact confirmWalk_add_fuel fuel p _ _ x k hw
    · exact hw

/-! ## 呼び出し -/

theorem startConfirmed_of_some {d : Dpos} {chain : ChainReader} {c : Header}
    (h : d.confirmedBlockHeader = some c) : d.startConfirmed chain = .ok c := by
  simp only [Dpos.startConfirmed, h]

/-- 呼び出しの後の確定したヘッダは、`c` のままか、頭から届く `c` より上のヘッダ。鎖には何も仮定しない。 -/
theorem updateConfirmedBlockHeader_moves {d d' : Dpos} {cr : Crypto} {chain : ChainReader} {fuel : Nat}
    {c : Header} {r : Option DposError} (hs : d.startConfirmed chain = .ok c)
    (hu : d.updateConfirmedBlockHeader cr chain fuel = some (d', r)) :
    ∃ h, d'.confirmedBlockHeader = some h ∧
      (h = c ∨ (chain.Reaches chain.currentHeader h ∧ bigUint64 c.number < bigUint64 h.number ∧
        (chain.Reaches chain.currentHeader c → chain.Reaches h c))) := by
  unfold Dpos.updateConfirmedBlockHeader at hu
  rw [hs] at hu
  cases hw : confirmWalk cr chain (chain.getHeaderByNumber 0) c fuel chain.currentHeader
      (Int64.ofInt (-1)) [] with
  | none => simp only [hw] at hu; exact nomatch hu
  | some x =>
    cases x with
    | confirm h =>
      obtain ⟨hr, -, hlt⟩ := confirmWalk_confirm fuel _ _ _ hw
      simp only [hw] at hu
      refine ⟨h, ?_, .inr ⟨hr, hlt, confirmWalk_confirm_above fuel _ _ _ hw⟩⟩
      split at hu <;>
      · simp only [Option.some.injEq, Prod.mk.injEq] at hu
        rw [← hu.1]
    | loopEnd | fastReturn | nilBlockHeader | nilGenesis =>
      simp only [hw, Option.some.injEq, Prod.mk.injEq] at hu
      exact ⟨c, by rw [← hu.1], .inl rfl⟩

theorem updateConfirmedBlockHeader_number_le {d d' : Dpos} {cr : Crypto} {chain : ChainReader} {fuel : Nat}
    {c : Header} {r : Option DposError} (hc : d.confirmedBlockHeader = some c)
    (hu : d.updateConfirmedBlockHeader cr chain fuel = some (d', r)) :
    ∃ c', d'.confirmedBlockHeader = some c' ∧ bigUint64 c.number ≤ bigUint64 c'.number := by
  obtain ⟨h, hh, hrel⟩ := updateConfirmedBlockHeader_moves (startConfirmed_of_some hc) hu
  refine ⟨h, hh, (UInt64.le_iff_toNat _ _).mpr ?_⟩
  rcases hrel with rfl | ⟨-, hlt, -⟩
  · exact Nat.le_refl _
  · exact Nat.le_of_lt ((UInt64.lt_iff_toNat _ _).mp hlt)

theorem updateConfirmedBlockHeader_frame {d d' : Dpos} {cr : Crypto} {chain : ChainReader} {fuel : Nat}
    {r : Option DposError} (hu : d.updateConfirmedBlockHeader cr chain fuel = some (d', r)) :
    d'.signer = d.signer ∧ d'.signFn = d.signFn ∧ d'.signatures = d.signatures := by
  unfold Dpos.updateConfirmedBlockHeader at hu
  split at hu
  · cases hu; exact ⟨rfl, rfl, rfl⟩
  dsimp only at hu
  split at hu <;> (try split at hu) <;> cases hu <;> exact ⟨rfl, rfl, rfl⟩

end HappyDpos
