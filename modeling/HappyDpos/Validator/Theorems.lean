import HappyDpos.Validator.Basic
import HappyDpos.Confirm.Theorems

/-!
# 当番の検証者の定理

`CheckValidator` が認めた時刻に `Prepare` と `Seal` で作ったブロックは、同じ親を読むどのノードの
`verifySeal` でも署名者の比較を通る。`verifySeal` をどう並べて呼んでも、署名者のキャッシュは
健全なままで、確定したヘッダは戻らない。どれも `Election` には何も仮定しない。

`verifySeal` の結果は `verifySeal_cases` で三つに分け、呼び出しの列は一回の呼び出しが保つ性質
（`verifySeal_step`）から帰納法で導く。
-/

namespace HappyDpos

/-! ## 例に使う部品

選挙はいつも枝 B の `Coinbase` の `otherAddress` を当番とし、trie の記憶域はどの根にも空の trie を返す。
署名を作るエンジンの署名者も `otherAddress` で、Keccak-256 はいつも 1 の列なので、65 バイトの公開鍵から
`otherAddress` が復元される。 -/

/-- 例の選挙。 -/
def sampleElection : Election where
  newDatabase _ _ := some Trie.empty
  lookupValidator _ _ _ := .ok otherAddress

/-- 公開鍵から `otherAddress` を復元する暗号の部品。ヘッダのハッシュは `sampleCrypto` と同じ。 -/
def signerCrypto : Crypto :=
  { sampleCrypto with
    hashing := ⟨fun _ => List.replicate 32 1, fun _ => List.replicate 32 1,
      fun _ => (by decide : List.replicate 32 (1 : UInt8) ≠ zeroHash)⟩
    keccak256_length := fun _ => rfl }

/-- 署名者が `otherAddress` のエンジン。 -/
def signerDpos : Dpos := { sampleDpos with signer := otherAddress }

/-- `signerDpos` が創世ブロックの上に `Prepare` した、時刻 1 のヘッダ。 -/
def signerPrepared : Header :=
  (signerDpos.prepare (sampleChain [sampleGenesis] sampleGenesis) (sampleChild sampleGenesis 1)).1

/-! ## 一回の呼び出し -/

section

variable {d : Dpos} {cr : Crypto} {E : Election} {chain : ChainReader} {header G : Header}
  {parents : List Header} {fuel : Nat}

/-- `verifySeal` の結果の三つの場合：何も変えない誤り、キャッシュだけを変える誤り、比較を通って確定を進める。 -/
theorem verifySeal_cases {x : Option (Dpos × Option DposError)}
    (h : d.verifySeal cr E chain header G parents fuel = x) :
    (∃ e, x = some (d, some e)) ∨
    (∃ e, x = some ({ d with signatures := (ecrecover cr header d.signatures).2 }, some e)) ∨
    (bigUint64 header.number ≠ 0 ∧ ∃ parent ctx, selectParent chain header parents = some parent ∧
      newDposContextFromProto cr.hashing (E.newDatabase d.db) parent.dposContext = .ok ctx ∧
      E.lookupValidator ctx (bigInt64 header.time) G.blockInterval = .ok header.validator ∧
      (ecrecover cr header d.signatures).1 = .ok header.validator ∧
      x = { d with signatures := (ecrecover cr header d.signatures).2 }.updateConfirmedBlockHeader
        cr chain fuel) := by
  unfold Dpos.verifySeal at h
  subst h
  split_ifs with h0
  · exact .inl ⟨_, rfl⟩
  split
  · exact .inl ⟨_, rfl⟩
  rename_i parent hp
  split
  · exact .inl ⟨_, rfl⟩
  rename_i ctx hctx
  split
  · exact .inl ⟨_, rfl⟩
  rename_i v hv
  -- 比較の結果によらず、キャッシュは `ecrecover` が残したもの
  rcases hb : verifyBlockSigner cr d.signatures v header with ⟨r, sigs⟩
  obtain rfl : sigs = (ecrecover cr header d.signatures).2 := by rw [← verifyBlockSigner_snd v, hb]
  cases r with
  | some e => exact .inr (.inl ⟨e, rfl⟩)
  | none =>
    obtain ⟨hec, rfl⟩ := verifyBlockSigner_fst_eq_none.mp (congrArg Prod.fst hb)
    exact .inr (.inr ⟨h0, parent, ctx, hp, hctx, hv, hec, rfl⟩)

theorem checkValidator_eq_none {lastBlock : Block} {now : Int64} {bi : UInt64} :
    d.checkValidator cr E lastBlock now bi = none ↔
      checkDeadline lastBlock now bi = none ∧ ∃ ctx,
        newDposContextFromProto cr.hashing (E.newDatabase d.db) lastBlock.header.dposContext = .ok ctx ∧
        E.lookupValidator ctx now bi = .ok d.signer ∧ d.signer ≠ Address.zero := by
  unfold Dpos.checkValidator
  split <;> rename_i hd
  · simp [hd]
  split <;> rename_i hctx
  · simp [hd, hctx]
  rename_i ctx
  split <;> rename_i hv
  · simp [hd, hctx, hv]
  rename_i v
  simp only [hd, hctx, hv, true_and, exists_eq_left', Except.ok.injEq, ite_eq_right_iff, reduceCtorEq,
    imp_false, not_or, not_not]
  constructor
  · rintro ⟨h1, rfl⟩; exact ⟨rfl, h1⟩
  · rintro ⟨rfl, h1⟩; exact ⟨h1, rfl⟩

end

/-! ## 呼び出しの列 -/

/-- `d` から `d'` へ：自分の署名者と署名の仕組みは変わらず、確定したヘッダは一度決まれば消えず、
`Uint64()` で読んだ番号は減らない。 -/
structure Dpos.Advances (d d' : Dpos) : Prop where
  signer : d'.signer = d.signer
  signFn : d'.signFn = d.signFn
  confirmed : ∀ c, d.confirmedBlockHeader = some c →
    ∃ c', d'.confirmedBlockHeader = some c' ∧ bigUint64 c.number ≤ bigUint64 c'.number

theorem Dpos.Advances.refl (d : Dpos) : d.Advances d :=
  ⟨rfl, rfl, fun c hc => ⟨c, hc, UInt64.le_refl _⟩⟩

theorem Dpos.Advances.trans {d₁ d₂ d₃ : Dpos} (h₁ : d₁.Advances d₂) (h₂ : d₂.Advances d₃) : d₁.Advances d₃ where
  signer := h₂.signer.trans h₁.signer
  signFn := h₂.signFn.trans h₁.signFn
  confirmed c hc := by
    obtain ⟨c₂, hc₂, hle₁⟩ := h₁.confirmed c hc
    obtain ⟨c₃, hc₃, hle₂⟩ := h₂.confirmed c₂ hc₂
    exact ⟨c₃, hc₃, UInt64.le_trans hle₁ hle₂⟩

theorem Dpos.Advances.of_updateConfirmedBlockHeader {d d' : Dpos} {cr : Crypto} {chain : ChainReader}
    {fuel : Nat} {r : Option DposError} (hu : d.updateConfirmedBlockHeader cr chain fuel = some (d', r)) :
    d.Advances d' :=
  ⟨(updateConfirmedBlockHeader_frame hu).1, (updateConfirmedBlockHeader_frame hu).2.1,
    fun _ hc => updateConfirmedBlockHeader_number_le hc hu⟩

/-- 一回の `verifySeal` は、同じハッシュのヘッダの署名者が同じ限りキャッシュの健全さを保ち、状態を進める。 -/
theorem verifySeal_step {d d' : Dpos} {cr : Crypto} {E : Election} {chain : ChainReader} {header G : Header}
    {parents : List Header} {fuel : Nat} {r : Option DposError} (hc : CacheSound cr d.signatures)
    (hcol : ∀ h', cr.headerHash h' = cr.headerHash header → recoverSigner cr h' = recoverSigner cr header)
    (h : d.verifySeal cr E chain header G parents fuel = some (d', r)) :
    CacheSound cr d'.signatures ∧ d.Advances d' := by
  have hc' := hc.ecrecover header hcol
  obtain ⟨e, he⟩ | ⟨e, he⟩ | ⟨-, -, -, -, -, -, -, hu⟩ := verifySeal_cases h
  · cases he; exact ⟨hc, .refl d⟩
  · cases he; exact ⟨hc', ⟨rfl, rfl, fun c hc => ⟨c, hc, UInt64.le_refl _⟩⟩⟩
  · have hA := Dpos.Advances.of_updateConfirmedBlockHeader hu.symm
    exact ⟨(updateConfirmedBlockHeader_frame hu.symm).2.2 ▸ hc', ⟨hA.signer, hA.signFn, hA.confirmed⟩⟩

/-! ## 作る側と確かめる側 -/

/-- 署名の仕組みが正しい（自分の鍵で作った 65 バイトの署名から自分のアドレスが復元される）とする。
`CheckValidator` が前のブロック `lastBlock` の上で時刻 `now` に自分を当番と認め、`Prepare` の後に `Extra`
と `Validator` を変えずに作った時刻 `now` のブロックを `Seal` したなら、そのブロックの親に `lastBlock` を
選び、`lastBlock` の `DposContext` を同じに開くどのノード `v` でも、署名者のキャッシュが健全なら
`verifySeal` は署名者の比較を通る：結果は、`ecrecover` がキャッシュに署名者を加えた後の
`updateConfirmedBlockHeader` の結果そのもの。 -/
theorem sealed_block_passes_verifySeal {d v : Dpos} {cr : Crypto} {E : Election} {chain : ChainReader}
    {header h1 G : Header} {lastBlock block b : Block} {now now' : Int64} {stopped : Bool}
    {parents : List Header} {fuel : Nat} (hp : d.prepare chain header = (h1, none))
    (hfin : block.header.extra = h1.extra ∧ block.header.validator = h1.validator)
    (hsign : ∀ m sig, d.signFn d.signer m = .ok sig →
      sig.length = extraSeal ∧ ∃ pub, cr.ecrecover m sig = .ok pub ∧ pubkeyToAddress cr pub = d.signer)
    (hcheck : d.checkValidator cr E lastBlock now G.blockInterval = none)
    (htime : bigInt64 block.header.time = now)
    (hs : d.seal cr chain block now' stopped = .ok (some b))
    (hparent : selectParent chain b.header parents = some lastBlock.header)
    (hdb : newDposContextFromProto cr.hashing (E.newDatabase v.db) lastBlock.header.dposContext =
      newDposContextFromProto cr.hashing (E.newDatabase d.db) lastBlock.header.dposContext)
    (hc : CacheSound cr v.signatures) :
    v.verifySeal cr E chain b.header G parents fuel =
      { v with signatures := (ecrecover cr b.header v.signatures).2 }.updateConfirmedBlockHeader cr chain fuel := by
  obtain ⟨-, ctx, hctx, hlook, -⟩ := checkValidator_eq_none.mp hcheck
  obtain ⟨-, -, -, -, hrec, hval⟩ := seal_recoverSigner hp hfin hsign hs
  obtain ⟨m, sig, -, -, hb⟩ := seal_eq hs
  have hec := ecrecover_of_recoverSigner hc hrec
  have hnum : b.header.number = block.header.number := by rw [hb]
  have ht : b.header.time = block.header.time := by rw [hb]
  unfold Dpos.verifySeal
  rw [if_neg (hnum ▸ seal_number_ne_zero hs), hparent]
  simp only [hdb, hctx, ht, htime, hlook, verifyBlockSigner_eq_of_ecrecover hec hval]

theorem sealed_block_passes_verifySeal_sample :
    signerDpos.verifySeal signerCrypto sampleElection (sampleChain [sampleGenesis] sampleGenesis)
        signerPrepared sampleGenesis [] 1 =
      { signerDpos with signatures := (ecrecover signerCrypto signerPrepared signerDpos.signatures).2
        }.updateConfirmedBlockHeader signerCrypto (sampleChain [sampleGenesis] sampleGenesis) 1 :=
  @sealed_block_passes_verifySeal signerDpos signerDpos signerCrypto sampleElection
    (sampleChain [sampleGenesis] sampleGenesis) (sampleChild sampleGenesis 1) signerPrepared sampleGenesis
    ⟨sampleGenesis⟩ ⟨signerPrepared⟩ ⟨signerPrepared⟩ (Int64.ofInt 1) (Int64.ofInt 1) false [] 1 rfl
    ⟨rfl, rfl⟩ (fun _ _ h => by cases h; exact ⟨rfl, _, rfl, rfl⟩) rfl rfl rfl rfl rfl
    (fun _ _ h => Option.noConfusion h)

/-! ## 呼び出しの列の不変条件 -/

/-- 署名者のキャッシュが健全で、届くヘッダのどれについても同じハッシュのヘッダの署名者が同じなら、
`verifySeal` をどう並べて呼んでも（頭がどの枝に移っても、呼び出しが誤りを返しても）、キャッシュは健全な
ままで、自分の署名者と署名の仕組みは変わらず、確定したヘッダは一度決まれば消えず、`Uint64()` で読んだ
その番号は減らない。 -/
theorem verifySealRun_invariant (d : Dpos) (cr : Crypto) (E : Election) (G : Header) (fuel : Nat)
    (calls : List (ChainReader × Header × List Header)) (hc : CacheSound cr d.signatures)
    (hcol : ∀ x ∈ calls, ∀ h', cr.headerHash h' = cr.headerHash x.2.1 → recoverSigner cr h' = recoverSigner cr x.2.1) :
    CacheSound cr (d.verifySealRun cr E G fuel calls).signatures ∧ d.Advances (d.verifySealRun cr E G fuel calls) := by
  induction calls generalizing d with
  | nil => exact ⟨hc, .refl d⟩
  | cons x calls ih =>
    obtain ⟨chain, header, parents⟩ := x
    rw [Dpos.verifySealRun]
    cases hv : d.verifySeal cr E chain header G parents fuel with
    | none => exact ⟨hc, .refl d⟩
    | some p =>
      obtain ⟨d', r⟩ := p
      obtain ⟨hc', hA⟩ := verifySeal_step hc (hcol _ (List.mem_cons_self _ _)) hv
      obtain ⟨hc'', hA'⟩ := ih d' hc' fun y hy => hcol y (List.mem_cons_of_mem _ hy)
      exact ⟨hc'', hA.trans hA'⟩

theorem verifySealRun_invariant_length :
    CacheSound lengthCrypto (sampleDpos.verifySealRun lengthCrypto sampleElection sampleGenesis 2
        [(sampleChain [sampleGenesis] sampleGenesis, wrappedHeader, []),
          (sampleChain [sampleGenesis] sampleGenesis, sampleGenesis, [])]).signatures ∧
      sampleDpos.Advances (sampleDpos.verifySealRun lengthCrypto sampleElection sampleGenesis 2
        [(sampleChain [sampleGenesis] sampleGenesis, wrappedHeader, []),
          (sampleChain [sampleGenesis] sampleGenesis, sampleGenesis, [])]) :=
  verifySealRun_invariant _ _ _ _ _ _ (fun _ _ h => Option.noConfusion h)
    fun _ _ _ he => recoverSigner_lengthCrypto_congr he

end HappyDpos
