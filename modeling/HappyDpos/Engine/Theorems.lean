import HappyDpos.Engine.Lemmas.Slot
import HappyDpos.Engine.Lemmas.MintCnt
import HappyDpos.Engine.Lemmas.Verify
import HappyDpos.Engine.Lemmas.Seal
import HappyDpos.Context.Theorems

/-!
# エンジンの定理

作ったブロックの数の表、`Prepare` と `Seal` が作った署名を `ecrecover` が読み戻すこと、ヘッダの検証が
`Uint64()` の読みで整数の値を取り違えること、一括の検証が通った列のつながり、時刻の枠の計算。

証明に使う補題は `Lemmas/` に置く。数の表は `Lemmas/MintCnt.lean` の `mintRun_counts`、署名は
`Lemmas/Seal.lean`、検証は `Lemmas/Verify.lean` の `verifyHeader_eq_none`、時刻の枠は
`Lemmas/Slot.lean` の `prevSlot_eq` と `nextSlot_eq` から導く。
-/

namespace HappyDpos

/-! ## 例に使う部品

Keccak-256 は 0 の列、trie の根は 1 の列、ヘッダのハッシュは番号と `Coinbase` を並べたもの、署名と公開鍵はいつも同じ
65 バイト。鎖は手元のヘッダの列で、ハッシュと番号で引く。 -/

/-- 例に使う暗号の部品。 -/
def sampleCrypto : Crypto where
  hashing := ⟨fun _ => List.replicate 32 0, fun _ => List.replicate 32 1,
      fun _ => (by decide : List.replicate 32 (1 : UInt8) ≠ zeroHash)⟩
  headerHash h := putUint64 (bigUint64 h.number) ++ h.coinbase.bytes ++ List.replicate 4 0
  ecrecover _ _ := .ok (List.replicate 65 0)
  keccak256_length _ := rfl
  headerHash_length h := by simp [h.coinbase.length_eq]
  ecrecover_length _ _ _ h := by cases h; rfl

/-- 例に使うヘッダ：番号、親のハッシュ、`Coinbase` のほかは空か 0 で、難しさは 1。 -/
def sampleHeader (number : Int) (parentHash : Bytes) (coinbase : Address) : Header where
  parentHash := parentHash
  uncleHash := []
  validator := Address.zero
  coinbase := coinbase
  root := []
  txHash := []
  receiptHash := []
  bloom := []
  difficulty := 1
  number := number
  gasLimit := 0
  gasUsed := 0
  time := 0
  extra := []
  mixDigest := []
  nonce := []
  dposContext := ⟨[], [], [], [], []⟩
  maxValidatorSize := 1
  blockInterval := 1

/-- 手元のヘッダの列を、`sampleCrypto` のハッシュと番号で引く鎖。 -/
def sampleChain (headers : List Header) (head : Header) : ChainReader where
  currentHeader := head
  getHeader hash _ := headers.find? fun h => sampleCrypto.headerHash h = hash
  getHeaderByNumber n := headers.find? fun h => bigUint64 h.number = n
  getHeaderByHash hash := headers.find? fun h => sampleCrypto.headerHash h = hash
  verifyForkHashes _ := none

/-- 例に使うエンジン：記憶域は空で、署名はいつも同じ 65 バイト。 -/
def sampleDpos : Dpos where
  db := ⟨fun _ => none, none⟩
  signer := Address.zero
  signFn _ _ := .ok (List.replicate 65 0)
  signatures _ := none
  confirmedBlockHeader := none

/-- 例の創世ブロック。 -/
def sampleGenesis : Header := sampleHeader 0 [] Address.zero

/-- 親 `parent` の上に、検証を通るように作ったヘッダ。 -/
def sampleChild (parent : Header) (time : Int) : Header :=
  { sampleHeader (parent.number + 1) (sampleCrypto.headerHash parent) Address.zero with
    time, extra := List.replicate 97 0, mixDigest := zeroHash, uncleHash := uncleHash sampleCrypto }

/-- 難しさが `2^64 + 1` のヘッダ。ほかの検査はすべて通る。 -/
def wrappedHeader : Header := { sampleChild sampleGenesis 1 with difficulty := 2^64 + 1 }

/-- 番号が `2^64 + 1` の、創世ブロックの子。 -/
def wrappedNumberHeader : Header := { sampleChild sampleGenesis 1 with number := 2^64 + 1 }

/-- 時刻が `2^64 - 1` の親。 -/
def wrappedTimeParent : Header := { sampleGenesis with time := 2^64 - 1 }

/-- `wrappedTimeParent` の子で、時刻は 1。 -/
def wrappedTimeHeader : Header := sampleChild wrappedTimeParent 1

/-! ## 作ったブロックの数 -/

/-- mintCnt trie が空の状態から、時刻が減らないブロックの列に沿って `updateMintCnt` を順に呼ぶと、どの
呼び出しも panic せず、mintCnt trie は周期 `e` と検証者 `v` の組ごとに、その周期にその検証者が作った
ブロックの数 `N(e, v)` を、それが正のときだけ 8 バイトのビッグエンディアンで持ち、それ以外のキーを持たない。
ほかの trie は変わらない。 -/
theorem mintRun_counts_exact (d : DposContext) (hd : d.mintCntTrie = Trie.empty) (t0 : Int64)
    (bs : List (Int64 × Address)) (hs : List.Chain (· ≤ ·) t0.val (bs.map fun b => b.1.val)) :
    ∃ d', mintRun t0 bs d = .ok d' ∧ d' = { d with mintCntTrie := d'.mintCntTrie } ∧
      (∀ e v, d'.mintCntTrie.get (mintCntKey e v) =
        if 0 < mintCount bs e.val v then some (putUint64 (UInt64.ofNat (mintCount bs e.val v))) else none) ∧
      ∀ k w, d'.mintCntTrie.get k = some w → ∃ e v, k = mintCntKey e v := by
  obtain ⟨d', hrun, hframe, hcount⟩ :=
    mintRun_counts t0 bs d [] (hd ▸ MintCounts.empty) (fun _ hb => nomatch hb) hs
  exact ⟨d', hrun, hframe, hcount.count, hcount.key⟩

/-- 時刻 1、2、86400、86401 のブロックの列：周期 0 に二人が一つずつ、周期 1 に空のアドレスが二つ作る。 -/
def sampleBlocks : List (Int64 × Address) :=
  [(Int64.ofInt 1, Address.zero), (Int64.ofInt 2, otherAddress), (Int64.ofInt 86400, Address.zero),
    (Int64.ofInt 86401, Address.zero)]

theorem mintRun_counts_exact_epochs :
    let d := newDposContext fun _ => none
    List.Chain (· ≤ ·) (Int64.ofInt 0).val (sampleBlocks.map fun b => b.1.val) ∧
    ∃ d', mintRun (Int64.ofInt 0) sampleBlocks d = .ok d' ∧ d' = { d with mintCntTrie := d'.mintCntTrie } ∧
      (∀ e v, d'.mintCntTrie.get (mintCntKey e v) =
        if 0 < mintCount sampleBlocks e.val v then some (putUint64 (UInt64.ofNat (mintCount sampleBlocks e.val v)))
        else none) ∧
      ∀ k w, d'.mintCntTrie.get k = some w → ∃ e v, k = mintCntKey e v :=
  have hs : List.Chain (· ≤ ·) (Int64.ofInt 0).val (sampleBlocks.map fun b => b.1.val) :=
    .cons (by decide) (.cons (by decide) (.cons (by decide) (.cons (by decide) .nil)))
  ⟨hs, mintRun_counts_exact _ rfl _ _ hs⟩

/-- 比較のための定義（ソースにはない）：`updateMintCnt` から反復子の検査 `iter.Next()` を除き、周期が親と
同じなら前の数をキーで直接引く。 -/
def updateMintCntByGet (parentBlockTime currentBlockTime : Int64) (validator : Address) (d : DposContext) :
    Except DposError DposContext := do
  let currentEpoch := parentBlockTime.quot epochInterval
  let currentEpochBytes := putUint64 currentEpoch.toUInt64
  let newEpoch := currentBlockTime.quot epochInterval
  let cnt ← if currentEpoch = newEpoch then
      match d.mintCntTrie.get (currentEpochBytes ++ validator.bytes) with
      | some cntBytes =>
        match uint64BE cntBytes with
        | some v => pure (Int64.ofUInt64 v + Int64.ofInt 1)
        | none => throw (.panic "index out of range")
      | none => pure (Int64.ofInt 1)
    else pure (Int64.ofInt 1)
  let newCntBytes := putUint64 cnt.toUInt64
  let newEpochBytes := putUint64 newEpoch.toUInt64
  pure { d with mintCntTrie := d.mintCntTrie.update (newEpochBytes ++ validator.bytes) newCntBytes }

/-- `updateMintCnt` の反復子の検査は結果を変えない：どの mintCnt trie でも（数の表を持たなくても）、
`NodeIterator(currentEpochBytes)` に次の要素がなければ `currentEpochBytes‖validator` のキーにも値はなく、
どちらの道でも数は 1 になる。 -/
theorem updateMintCnt_eq_byGet (parentBlockTime currentBlockTime : Int64) (validator : Address)
    (d : DposContext) :
    updateMintCnt parentBlockTime currentBlockTime validator d =
      updateMintCntByGet parentBlockTime currentBlockTime validator d := by
  unfold updateMintCnt updateMintCntByGet
  by_cases he : parentBlockTime.quot epochInterval = currentBlockTime.quot epochInterval
  · have he' := eq_true he
    -- 引いた値で二つの `match` をどちらも簡約する
    cases hg : d.mintCntTrie.get (putUint64 (parentBlockTime.quot epochInterval).toUInt64 ++ validator.bytes) with
    | none => simp only [he', hg, true_and, ite_self]
    | some b =>
      cases hv : uint64BE b <;> simp only [he', hg, hv, Trie.hasKeyFrom_of_get hg, and_self, ↓reduceIte]
  · simp only [he, false_and, ↓reduceIte]

/-! ## 署名を作る側と確かめる側 -/

/-- 署名の仕組みが正しく（自分の鍵で作った 65 バイトの署名から自分のアドレスが復元され）、キャッシュには
`ecrecover` が作った値しかないとする。`Prepare` が通ったヘッダの `Extra` と `Validator` を変えずに
ほかの欄を変えたブロックについて、`Seal` はどの時刻でも `sigHash` の範囲外の切り出しで panic せず、
ブロックを返したなら、その `sigHash` は署名させたハッシュと同じで、`ecrecover` は自分のアドレスを返し、
`verifyBlockSigner` は誤りを返さない。`ecrecover` はどのヘッダでもその panic を起こさない。 -/
theorem seal_verifies {d : Dpos} {cr : Crypto} {chain : ChainReader} {header h1 : Header} {block : Block}
    {cache : SigCache} (hp : d.prepare chain header = (h1, none))
    (hfin : block.header.extra = h1.extra ∧ block.header.validator = h1.validator)
    (hsign : ∀ m sig, d.signFn d.signer m = .ok sig →
      sig.length = extraSeal ∧ ∃ pub, cr.ecrecover m sig = .ok pub ∧ pubkeyToAddress cr pub = d.signer)
    (hc : CacheSound cr cache) :
    (∀ now stopped, d.seal cr chain block now stopped ≠ .error (.panic "slice bounds out of range")) ∧
    (∀ h c, (ecrecover cr h c).1 ≠ .error (.panic "slice bounds out of range")) ∧
    ∀ now stopped b, d.seal cr chain block now stopped = .ok (some b) →
      ∃ m, sigHash cr.hashing block.header = some m ∧ (∃ sig, d.signFn d.signer m = .ok sig) ∧
        sigHash cr.hashing b.header = some m ∧ (ecrecover cr b.header cache).1 = .ok d.signer ∧
        (verifyBlockSigner cr cache d.signer b.header).1 = none := by
  have hext : extraSeal ≤ block.header.extra.length := by
    rw [hfin.1, (prepare_spec hp).1]; exact Nat.le_add_left _ _
  refine ⟨fun _ _ => seal_ne_slice_panic hext, fun _ _ => ecrecover_ne_panic, fun now stopped b hs => ?_⟩
  obtain ⟨m, hm, hsig, hm', hrec, hval⟩ := seal_recoverSigner hp hfin hsign hs
  have hec := ecrecover_of_recoverSigner hc hrec
  exact ⟨m, hm, hsig, hm', hec, verifyBlockSigner_of_ecrecover hec hval⟩

/-- 例のエンジンが `Prepare` したヘッダ。 -/
def samplePrepared : Header :=
  (sampleDpos.prepare (sampleChain [sampleGenesis] sampleGenesis)
    (sampleHeader 1 (sampleCrypto.headerHash sampleGenesis) Address.zero)).1

theorem seal_verifies_sample :
    sampleDpos.prepare (sampleChain [sampleGenesis] sampleGenesis)
        (sampleHeader 1 (sampleCrypto.headerHash sampleGenesis) Address.zero) = (samplePrepared, none) ∧
    sampleDpos.seal sampleCrypto (sampleChain [sampleGenesis] sampleGenesis) ⟨samplePrepared⟩ (Int64.ofInt 1) false ≠
      .error (.panic "slice bounds out of range") :=
  ⟨rfl, (@seal_verifies sampleDpos sampleCrypto (sampleChain [sampleGenesis] sampleGenesis)
    (sampleHeader 1 (sampleCrypto.headerHash sampleGenesis) Address.zero) samplePrepared ⟨samplePrepared⟩
    (fun _ => none) rfl ⟨rfl, rfl⟩ (fun _ _ h => by cases h; exact ⟨rfl, _, rfl, rfl⟩)
    (fun _ _ h => Option.noConfusion h)).1 _ _⟩

/-- ヘッダのハッシュが `Extra` の長さが 65 バイトに満たないかどうかだけを表す暗号の部品。署名者の復元も
それだけで決まるので、キャッシュの健全さを保つ。 -/
def lengthCrypto : Crypto :=
  { sampleCrypto with
    headerHash := fun h => if h.extra.length < extraSeal then List.replicate 32 0 else List.replicate 32 1
    headerHash_length := fun h => by dsimp only; split_ifs <;> rfl }

theorem recoverSigner_lengthCrypto (h : Header) :
    recoverSigner lengthCrypto h = if h.extra.length < extraSeal then .error .missingSignature
      else .ok (pubkeyToAddress lengthCrypto (List.replicate 65 0)) := by
  unfold recoverSigner sigHash
  split_ifs <;> rfl

theorem recoverSigner_lengthCrypto_congr {h h' : Header} (he : lengthCrypto.headerHash h' = lengthCrypto.headerHash h) :
    recoverSigner lengthCrypto h' = recoverSigner lengthCrypto h := by
  rw [recoverSigner_lengthCrypto, recoverSigner_lengthCrypto]
  simp only [lengthCrypto] at he
  split_ifs at he ⊢ <;> first | rfl | exact absurd he (by decide)

/-- 同じハッシュのヘッダの署名者が同じである限り、`ecrecover` をどう並べて呼んでも署名者のキャッシュは
健全に保たれる：キャッシュにある値は、そのハッシュのヘッダの署名から復元される値で、キャッシュを引いた
`ecrecover` の答えはキャッシュを引かずに復元した答えと同じ。 -/
theorem ecrecover_cache_sound (cr : Crypto) (cache : SigCache) (hc : CacheSound cr cache)
    (headers : List Header)
    (hcol : ∀ h ∈ headers, ∀ h', cr.headerHash h' = cr.headerHash h → recoverSigner cr h' = recoverSigner cr h) :
    CacheSound cr (headers.foldl (fun c h => (ecrecover cr h c).2) cache) ∧
    ∀ h s, recoverSigner cr h = .ok s →
      (ecrecover cr h (headers.foldl (fun c h => (ecrecover cr h c).2) cache)).1 = .ok s := by
  induction headers generalizing cache with
  | nil => exact ⟨hc, fun _ _ => ecrecover_of_recoverSigner hc⟩
  | cons h hs ih =>
    exact ih _ (hc.ecrecover h (hcol h (List.mem_cons_self _ _)))
      (fun x hx => hcol x (List.mem_cons_of_mem _ hx))

theorem ecrecover_cache_sound_length :
    CacheSound lengthCrypto ([sampleGenesis, wrappedHeader].foldl (fun c h => (ecrecover lengthCrypto h c).2)
      fun _ => none) ∧
    ∀ h s, recoverSigner lengthCrypto h = .ok s →
      (ecrecover lengthCrypto h ([sampleGenesis, wrappedHeader].foldl
        (fun c h => (ecrecover lengthCrypto h c).2) fun _ => none)).1 = .ok s :=
  ecrecover_cache_sound lengthCrypto _ (fun _ _ h => Option.noConfusion h) _ fun _ _ _ he =>
    recoverSigner_lengthCrypto_congr he

/-! ## ヘッダの検証 -/

/-- `Uint64()` で読む三つの検査は、整数として違う値を通す。難しさ `2^64 + 1` は 1 と読まれ、番号 `2^64 + 1` は
番号 0 の親の次と読まれ、親の時刻 `2^64 - 1` と間隔 1 の `uint64` の和は 0 に折り返して時刻 1 より小さい。
どのヘッダもほかの検査をすべて通り、`verifyHeader` は `nil` を返す。 -/
theorem verifyHeader_accepts_wrapped_fields :
    (selectParent (sampleChain [] sampleGenesis) wrappedHeader [sampleGenesis] = some sampleGenesis ∧
      verifyHeader sampleCrypto (sampleChain [] sampleGenesis) wrappedHeader [sampleGenesis] 1 (Int64.ofInt 1) =
        none ∧ wrappedHeader.difficulty ≠ 1) ∧
    (selectParent (sampleChain [] sampleGenesis) wrappedNumberHeader [sampleGenesis] = some sampleGenesis ∧
      verifyHeader sampleCrypto (sampleChain [] sampleGenesis) wrappedNumberHeader [sampleGenesis] 1
        (Int64.ofInt 1) = none ∧ wrappedNumberHeader.number ≠ sampleGenesis.number + 1) ∧
    (selectParent (sampleChain [] sampleGenesis) wrappedTimeHeader [wrappedTimeParent] = some wrappedTimeParent ∧
      verifyHeader sampleCrypto (sampleChain [] sampleGenesis) wrappedTimeHeader [wrappedTimeParent] 1
        (Int64.ofInt 1) = none ∧ wrappedTimeHeader.time < wrappedTimeParent.time + 1) := by
  decide

/-- 一括の検証 `VerifyHeaders` がどのヘッダにも誤りを返さなければ、隣り合う二つのヘッダは親子として
つながる：後のヘッダの `ParentHash` は前のヘッダのハッシュ、`Uint64()` で読んだ番号は一つ大きく、時刻は
前の時刻に創世ブロックの `BlockInterval` を足した `uint64` の和以上。 -/
theorem verifyHeaders_links {cr : Crypto} {chain : ChainReader} {headers : List Header} {now : Nat → Int64}
    {rs : List (Option DposError)} {G : Header} (hG : chain.getHeaderByNumber 0 = some G)
    (hv : verifyHeaders cr chain headers now = .ok rs) (hall : ∀ r ∈ rs, r = none) :
    ∀ pre a b post, headers = pre ++ a :: b :: post →
      cr.headerHash a = b.parentHash ∧ bigUint64 a.number = bigUint64 b.number - 1 ∧
      bigUint64 a.time + G.blockInterval ≤ bigUint64 b.time := by
  intro pre a b post he
  have hsplit : headers = (pre ++ [a]) ++ b :: post := by rw [he]; simp
  have hmem : (pre.length + 1, b) ∈ headers.enum := by
    rw [List.mem_enum_iff_getElem?, hsplit, List.getElem?_append_right (by simp)]
    simp
  rw [verifyHeaders, hG] at hv
  cases hv
  have hnone := hall _ (List.mem_map.mpr ⟨_, hmem, rfl⟩)
  obtain ⟨-, -, -, -, -, -, p, hp, hn, hh, ht⟩ := verifyHeader_eq_none hnone
  have htake : headers.take (pre.length + 1) = pre ++ [a] := by
    rw [hsplit]; exact List.take_left' (by simp)
  simp only [selectParent, htake, List.getLast?_append, List.getLast?_singleton, Option.or_some] at hp
  cases hp
  exact ⟨hh, hn, ht⟩

theorem verifyHeaders_links_sample :
    sampleCrypto.headerHash (sampleChild sampleGenesis 1) = (sampleChild (sampleChild sampleGenesis 1) 2).parentHash ∧
      bigUint64 (sampleChild sampleGenesis 1).number =
        bigUint64 (sampleChild (sampleChild sampleGenesis 1) 2).number - 1 ∧
      bigUint64 (sampleChild sampleGenesis 1).time + sampleGenesis.blockInterval ≤
        bigUint64 (sampleChild (sampleChild sampleGenesis 1) 2).time :=
  @verifyHeaders_links sampleCrypto (sampleChain [sampleGenesis] sampleGenesis)
    [sampleChild sampleGenesis 1, sampleChild (sampleChild sampleGenesis 1) 2] (fun _ => Int64.ofInt 2)
    [none, none] sampleGenesis rfl rfl (by decide) [] _ _ [] rfl

/-! ## 時刻の枠 -/

/-- `1 ≤ I`、`1 ≤ now`、`now + I ≤ 2^63` なら、`PrevSlot` と `NextSlot` は `I` の倍数で、
`PrevSlot < now ≤ NextSlot`、差はちょうど `I`。よって Go の切り捨ての除算にもかかわらず
`I * ⌊(now - 1) / I⌋` と `I * ⌈now / I⌉` に等しい。`NextSlot(PrevSlot + 1) = NextSlot(now)` も成り立つ。 -/
theorem slots_bracket_now (now : Int64) (I : UInt64) (hI : 1 ≤ I.toNat) (hn : 1 ≤ now.val)
    (hr : now.val + I.toNat ≤ 2^63) :
    ∃ p n, prevSlot now I = some p ∧ nextSlot now I = some n ∧
      (I.toNat : Int) ∣ p.val ∧ (I.toNat : Int) ∣ n.val ∧ p.val < now.val ∧ now.val ≤ n.val ∧
      n.val - p.val = I.toNat ∧
      p.val = I.toNat * ⌊((now.val - 1 : Int) : ℚ) / I.toNat⌋ ∧ n.val = I.toNat * ⌈(now.val : ℚ) / I.toNat⌉ ∧
      nextSlot (p + Int64.ofInt 1) I = some n := by
  obtain ⟨p, hp, hpv⟩ := prevSlot_eq hI hn hr
  obtain ⟨n, hn', hnv⟩ := nextSlot_eq hI hn hr
  have e := Int.ediv_add_emod (now.val - 1) I.toNat
  have h1 := Int.emod_lt_of_pos (now.val - 1) (by omega : (0 : Int) < I.toNat)
  have h2 := Int.emod_nonneg (now.val - 1) (by omega : (I.toNat : Int) ≠ 0)
  have hp0 : 0 ≤ p.val := by
    rw [hpv]; exact Int.mul_nonneg (by omega) (Int.ediv_nonneg (by omega) (by omega))
  have hp1 : (p + Int64.ofInt 1).val = p.val + 1 :=
    Int64.add_val_of_range (by rw [Int64.one_val]; linarith [Int64.ge p]) (by rw [Int64.one_val]; linarith)
  obtain ⟨n', hn'', hn'v⟩ :=
    @nextSlot_eq (p + Int64.ofInt 1) I hI (by rw [hp1]; linarith [Int64.ge p]) (by rw [hp1]; linarith)
  refine ⟨p, n, hp, hn', ⟨_, hpv⟩, ⟨_, hnv⟩, by linarith, by linarith, by rw [hpv, hnv]; ring,
    by rw [hpv, Rat.floor_intCast_div_natCast], by rw [hnv, ceil_div_eq _ (by omega)], ?_⟩
  rw [hn'']
  congr 1
  apply Int64.ext
  rw [hn'v, hnv, hp1, hpv, add_sub_cancel_right, Int.mul_ediv_cancel_left _ (by omega)]

theorem slots_bracket_now_ten :
    ∃ p n, prevSlot (Int64.ofInt 25) 10 = some p ∧ nextSlot (Int64.ofInt 25) 10 = some n ∧
      ((10 : UInt64).toNat : Int) ∣ p.val ∧ ((10 : UInt64).toNat : Int) ∣ n.val ∧
      p.val < (Int64.ofInt 25).val ∧ (Int64.ofInt 25).val ≤ n.val ∧ n.val - p.val = (10 : UInt64).toNat ∧
      p.val = (10 : UInt64).toNat * ⌊(((Int64.ofInt 25).val - 1 : Int) : ℚ) / (10 : UInt64).toNat⌋ ∧
      n.val = (10 : UInt64).toNat * ⌈((Int64.ofInt 25).val : ℚ) / (10 : UInt64).toNat⌉ ∧
      nextSlot (p + Int64.ofInt 1) 10 = some n :=
  slots_bracket_now _ _ (by decide) (by decide) (by decide)

/-! ## 作ってよい時刻 -/

/-- `1 ≤ I`、`1 ≤ now`、`now + I ≤ 2^63` とする。次の枠を `N = I * ⌈now / I⌉`（床関数の除算で
`I * ((now - 1) / I + 1)`）、前の枠を `N - I`、前のブロックの時刻を `L = Time.Int64()` とすると、
`checkDeadline` は、`N ≤ L` なら `ErrMintFutureBlock`、そうでなく `L` が前の枠にちょうど等しいか、次の枠まで
1 秒以内なら `nil`、それ以外は `ErrWaitForPrevBlock` を返す。途中の `int64` の計算は折り返さない。 -/
theorem checkDeadline_eq (lastBlock : Block) (now : Int64) (I : UInt64) (hI : 1 ≤ I.toNat) (hn : 1 ≤ now.val)
    (hr : now.val + I.toNat ≤ 2^63) :
    checkDeadline lastBlock now I =
      if I.toNat * ((now.val - 1) / I.toNat + 1) ≤ (bigInt64 lastBlock.header.time).val then
        some .mintFutureBlock
      else if (bigInt64 lastBlock.header.time).val = I.toNat * ((now.val - 1) / I.toNat) ∨
          I.toNat * ((now.val - 1) / I.toNat + 1) - now.val ≤ 1 then none
      else some .waitForPrevBlock := by
  obtain ⟨p, hp, hpv⟩ := prevSlot_eq hI hn hr
  obtain ⟨n, hn', hnv⟩ := nextSlot_eq hI hn hr
  have e := Int.ediv_add_emod (now.val - 1) I.toNat
  have h1 := Int.emod_lt_of_pos (now.val - 1) (by omega : (0 : Int) < I.toNat)
  have h2 := Int.emod_nonneg (now.val - 1) (by omega : (I.toNat : Int) ≠ 0)
  have hsub : (n - now).val = n.val - now.val := by
    rw [Int64.sub_val_of_range] <;> rw [hnv, Int.mul_add] <;> omega
  have hprev : bigInt64 lastBlock.header.time = p ↔
      (bigInt64 lastBlock.header.time).val = I.toNat * ((now.val - 1) / I.toNat) :=
    ⟨fun h => h ▸ hpv, fun h => Int64.ext (h.trans hpv.symm)⟩
  simp only [checkDeadline, hp, hn', ge_iff_le, hnv, hprev, hsub]

theorem checkDeadline_eq_ten :
    1 ≤ (10 : UInt64).toNat ∧ 1 ≤ (Int64.ofInt 25).val ∧ (Int64.ofInt 25).val + (10 : UInt64).toNat ≤ 2^63 ∧
    checkDeadline ⟨sampleGenesis⟩ (Int64.ofInt 25) 10 =
      if (10 : UInt64).toNat * (((Int64.ofInt 25).val - 1) / (10 : UInt64).toNat + 1) ≤
          (bigInt64 sampleGenesis.time).val then some .mintFutureBlock
      else if (bigInt64 sampleGenesis.time).val = (10 : UInt64).toNat * (((Int64.ofInt 25).val - 1) /
            (10 : UInt64).toNat) ∨
          (10 : UInt64).toNat * (((Int64.ofInt 25).val - 1) / (10 : UInt64).toNat + 1) - (Int64.ofInt 25).val ≤ 1
        then none
      else some .waitForPrevBlock :=
  ⟨by decide, by decide, by decide, checkDeadline_eq _ _ _ (by decide) (by decide) (by decide)⟩

end HappyDpos
