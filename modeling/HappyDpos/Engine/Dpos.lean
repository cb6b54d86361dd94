import HappyDpos.Engine.Header

/-!
# エンジンの操作

`consensus/dpos/dpos.go` のヘッダの検証、`Prepare`、`Seal`、署名者の復元、時刻の枠、作ったブロックの数の
更新を書く。現在時刻 `time.Now().Unix()` は引数 `now` として受け取る。Go の panic（0 での除算、範囲外の
切り出し、`nil` の参照）は誤り `.panic` として返す。
-/

namespace HappyDpos

/-! ## 時刻の枠 -/

/-- `PrevSlot`：`int64((now-1)/int64(blockInterval)) * int64(blockInterval)`。 -/
def prevSlot (now : Int64) (blockInterval : UInt64) : Option Int64 :=
  let bi := Int64.ofUInt64 blockInterval
  ((now - Int64.ofInt 1).div bi).map (· * bi)

/-- `NextSlot`：`int64((now+int64(blockInterval)-1)/int64(blockInterval)) * int64(blockInterval)`。 -/
def nextSlot (now : Int64) (blockInterval : UInt64) : Option Int64 :=
  let bi := Int64.ofUInt64 blockInterval
  ((now + bi - Int64.ofInt 1).div bi).map (· * bi)

/-- `checkDeadline`：前のブロックが次の枠以後なら早すぎ、前の枠のものか締め切り間際なら作ってよい。 -/
def checkDeadline (lastBlock : Block) (now : Int64) (blockInterval : UInt64) : Option DposError :=
  match prevSlot now blockInterval, nextSlot now blockInterval with
  | some prevSlot, some nextSlot =>
    let lastTime := bigInt64 lastBlock.header.time
    if lastTime.val ≥ nextSlot.val then some .mintFutureBlock
    else if lastTime = prevSlot ∨ (nextSlot - now).val ≤ 1 then none
    else some .waitForPrevBlock
  | _, _ => some (.panic "integer divide by zero")

/-! ## ヘッダの検証 -/

/-- `verifyHeader` が選ぶ親：`parents` が空でなければその最後、空なら
`chain.GetHeader(header.ParentHash, number-1)`。 -/
def selectParent (chain : ChainReader) (header : Header) (parents : List Header) : Option Header :=
  match parents.getLast? with
  | some p => some p
  | none => chain.getHeader header.parentHash (bigUint64 header.number - 1)

/-- `verifyHeader`。 -/
def verifyHeader (cr : Crypto) (chain : ChainReader) (header : Header) (parents : List Header)
    (blockInterval : UInt64) (now : Int64) : Option DposError :=
  let number := bigUint64 header.number
  if header.time > now.val then some .futureBlock
  else if header.extra.length < extraVanity then some .missingVanity
  else if header.extra.length < extraVanity + extraSeal then some .missingSignature
  else if header.mixDigest ≠ zeroHash then some .invalidMixDigest
  else if bigUint64 header.difficulty ≠ 1 then some .invalidDifficulty
  else if header.uncleHash ≠ uncleHash cr then some .invalidUncleHash
  else match chain.verifyForkHashes header with
    | some err => some err
    | none =>
      match selectParent chain header parents with
      | none => some .unknownAncestor
      | some parent =>
        if bigUint64 parent.number ≠ number - 1 ∨ cr.headerHash parent ≠ header.parentHash then
          some .unknownAncestor
        else if bigUint64 parent.time + blockInterval > bigUint64 header.time then some .invalidTimestamp
        else none

/-- `VerifyHeaders`：`i` 番目のヘッダを、それより前のヘッダを親の候補として検証した結果を順に返す。
`now i` は `i` 番目の検証での現在時刻。創世ブロックがなければ panic する。 -/
def verifyHeaders (cr : Crypto) (chain : ChainReader) (headers : List Header) (now : Nat → Int64) :
    Except DposError (List (Option DposError)) :=
  match chain.getHeaderByNumber 0 with
  | none => .error (.panic "nil pointer dereference")
  | some genesis => .ok (headers.enum.map fun (i, header) =>
      verifyHeader cr chain header (headers.take i) genesis.blockInterval (now i))

/-! ## 署名者 -/

/-- 署名者のキャッシュ。 -/
abbrev SigCache := Bytes → Option Address

/-- `ecrecover` のキャッシュを引かない部分：`Extra` の末尾 65 バイトの署名と `sigHash` から公開鍵を
復元し、アドレスにする。 -/
def recoverSigner (cr : Crypto) (header : Header) : Except DposError Address :=
  if header.extra.length < extraSeal then .error .missingSignature
  else
    let signature := header.extra.drop (header.extra.length - extraSeal)
    match sigHash cr.hashing header with
    | none => .error (.panic "slice bounds out of range")
    | some m =>
      match cr.ecrecover m signature with
      | .error e => .error (.external e)
      | .ok pubkey => .ok (pubkeyToAddress cr pubkey)

/-- `ecrecover`：ヘッダの署名者。キャッシュになければ署名から復元し、キャッシュに加える。 -/
def ecrecover (cr : Crypto) (header : Header) (sigcache : SigCache) : Except DposError Address × SigCache :=
  let hash := cr.headerHash header
  match sigcache hash with
  | some address => (.ok address, sigcache)
  | none =>
    match recoverSigner cr header with
    | .ok signer => (.ok signer, fun h => if h = hash then some signer else sigcache h)
    | .error e => (.error e, sigcache)

/-- `verifyBlockSigner`：署名者が当番の検証者で、ヘッダの `Validator` と同じであること。 -/
def verifyBlockSigner (cr : Crypto) (sigcache : SigCache) (validator : Address) (header : Header) :
    Option DposError × SigCache :=
  match ecrecover cr header sigcache with
  | (.error e, c) => (some e, c)
  | (.ok signer, c) =>
    if signer ≠ validator then (some .invalidBlockValidator, c)
    else if signer ≠ header.validator then (some .mismatchSignerAndValidator, c)
    else (none, c)

/-! ## ブロックを作る -/

/-- `Prepare`：`Nonce` を空にし、`Extra` を 32 バイトの前置きと 65 バイトの空の署名にし、親があれば
難しさを 1 に、`Validator` を自分にする。Go はヘッダをその場で書き換えるので、親がなくても途中までの
書き換えは残る。 -/
def Dpos.prepare (d : Dpos) (chain : ChainReader) (header : Header) : Header × Option DposError :=
  let header := { header with nonce := List.replicate 8 0 }
  let number := bigUint64 header.number
  let extra : Bytes := if header.extra.length < extraVanity then
      header.extra ++ List.replicate (extraVanity - header.extra.length) 0
    else header.extra
  let header := { header with extra := extra.take extraVanity ++ List.replicate extraSeal 0 }
  match chain.getHeader header.parentHash (number - 1) with
  | none => (header, some .unknownAncestor)
  | some _ => ({ header with difficulty := 1, validator := d.signer }, none)

/-- `Seal`：次の枠まで待ち（待つ間に `stop` が閉じられれば `stopped`、ブロックなしで終わる）、`sigHash` に
署名させ、署名を `Extra` の末尾 65 バイトに写す。`block.Header().Time.SetInt64` は写しを書き換える
だけなので、ブロックにもヘッダにも残らない。 -/
def Dpos.seal (d : Dpos) (cr : Crypto) (chain : ChainReader) (block : Block) (now : Int64) (stopped : Bool) :
    Except DposError (Option Block) :=
  let header := block.header
  if bigUint64 header.number = 0 then .error .unknownBlock
  else match chain.getHeaderByNumber 0 with
    | none => .error (.panic "nil pointer dereference")
    | some genesis =>
      match nextSlot now genesis.blockInterval with
      | none => .error (.panic "integer divide by zero")
      | some next =>
        if (next - now).val > 0 ∧ stopped then .ok none
        else match sigHash cr.hashing header with
          | none => .error (.panic "slice bounds out of range")
          | some hash =>
            match d.signFn d.signer hash with
            | .error e => .error (.external e)
            | .ok sighash =>
              let n := header.extra.length - extraSeal
              let extra := header.extra.take n ++ goCopy (header.extra.drop n) sighash
              .ok (some (block.withSeal { header with extra }))

/-! ## 作ったブロックの数 -/

/-- `updateMintCnt`：周期が親と同じで、その周期のキーが trie にあれば（反復子の最初の `Next`）前の数に
1 を足し、そうでなければ 1 を書く。数が 8 バイトに満たなければ `binary.BigEndian.Uint64` が panic する。 -/
def updateMintCnt (parentBlockTime currentBlockTime : Int64) (validator : Address) (d : DposContext) :
    Except DposError DposContext := do
  let currentMintCntTrie := d.mintCntTrie
  let currentEpoch := parentBlockTime.quot epochInterval
  let currentEpochBytes := putUint64 currentEpoch.toUInt64
  let newEpoch := currentBlockTime.quot epochInterval
  let cnt ← if currentEpoch = newEpoch ∧ currentMintCntTrie.hasKeyFrom currentEpochBytes then
      match currentMintCntTrie.get (currentEpochBytes ++ validator.bytes) with
      | some cntBytes =>
        match uint64BE cntBytes with
        | some v => pure (Int64.ofUInt64 v + Int64.ofInt 1)
        | none => throw (.panic "index out of range")
      | none => pure (Int64.ofInt 1)
    else pure (Int64.ofInt 1)
  let newCntBytes := putUint64 cnt.toUInt64
  let newEpochBytes := putUint64 newEpoch.toUInt64
  pure { d with mintCntTrie := d.mintCntTrie.update (newEpochBytes ++ validator.bytes) newCntBytes }

end HappyDpos
