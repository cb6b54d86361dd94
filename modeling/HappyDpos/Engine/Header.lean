import HappyDpos.Context.Basic

/-!
# ヘッダと外の部品

`consensus/dpos/dpos.go` が読む `types.Header` の欄、ブロック、`consensus.ChainReader`、記憶域
（`ethdb.Database`）、暗号の部品、エンジンの状態 `Dpos` を書き、`sigHash` を定める。

`*big.Int` の欄は整数、`uint64` の欄は `UInt64` で表す。ヘッダのハッシュ、Keccak-256、公開鍵の復元は
外の部品で、出力の長さ（32 バイトと 65 バイト）だけを性質として持つ。
-/

namespace HappyDpos

/-- `extraVanity`：`Extra` の先頭の署名者用の部分。 -/
def extraVanity : Nat := 32

/-- `extraSeal`：`Extra` の末尾の署名。 -/
def extraSeal : Nat := 65

/-- `epochInterval`：周期の長さ（秒）。 -/
def epochInterval : Int64 := Int64.ofInt 86400

/-- `types.Header`。 -/
structure Header where
  parentHash : Bytes
  uncleHash : Bytes
  validator : Address
  coinbase : Address
  root : Bytes
  txHash : Bytes
  receiptHash : Bytes
  bloom : Bytes
  difficulty : Int
  number : Int
  gasLimit : UInt64
  gasUsed : UInt64
  time : Int
  extra : Bytes
  mixDigest : Bytes
  nonce : Bytes
  dposContext : DposContextProto
  maxValidatorSize : UInt64
  blockInterval : UInt64
deriving DecidableEq

/-- `types.Block`。エンジンが読むのはヘッダだけ。 -/
structure Block where
  header : Header

/-- `(*types.Block).WithSeal`：ヘッダを差し替えたブロック。 -/
def Block.withSeal (b : Block) (header : Header) : Block := { b with header }

/-- 外の部品：Keccak-256 と trie の根、ヘッダのハッシュ（`(*types.Header).Hash()`）、署名からの公開鍵の
復元（`crypto.Ecrecover`）。 -/
structure Crypto where
  hashing : Hashing
  headerHash : Header → Bytes
  ecrecover : Bytes → Bytes → Except String Bytes
  keccak256_length : ∀ b, (hashing.keccak256 b).length = 32
  headerHash_length : ∀ h, (headerHash h).length = 32
  ecrecover_length : ∀ m s p, ecrecover m s = .ok p → p.length = 65

/-- `consensus.ChainReader` のうちエンジンが使うもの。`verifyForkHashes` は
`misc.VerifyForkHashes(chain.Config(), header, false)` の結果。 -/
structure ChainReader where
  currentHeader : Header
  getHeader : Bytes → UInt64 → Option Header
  getHeaderByNumber : UInt64 → Option Header
  getHeaderByHash : Bytes → Option Header
  verifyForkHashes : Header → Option DposError

/-- `ethdb.Database`：キーから値へ。`putError` があれば書き込みはその誤りで失敗する。 -/
structure EthDb where
  data : Bytes → Option Bytes
  putError : Option String

namespace EthDb

def get (db : EthDb) (key : Bytes) : Except DposError Bytes :=
  match db.data key with
  | some v => .ok v
  | none => .error (.external "not found")

def put (db : EthDb) (key value : Bytes) : Except DposError EthDb :=
  match db.putError with
  | some e => .error (.external e)
  | none => .ok { db with data := fun k => if k = key then some value else db.data k }

end EthDb

/-- `Dpos`：エンジンの状態。`signatures` は最近の署名者のキャッシュ（`lru.ARCCache`）。 -/
structure Dpos where
  db : EthDb
  signer : Address
  signFn : Address → Bytes → Except String Bytes
  signatures : Bytes → Option Address
  confirmedBlockHeader : Option Header

/-- `uncleHash = types.CalcUncleHash(nil)`：空のリストの RLP のハッシュ。 -/
def uncleHash (cr : Crypto) : Bytes := cr.hashing.keccak256 (Rlp.encodeList [])

/-- `common.BytesToHash`：32 バイトより長ければ末尾の 32 バイト、短ければ前を 0 で埋める。 -/
def bytesToHash (b : Bytes) : Bytes :=
  if 32 < b.length then b.drop (b.length - 32) else List.replicate (32 - b.length) 0 ++ b

/-! ## sigHash -/

/-- `sigHash` で RLP にする欄。負の `*big.Int` は符号にできない（`none`）。 -/
def sigHashItems (H : Hashing) (header : Header) : Option (List Bytes) := do
  let difficulty ← Rlp.encodeBigInt header.difficulty
  let number ← Rlp.encodeBigInt header.number
  let time ← Rlp.encodeBigInt header.time
  pure [Rlp.encodeString header.parentHash, Rlp.encodeString header.uncleHash,
    Rlp.encodeString header.validator.bytes, Rlp.encodeString header.coinbase.bytes,
    Rlp.encodeString header.root, Rlp.encodeString header.txHash, Rlp.encodeString header.receiptHash,
    Rlp.encodeString header.bloom, difficulty, number, Rlp.encodeUint header.gasLimit.toNat,
    Rlp.encodeUint header.gasUsed.toNat, time,
    Rlp.encodeString (header.extra.take (header.extra.length - extraSeal)),
    Rlp.encodeString header.mixDigest, Rlp.encodeString header.nonce,
    Rlp.encodeString (header.dposContext.root H), Rlp.encodeUint header.maxValidatorSize.toNat]

/-- `sigHash`：末尾の署名 65 バイトを除いたヘッダの RLP のハッシュ。`Extra` が 65 バイトより短ければ
panic する（`none`）。`rlp.Encode` が誤りを返すと何も書かれず、空の入力のハッシュになる。 -/
def sigHash (H : Hashing) (header : Header) : Option Bytes :=
  if header.extra.length < extraSeal then none
  else some (H.keccak256 (((sigHashItems H header).map Rlp.encodeList).getD []))

/-- `copy(signer[:], crypto.Keccak256(pubkey[1:])[12:])`：公開鍵からアドレスへ。 -/
def pubkeyToAddress (cr : Crypto) (pubkey : Bytes) : Address :=
  ⟨(cr.hashing.keccak256 (pubkey.drop 1)).drop 12, by simp [cr.keccak256_length]⟩

end HappyDpos
