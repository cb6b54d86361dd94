import HappyDpos.Types.Error
import HappyDpos.Types.Trie

/-!
# `DposContext`

`core/types/dpos_context.go` の五つの trie と、それに対する操作を書く。

* `candidateTrie`：`addr → addr`、候補者の集合
* `delegateTrie`：`candidate‖delegator → delegator`、候補者ごとの投票者
* `voteTrie`：`delegator → candidate`、投票者の投票先
* `epochTrie`：キー `"validator"` に現在の検証者の列
* `mintCntTrie`：`epoch‖validator → count`、周期ごとに作ったブロックの数

trie の記憶域（`trie.Database`）は根のハッシュから trie の内容への写像として、ハッシュ関数は外の部品
（`Hashing`）として表す。Go の操作は `d` をその場で書き換えて `error` を返すので、ここでは書き換えた後の
`DposContext` と、`nil`（`none`）か誤りの組を返す。
-/

namespace HappyDpos

/-- trie の記憶域：根のハッシュから trie の内容へ。 -/
def TrieDatabase := Bytes → Option Trie

/-- `common.Hash{}`：32 バイトの 0。 -/
def zeroHash : Bytes := List.replicate 32 0

/-- 外の部品：Keccak-256 と、trie の根のハッシュ（`(*trie.Trie).Hash()`）。根のハッシュは Keccak-256 の
出力なので `common.Hash{}` にはならないとする。 -/
structure Hashing where
  keccak256 : Bytes → Bytes
  trieHash : Trie → Bytes
  trieHash_ne_zero : ∀ t, trieHash t ≠ zeroHash

/-- 五つの trie の根（`DposContextProto`）。 -/
structure DposContextProto where
  epochHash : Bytes
  delegateHash : Bytes
  candidateHash : Bytes
  voteHash : Bytes
  mintCntHash : Bytes
deriving DecidableEq

/-- `DposContext`。`Copy` で作ったものは `db` が `nil` になる。 -/
structure DposContext where
  epochTrie : Trie
  delegateTrie : Trie
  voteTrie : Trie
  candidateTrie : Trie
  mintCntTrie : Trie
  db : Option TrieDatabase

/-- `epochPrefix` などの、記憶域でのキーの前置き。 -/
def epochPrefix : Bytes := "epoch-".toUTF8.data.toList
def delegatePrefix : Bytes := "delegate-".toUTF8.data.toList
def votePrefix : Bytes := "vote-".toUTF8.data.toList
def candidatePrefix : Bytes := "candidate-".toUTF8.data.toList
def mintCntPrefix : Bytes := "mintCnt-".toUTF8.data.toList

section

variable (H : Hashing)

/-- 空の trie の根（`emptyRoot`）。 -/
def emptyRoot : Bytes := H.trieHash Trie.empty

/-- `trie.NewTrieWithPrefix(root, prefix, db)`：根が `common.Hash{}` か空の根なら空の trie、そうでなければ
記憶域から読む。前置きは記憶域の中で五つの trie の節を分けるだけで、根から内容への対応は変えない。 -/
def newTrieWithPrefix (root _prefix : Bytes) (db : TrieDatabase) : Except DposError Trie :=
  if root = zeroHash ∨ root = emptyRoot H then .ok Trie.empty
  else match db root with
    | some t => .ok t
    | none => .error (.missingNode root)

def newEpochTrie (root : Bytes) (db : TrieDatabase) := newTrieWithPrefix H root epochPrefix db
def newDelegateTrie (root : Bytes) (db : TrieDatabase) := newTrieWithPrefix H root delegatePrefix db
def newVoteTrie (root : Bytes) (db : TrieDatabase) := newTrieWithPrefix H root votePrefix db
def newCandidateTrie (root : Bytes) (db : TrieDatabase) := newTrieWithPrefix H root candidatePrefix db
def newMintCntTrie (root : Bytes) (db : TrieDatabase) := newTrieWithPrefix H root mintCntPrefix db

/-- `NewDposContextFromProto`：五つの根から trie を開く。 -/
def newDposContextFromProto (db : TrieDatabase) (ctxProto : DposContextProto) :
    Except DposError DposContext := do
  let epochTrie ← newEpochTrie H ctxProto.epochHash db
  let delegateTrie ← newDelegateTrie H ctxProto.delegateHash db
  let voteTrie ← newVoteTrie H ctxProto.voteHash db
  let candidateTrie ← newCandidateTrie H ctxProto.candidateHash db
  let mintCntTrie ← newMintCntTrie H ctxProto.mintCntHash db
  pure { epochTrie, delegateTrie, voteTrie, candidateTrie, mintCntTrie, db := some db }

/-- `(*DposContext).Root()`：五つの根の RLP を epoch、delegate、candidate、vote、mintCnt の順に
ハッシュに流す。 -/
def DposContext.root (d : DposContext) : Bytes :=
  H.keccak256 (Rlp.encodeString (H.trieHash d.epochTrie) ++ Rlp.encodeString (H.trieHash d.delegateTrie)
    ++ Rlp.encodeString (H.trieHash d.candidateTrie) ++ Rlp.encodeString (H.trieHash d.voteTrie)
    ++ Rlp.encodeString (H.trieHash d.mintCntTrie))

/-- `(*DposContextProto).Root()`。 -/
def DposContextProto.root (p : DposContextProto) : Bytes :=
  H.keccak256 (Rlp.encodeString p.epochHash ++ Rlp.encodeString p.delegateHash
    ++ Rlp.encodeString p.candidateHash ++ Rlp.encodeString p.voteHash ++ Rlp.encodeString p.mintCntHash)

/-- `ToProto`。 -/
def DposContext.toProto (d : DposContext) : DposContextProto where
  epochHash := H.trieHash d.epochTrie
  delegateHash := H.trieHash d.delegateTrie
  candidateHash := H.trieHash d.candidateTrie
  voteHash := H.trieHash d.voteTrie
  mintCntHash := H.trieHash d.mintCntTrie

/-- `(*trie.Trie).Commit(nil)`：根を計算し、空でなければ内容を記憶域に書く。 -/
def commitTrie (db : TrieDatabase) (t : Trie) : Bytes × TrieDatabase :=
  let root := H.trieHash t
  (root, if t.entries = [] then db else fun h => if h = root then some t else db h)

end

/-- `NewDposContext`：五つの trie を `common.Hash{}` の根、つまり空で開く。 -/
def newDposContext (db : TrieDatabase) : DposContext :=
  ⟨Trie.empty, Trie.empty, Trie.empty, Trie.empty, Trie.empty, some db⟩

namespace DposContext

/-- `Copy`：五つの trie を複製する。`db` は写さない。 -/
def copy (d : DposContext) : DposContext :=
  ⟨d.epochTrie, d.delegateTrie, d.voteTrie, d.candidateTrie, d.mintCntTrie, none⟩

/-- `Snapshot`。 -/
def snapshot (d : DposContext) : DposContext := d.copy

/-- `RevertToSnapShot`：五つの trie を写し戻す。`db` はそのまま。 -/
def revertToSnapShot (d snapshot : DposContext) : DposContext :=
  { d with epochTrie := snapshot.epochTrie, delegateTrie := snapshot.delegateTrie,
           candidateTrie := snapshot.candidateTrie, voteTrie := snapshot.voteTrie,
           mintCntTrie := snapshot.mintCntTrie }

/-! ## 候補者と投票 -/

/-- `KickoutCandidate` の反復の一回：投票者 `e.2` の委任の行を消し、その投票先が `candidate` なら
投票の行も消す。 -/
def kickoutStep (candidate : Bytes) (d : DposContext) (e : Bytes × Bytes) : DposContext :=
  let delegator := e.2
  let key := candidate ++ delegator
  let v := d.voteTrie.get delegator
  { d with delegateTrie := d.delegateTrie.delete key,
           voteTrie := if v.getD [] = candidate then d.voteTrie.delete delegator else d.voteTrie }

/-- `KickoutCandidate`：候補者を消し、その候補者で始まる委任の行を作った時点の内容で反復する。 -/
def kickoutCandidate (d : DposContext) (candidateAddr : Address) : DposContext × Option DposError :=
  let candidate := candidateAddr.bytes
  let d' := { d with candidateTrie := d.candidateTrie.delete candidate }
  ((d.delegateTrie.prefixEntries candidate).foldl (kickoutStep candidate) d', none)

/-- `BecomeCandidate`。 -/
def becomeCandidate (d : DposContext) (candidateAddr : Address) : DposContext × Option DposError :=
  let candidate := candidateAddr.bytes
  ({ d with candidateTrie := d.candidateTrie.update candidate candidate }, none)

/-- `Delegate`：候補者でなければ誤り。前の投票先があればその委任の行を消してから書く。 -/
def delegate (d : DposContext) (delegatorAddr candidateAddr : Address) :
    DposContext × Option DposError :=
  let delegator := delegatorAddr.bytes
  let candidate := candidateAddr.bytes
  match d.candidateTrie.get candidate with
  | none => (d, some .invalidCandidateToDelegate)
  | some _ =>
    let delegateTrie := match d.voteTrie.get delegator with
      | some oldCandidate => d.delegateTrie.delete (oldCandidate ++ delegator)
      | none => d.delegateTrie
    ({ d with delegateTrie := delegateTrie.update (candidate ++ delegator) delegator,
              voteTrie := d.voteTrie.update delegator candidate }, none)

/-- `UnDelegate`：候補者でない、または投票先が違えば誤り。そうでなければ二つの行を消す。 -/
def unDelegate (d : DposContext) (delegatorAddr candidateAddr : Address) :
    DposContext × Option DposError :=
  let delegator := delegatorAddr.bytes
  let candidate := candidateAddr.bytes
  match d.candidateTrie.get candidate with
  | none => (d, some .invalidCandidateToUndelegate)
  | some _ =>
    let oldCandidate := d.voteTrie.get delegator
    if candidate ≠ oldCandidate.getD [] then (d, some .mismatchCandidateToUndelegate)
    else ({ d with delegateTrie := d.delegateTrie.delete (candidate ++ delegator),
                   voteTrie := d.voteTrie.delete delegator }, none)

/-! ## 確定と検証者の列 -/

/-- `TryUpdate(root[:], Get(root[:]))`：根を自分のキーとして、今の値を書き戻す。 -/
def writeBack (t : Trie) (root : Bytes) : Trie := t.update root ((t.get root).getD [])

/-- `Commit`：epoch、delegate、vote、candidate、mintCnt の順に trie を確定して書き戻し、
記憶域を流して根の組を返す。`db` が `nil` なら `d.db.Commit` で panic する。 -/
def commit (H : Hashing) (d : DposContext) : DposContext × Except DposError DposContextProto :=
  match d.db with
  | none => (d, .error (.panic "nil trie database"))
  | some db =>
    let (epochRoot, db) := commitTrie H db d.epochTrie
    let epochTrie := writeBack d.epochTrie epochRoot
    let (delegateRoot, db) := commitTrie H db d.delegateTrie
    let delegateTrie := writeBack d.delegateTrie delegateRoot
    let (voteRoot, db) := commitTrie H db d.voteTrie
    let voteTrie := writeBack d.voteTrie voteRoot
    let (candidateRoot, db) := commitTrie H db d.candidateTrie
    let candidateTrie := writeBack d.candidateTrie candidateRoot
    let (mintCntRoot, db) := commitTrie H db d.mintCntTrie
    let mintCntTrie := writeBack d.mintCntTrie mintCntRoot
    ({ epochTrie, delegateTrie, voteTrie, candidateTrie, mintCntTrie, db := some db },
      .ok { epochHash := epochRoot, delegateHash := delegateRoot, voteHash := voteRoot,
            candidateHash := candidateRoot, mintCntHash := mintCntRoot })

/-- epoch trie のキー `[]byte("validator")`。 -/
def validatorKey : Bytes := "validator".toUTF8.data.toList

/-- `GetValidators`：キー `"validator"` の値を `[]common.Address` として読む。 -/
def getValidators (d : DposContext) : Except DposError (List Address) :=
  match Rlp.decodeAddressList ((d.epochTrie.get validatorKey).getD []) with
  | .ok validators => .ok validators
  | .error e => .error (.decodeValidators e)

/-- `SetValidators`：列を RLP にしてキー `"validator"` に書く。 -/
def setValidators (d : DposContext) (validators : List Address) : DposContext × Option DposError :=
  ({ d with epochTrie := d.epochTrie.update validatorKey (Rlp.encodeAddressList validators) }, none)

end DposContext

end HappyDpos
