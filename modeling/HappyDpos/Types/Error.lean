import HappyDpos.Types.Rlp

/-!
# 誤り

`dpos.go` と `dpos_context.go` が返す誤りを一つの型にまとめる。文言は Go の `errors.New` の文字列。
`consensus` パッケージの誤り（`ErrFutureBlock`、`ErrUnknownAncestor`）、外の部品（フォークの確認、
署名、記憶域）の誤り、Go の panic（範囲外の切り出し、`nil` の参照、0 での除算）もここに置く。
-/

namespace HappyDpos

/-- エンジンと `DposContext` の誤り。 -/
inductive DposError
  | unknownBlock
  | missingVanity
  | missingSignature
  | invalidMixDigest
  | invalidUncleHash
  | invalidDifficulty
  | invalidTimestamp
  | waitForPrevBlock
  | mintFutureBlock
  | mismatchSignerAndValidator
  | invalidBlockValidator
  | nilBlockHeader
  | futureBlock
  | unknownAncestor
  | invalidCandidateToDelegate
  | invalidCandidateToUndelegate
  | mismatchCandidateToUndelegate
  | missingNode (root : Bytes)
  | decodeValidators (e : Rlp.Error)
  | external (msg : String)
  | panic (what : String)
deriving DecidableEq

/-- `err.Error()`。 -/
def DposError.message : DposError → String
  | .unknownBlock => "unknown block"
  | .missingVanity => "extra-data 32 byte vanity prefix missing"
  | .missingSignature => "extra-data 65 byte suffix signature missing"
  | .invalidMixDigest => "non-zero mix digest"
  | .invalidUncleHash => "non empty uncle hash"
  | .invalidDifficulty => "invalid difficulty"
  | .invalidTimestamp => "invalid timestamp"
  | .waitForPrevBlock => "wait for last block arrived"
  | .mintFutureBlock => "mint the future block"
  | .mismatchSignerAndValidator => "mismatch block signer and validator"
  | .invalidBlockValidator => "invalid block validator"
  | .nilBlockHeader => "nil block header returned"
  | .futureBlock => "block in the future"
  | .unknownAncestor => "unknown ancestor"
  | .invalidCandidateToDelegate => "invalid candidate to delegate"
  | .invalidCandidateToUndelegate => "invalid candidate to undelegate"
  | .mismatchCandidateToUndelegate => "mismatch candidate to undelegate"
  | .missingNode _ => "missing trie node"
  | .decodeValidators _ => "failed to decode validators: rlp"
  | .external msg => msg
  | .panic what => what

end HappyDpos
