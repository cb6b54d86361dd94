import HappyDpos.Confirm.Basic

/-!
# 当番の検証者を尋ねる呼び出し

`verifySeal` と `CheckValidator` は、親のブロック（`CheckValidator` では前のブロック）の `DposContext` を
開き、`EpochContext.lookupValidator` にその時刻の当番の検証者を尋ねる。選挙の部分（`EpochContext`）と
`trie.NewDatabase` は dpos と `dpos_context.go` のコードの外にあり、外の部品 `Election` として受け取る。ここの性質は
どの `Election` についても成り立つ。`VerifySeal` は親の候補を渡さない `verifySeal`。
-/

namespace HappyDpos

/-- 外の部品：`trie.NewDatabase` と、`(&EpochContext{DposContext: ctx}).lookupValidator(now, blockInterval)`。 -/
structure Election where
  newDatabase : EthDb → TrieDatabase
  lookupValidator : DposContext → Int64 → UInt64 → Except DposError Address

namespace Dpos

/-- `verifySeal`：番号 0 のヘッダは確かめない。親（`parents` の最後か鎖から読んだもの）の `DposContext`
で、ヘッダの時刻に当番の検証者を尋ね、`verifyBlockSigner` で署名者と比べてから確定したヘッダを進める。
親がなければ `parent.DposContext` で panic する。`ecrecover` がキャッシュに加えた署名者は、その後の比較が
誤りでも残る。歩みが `fuel` 回で終わらなければ `none`。 -/
def verifySeal (d : Dpos) (cr : Crypto) (E : Election) (chain : ChainReader)
    (currentheader genesisheader : Header) (parents : List Header) (fuel : Nat) :
    Option (Dpos × Option DposError) :=
  if bigUint64 currentheader.number = 0 then some (d, some .unknownBlock)
  else match selectParent chain currentheader parents with
    | none => some (d, some (.panic "nil pointer dereference"))
    | some parent =>
      match newDposContextFromProto cr.hashing (E.newDatabase d.db) parent.dposContext with
      | .error err => some (d, some err)
      | .ok dposContext =>
        match E.lookupValidator dposContext (bigInt64 currentheader.time) genesisheader.blockInterval with
        | .error err => some (d, some err)
        | .ok validator =>
          match verifyBlockSigner cr d.signatures validator currentheader with
          | (some err, signatures) => some ({ d with signatures }, some err)
          | (none, signatures) => { d with signatures }.updateConfirmedBlockHeader cr chain fuel

/-- `CheckValidator`：締め切りを確かめ、前のブロックの `DposContext` で `now` に当番の検証者が、空の
アドレスでなく自分であること。 -/
def checkValidator (d : Dpos) (cr : Crypto) (E : Election) (lastBlock : Block) (now : Int64)
    (blockInterval : UInt64) : Option DposError :=
  match checkDeadline lastBlock now blockInterval with
  | some err => some err
  | none =>
    match newDposContextFromProto cr.hashing (E.newDatabase d.db) lastBlock.header.dposContext with
    | .error err => some err
    | .ok dposContext =>
      match E.lookupValidator dposContext now blockInterval with
      | .error err => some err
      | .ok validator =>
        if validator = Address.zero ∨ validator ≠ d.signer then some .invalidBlockValidator else none

/-- 呼び出しの列：ヘッダが届くたびに `verifySeal` を呼ぶ。各呼び出しは鎖、ヘッダ、親の候補を受け取り、
呼び出しの間に頭はどの枝にも移ってよい。返した誤りは次の呼び出しに影響しない。歩みが `fuel` 回で
終わらなければそこで止まる。 -/
def verifySealRun (d : Dpos) (cr : Crypto) (E : Election) (genesisheader : Header) (fuel : Nat) :
    List (ChainReader × Header × List Header) → Dpos
  | [] => d
  | (chain, header, parents) :: calls =>
    match d.verifySeal cr E chain header genesisheader parents fuel with
    | some (d', _) => d'.verifySealRun cr E genesisheader fuel calls
    | none => d

end Dpos

end HappyDpos
