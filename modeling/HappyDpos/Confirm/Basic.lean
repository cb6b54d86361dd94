import HappyDpos.Engine.Dpos

/-!
# 確定したブロック

`updateConfirmedBlockHeader` は、今の頭から確定したヘッダへ向けて親をたどり、同じ周期の中で
`MaxValidatorSize*2/3+1` 人の検証者が積んだ最初のヘッダを新しく確定させる。Go の `for` の一回を
`confirmWalk` の一段とし、回数の上限 `fuel` を与える（尽きたら `none`）。確定したヘッダのハッシュは
記憶域のキー `"confirmed-block-head"` に書き、次に起動したときそこから読む。
-/

namespace HappyDpos

/-- `confirmedBlockHead`。 -/
def confirmedBlockHead : Bytes := "confirmed-block-head".toUTF8.data.toList

namespace Dpos

/-- `loadConfirmedBlockHeader`。 -/
def loadConfirmedBlockHeader (s : Dpos) (chain : ChainReader) : Except DposError Header :=
  match s.db.get confirmedBlockHead with
  | .error err => .error err
  | .ok key =>
    match chain.getHeaderByHash (bytesToHash key) with
    | none => .error .nilBlockHeader
    | some header => .ok header

/-- `storeConfirmedBlockHeader`：確定したヘッダ `s.confirmedBlockHeader` のハッシュを書く。 -/
def storeConfirmedBlockHeader (cr : Crypto) (confirmed : Header) (db : EthDb) : Except DposError EthDb :=
  db.put confirmedBlockHead (cr.headerHash confirmed)

/-- `updateConfirmedBlockHeader` の始め：確定したヘッダがなければ記憶域から読み、読めなければ創世ブロックを
使う。創世ブロックもなければ読んだときの誤りを返す。 -/
def startConfirmed (d : Dpos) (chain : ChainReader) : Except DposError Header :=
  match d.confirmedBlockHeader with
  | some header => .ok header
  | none =>
    match d.loadConfirmedBlockHeader chain with
    | .ok header => .ok header
    | .error err =>
      match chain.getHeaderByNumber 0 with
      | none => .error err
      | some header => .ok header

end Dpos

/-- `consensusSize := int(genesisHeader.MaxValidatorSize*2/3+1)`：`uint64` で計算して `int` に変える。 -/
def consensusSize (genesis : Header) : Int64 := Int64.ofUInt64 (genesis.maxValidatorSize * 2 / 3 + 1)

/-- `for` の出口。 -/
inductive WalkExit
  /-- ループの条件が偽になった。 -/
  | loopEnd
  /-- 残りのヘッダでは足りないので、何も変えずに戻る。 -/
  | fastReturn
  /-- このヘッダを確定させる。 -/
  | confirm (header : Header)
  /-- 親が読めない（`ErrNilBlockHeader`）。 -/
  | nilBlockHeader
  /-- 創世ブロックがなく、`MaxValidatorSize` を読むところで panic する。 -/
  | nilGenesis
deriving DecidableEq

/-- `updateConfirmedBlockHeader` の `for`。`curHeader` が今見ているヘッダ、`epoch` と `validatorMap` が
前の回から持ち越す周期と検証者の集合（`map[common.Address]bool` の鍵を重複なしの列で持つ）。
Go は周期が変わったときだけ `epoch` を書き換えるが、同じなら書き換えても変わらないので、次の回へは
いつも `curEpoch` を渡す。 -/
def confirmWalk (cr : Crypto) (chain : ChainReader) (genesis : Option Header) (confirmed : Header) :
    Nat → Header → Int64 → List Address → Option WalkExit
  | 0, _, _, _ => none
  | fuel + 1, curHeader, epoch, validatorMap =>
    if cr.headerHash confirmed ≠ cr.headerHash curHeader ∧
        bigUint64 confirmed.number < bigUint64 curHeader.number then
      let curEpoch := (bigInt64 curHeader.time).quot epochInterval
      let validatorMap := if curEpoch ≠ epoch then [] else validatorMap
      match genesis with
      | none => some .nilGenesis
      | some g =>
        let cs := consensusSize g
        if (bigInt64 curHeader.number - bigInt64 confirmed.number).val <
            (cs - Int64.ofInt validatorMap.length).val then some .fastReturn
        else
          let validatorMap := validatorMap.insert curHeader.validator
          if (Int64.ofInt validatorMap.length).val ≥ cs.val then some (.confirm curHeader)
          else
            match chain.getHeaderByHash curHeader.parentHash with
            | none => some .nilBlockHeader
            | some parent => confirmWalk cr chain genesis confirmed fuel parent curEpoch validatorMap
    else some .loopEnd

/-- `updateConfirmedBlockHeader`。歩みが `fuel` 回で終わらなければ `none`。確定するヘッダを変えてから
書き込むので、書き込みに失敗しても新しいヘッダは残る。 -/
def Dpos.updateConfirmedBlockHeader (d : Dpos) (cr : Crypto) (chain : ChainReader) (fuel : Nat) :
    Option (Dpos × Option DposError) :=
  match d.startConfirmed chain with
  | .error err => some (d, some err)
  | .ok confirmed =>
    let d := { d with confirmedBlockHeader := some confirmed }
    match confirmWalk cr chain (chain.getHeaderByNumber 0) confirmed fuel chain.currentHeader
        (Int64.ofInt (-1)) [] with
    | none => none
    | some .loopEnd => some (d, none)
    | some .fastReturn => some (d, none)
    | some (.confirm header) =>
      let d := { d with confirmedBlockHeader := some header }
      match Dpos.storeConfirmedBlockHeader cr header d.db with
      | .error err => some (d, some err)
      | .ok db => some ({ d with db }, none)
    | some .nilBlockHeader => some (d, some .nilBlockHeader)
    | some .nilGenesis => some (d, some (.panic "nil pointer dereference"))

/-- 呼び出しの列：`verifySeal` がブロックごとに `updateConfirmedBlockHeader` を呼ぶ。`i` 番目の呼び出しは
鎖 `chains[i]` を読み、呼び出しの間に頭はどの枝にも移ってよい。歩みが `fuel` 回で終わらなければそこで止まる。
返した誤りは次の呼び出しに影響しない。 -/
def Dpos.confirmRun (d : Dpos) (cr : Crypto) (fuel : Nat) : List ChainReader → Dpos
  | [] => d
  | chain :: chains =>
    match d.updateConfirmedBlockHeader cr chain fuel with
    | some (d', _) => d'.confirmRun cr fuel chains
    | none => d

end HappyDpos
