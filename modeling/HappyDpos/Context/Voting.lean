import HappyDpos.Context.Basic

/-!
# 投票の抽象モデル

三つの trie が何を表すかを、候補者の集合と、投票者から投票先への部分関数として書く。四つの操作の
意味はこのモデルの上で一行ずつ定まる。`DposContext.voting` が trie からこの状態を読み、
`Lemmas/Refinement.lean` で `DposContext` の操作がこのモデルの操作を実装することを示す。
-/

namespace HappyDpos

/-- 投票の状態：候補者の集合と、各投票者の投票先。 -/
@[ext] structure Voting where
  cands : Address → Bool
  votes : Address → Option Address

namespace Voting

/-- 候補者になる。 -/
def becomeCandidate (s : Voting) (c : Address) : Voting :=
  { s with cands := fun a => a = c || s.cands a }

/-- 投票する。投票先が候補者でなければ失敗する。前の投票は置き換わる。 -/
def delegate (s : Voting) (v c : Address) : Option Voting :=
  if s.cands c then some { s with votes := fun a => if a = v then some c else s.votes a } else none

/-- 投票を取り消す。投票先が候補者でないか、`v` の投票先が `c` でなければ失敗する。 -/
def unDelegate (s : Voting) (v c : Address) : Option Voting :=
  if s.cands c ∧ s.votes v = some c then
    some { s with votes := fun a => if a = v then none else s.votes a }
  else none

/-- 候補者を外す。その候補者への投票はすべて消える。 -/
def kickoutCandidate (s : Voting) (c : Address) : Voting where
  cands a := a ≠ c && s.cands a
  votes a := if s.votes a = some c then none else s.votes a

end Voting

/-- 三つの trie が表す投票の状態。 -/
def DposContext.voting (d : DposContext) : Voting where
  cands a := (d.candidateTrie.get a.bytes).isSome
  votes a := (d.voteTrie.get a.bytes).bind Address.ofBytes?

/-- 呼び出しの結果 `r` が抽象の操作の結果を実装する：抽象の操作が失敗するなら誤りを返して何も変えず、
成功するなら誤りなしでその状態に移る。 -/
def DposContext.Implements (d : DposContext) (r : DposContext × Option DposError) : Option Voting → Prop
  | none => r.1 = d ∧ r.2.isSome
  | some s => r.2 = none ∧ r.1.voting = s

/-- 呼び出しが epoch と mintCnt の trie を変えず、名指さない候補者、委任、投票の行も変えない。
`candRows`、`delRows`、`voteRows` が呼び出しの名指す行。 -/
def DposContext.Frame (d d' : DposContext) (candRows delRows voteRows : Bytes → Prop) : Prop :=
  d'.epochTrie = d.epochTrie ∧ d'.mintCntTrie = d.mintCntTrie ∧
  (∀ k, ¬ candRows k → d'.candidateTrie.get k = d.candidateTrie.get k) ∧
  (∀ k, ¬ delRows k → d'.delegateTrie.get k = d.delegateTrie.get k) ∧
  (∀ k, ¬ voteRows k → d'.voteTrie.get k = d.voteTrie.get k)

end HappyDpos
