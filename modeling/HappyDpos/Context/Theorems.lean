import HappyDpos.Context.Lemmas.Refinement
import HappyDpos.Context.Lemmas.Commit

/-!
# `DposContext` の定理

投票の三つの trie の整合（呼び出しのどの列の後でも成り立つ）、三つの trie が抽象の投票モデルを実装すること、
`Commit` が内容を変えず根から読み直せること、検証者の列の書き込みと読み出しが往復すること。

証明に使う補題は `Lemmas/` に置く。整合は `Lemmas/Invariant.lean` の `VoteInv` から、実装は
`Lemmas/Refinement.lean` の一操作ごとの補題から、`Commit` は `Lemmas/Commit.lean` の `commit_eq` から導く。
-/

namespace HappyDpos

/-! ## 例に使う状態 -/

/-- 例に使う二つ目のアドレス。 -/
def otherAddress : Address := ⟨List.replicate 20 1, rfl⟩

/-- 空の `DposContext` で空のアドレスが候補者になり、`otherAddress` がそれに投票した状態。 -/
def delegatedContext : DposContext :=
  (newDposContext fun _ => none).run [.becomeCandidate Address.zero, .delegate otherAddress Address.zero]

namespace DposContext

/-! ## 投票の整合 -/

/-- 空の `DposContext` から四つの呼び出しをどう並べても（誤りを返した呼び出しも含めて）、委任の行
`C‖V` があるのは `V` の投票先が `C` のときだけで、その値は `V` である。投票先と、委任のキーの先頭
20 バイトは、値が自分自身の候補者である。 -/
theorem vote_delegate_agree (db : TrieDatabase) (ops : List VoteOp) :
    let d := (newDposContext db).run ops
    (∀ c v : Address,
      ((d.delegateTrie.get (c.bytes ++ v.bytes)).isSome ↔ d.voteTrie.get v.bytes = some c.bytes) ∧
      ∀ w, d.delegateTrie.get (c.bytes ++ v.bytes) = some w → w = v.bytes) ∧
    (∀ k w, d.voteTrie.get k = some w → d.candidateTrie.get w = some w) ∧
    (∀ k w, d.delegateTrie.get k = some w → d.candidateTrie.get (k.take 20) = some (k.take 20)) := by
  intro d
  have h : VoteInv d := (VoteInv.newDposContext db).run ops
  refine ⟨fun c v => ⟨h.vote_iff c v, fun _ => h.delegate_value⟩, fun k w hw => ?_, fun k w hw => ?_⟩
  · obtain ⟨c, v, -, rfl, -, hc⟩ := h.vote _ _ hw
    exact hc
  · obtain ⟨c, v, rfl, -, hv⟩ := h.del _ _ hw
    rw [List.take_left' c.length_eq]
    exact h.cand_of_vote hv

/-! ## 抽象の投票モデル -/

/-- 整合した状態で、四つの操作は `Voting` の操作を実装し、epoch と mintCnt の trie と、名指さない
候補者、委任、投票の行を変えない。 -/
theorem voting_simulation (d : DposContext) (h : VoteInv d) (v c : Address) :
    (d.Implements (d.becomeCandidate c) (some (d.voting.becomeCandidate c)) ∧
      d.Implements (d.delegate v c) (d.voting.delegate v c) ∧
      d.Implements (d.unDelegate v c) (d.voting.unDelegate v c) ∧
      d.Implements (d.kickoutCandidate c) (some (d.voting.kickoutCandidate c))) ∧
    d.Frame (d.becomeCandidate c).1 (· = c.bytes) (fun _ => False) (fun _ => False) ∧
    d.Frame (d.delegate v c).1 (fun _ => False)
      (fun k => k = c.bytes ++ v.bytes ∨ (d.voteTrie.get v.bytes).map (· ++ v.bytes) = some k)
      (· = v.bytes) ∧
    d.Frame (d.unDelegate v c).1 (fun _ => False) (· = c.bytes ++ v.bytes) (· = v.bytes) ∧
    d.Frame (d.kickoutCandidate c).1 (· = c.bytes) (c.bytes <+: ·)
      (fun k => d.voteTrie.get k = some c.bytes) :=
  ⟨⟨implements_becomeCandidate d c, implements_delegate d v c, implements_unDelegate d v c,
      implements_kickoutCandidate d c h⟩,
    frame_becomeCandidate d c, frame_delegate d v c, frame_unDelegate d v c, frame_kickoutCandidate d c⟩

theorem voting_simulation_delegated :
    let d := delegatedContext
    let v := otherAddress
    let c := Address.zero
    VoteInv d ∧ (d.delegate v c).2 = none ∧ (d.unDelegate v c).2 = none ∧
    (d.Implements (d.becomeCandidate c) (some (d.voting.becomeCandidate c)) ∧
      d.Implements (d.delegate v c) (d.voting.delegate v c) ∧
      d.Implements (d.unDelegate v c) (d.voting.unDelegate v c) ∧
      d.Implements (d.kickoutCandidate c) (some (d.voting.kickoutCandidate c))) ∧
    d.Frame (d.becomeCandidate c).1 (· = c.bytes) (fun _ => False) (fun _ => False) ∧
    d.Frame (d.delegate v c).1 (fun _ => False)
      (fun k => k = c.bytes ++ v.bytes ∨ (d.voteTrie.get v.bytes).map (· ++ v.bytes) = some k)
      (· = v.bytes) ∧
    d.Frame (d.unDelegate v c).1 (fun _ => False) (· = c.bytes ++ v.bytes) (· = v.bytes) ∧
    d.Frame (d.kickoutCandidate c).1 (· = c.bytes) (c.bytes <+: ·)
      (fun k => d.voteTrie.get k = some c.bytes) :=
  have h := VoteInv.run (VoteInv.newDposContext _) _
  ⟨h, rfl, rfl, voting_simulation _ h otherAddress Address.zero⟩

/-! ## Commit -/

/-- trie のハッシュが内容について単射なら、誤りなしに終わった `Commit` は五つの trie の内容を変えず、
返す根の組は `ToProto` そのもので（よって `Root` も同じ）、その根を `Commit` 後の記憶域から開き直すと
同じ五つの trie が読める。 -/
theorem commit_preserves_contents (H : Hashing) (hinj : Function.Injective H.trieHash)
    (d d' : DposContext) (p : DposContextProto) (hc : d.commit H = (d', .ok p)) :
    (d'.epochTrie = d.epochTrie ∧ d'.delegateTrie = d.delegateTrie ∧ d'.voteTrie = d.voteTrie ∧
      d'.candidateTrie = d.candidateTrie ∧ d'.mintCntTrie = d.mintCntTrie) ∧
    (p = d.toProto H ∧ p.root H = d.root H) ∧
    ∃ db d'', d'.db = some db ∧ newDposContextFromProto H db p = .ok d'' ∧
      d''.epochTrie = d.epochTrie ∧ d''.delegateTrie = d.delegateTrie ∧ d''.voteTrie = d.voteTrie ∧
      d''.candidateTrie = d.candidateTrie ∧ d''.mintCntTrie = d.mintCntTrie := by
  cases hdb : d.db with
  | none => simp [commit, hdb] at hc
  | some db =>
    obtain ⟨db', he, s1, s2, s3, s4, s5⟩ := commit_eq H d hdb hinj
    rw [he, Prod.mk.injEq] at hc
    obtain ⟨rfl, hp⟩ := hc
    cases Except.ok.inj hp
    exact ⟨⟨rfl, rfl, rfl, rfl, rfl⟩, ⟨rfl, rfl⟩, db', _, rfl,
      newDposContextFromProto_toProto H hinj d s1 s2 s3 s4 s5, rfl, rfl, rfl, rfl, rfl⟩

theorem commit_preserves_contents_byEncoding :
    let H := Hashing.byEncoding
    let d := delegatedContext
    let d' := (d.commit H).1
    Function.Injective H.trieHash ∧ d.commit H = (d', .ok (d.toProto H)) ∧
    (d'.epochTrie = d.epochTrie ∧ d'.delegateTrie = d.delegateTrie ∧ d'.voteTrie = d.voteTrie ∧
      d'.candidateTrie = d.candidateTrie ∧ d'.mintCntTrie = d.mintCntTrie) ∧
    (d.toProto H = d.toProto H ∧ (d.toProto H).root H = d.root H) ∧
    ∃ db d'', d'.db = some db ∧ newDposContextFromProto H db (d.toProto H) = .ok d'' ∧
      d''.epochTrie = d.epochTrie ∧ d''.delegateTrie = d.delegateTrie ∧ d''.voteTrie = d.voteTrie ∧
      d''.candidateTrie = d.candidateTrie ∧ d''.mintCntTrie = d.mintCntTrie :=
  ⟨Hashing.byEncoding_injective, rfl,
    commit_preserves_contents _ Hashing.byEncoding_injective _ _ _ rfl⟩

/-- 整合した `DposContext` から四つの呼び出しをどう並べて行っても（誤りを返した呼び出しも含めて）、三つの
trie が表す候補者と投票先は、抽象の投票モデルで同じ操作を順に（失敗する操作は状態を変えずに）行った結果に
等しい。 -/
theorem run_refines_voting (d : DposContext) (h : VoteInv d) (ops : List VoteOp) :
    (d.run ops).voting = d.voting.run ops := by
  induction ops generalizing d with
  | nil => rfl
  | cons op ops ih => exact (ih _ (h.call op)).trans (congrArg (Voting.run · ops) (voting_call d h op))

theorem run_refines_voting_newDposContext :
    VoteInv (newDposContext fun _ => none) ∧
    ((newDposContext fun _ => none).run
        [.becomeCandidate Address.zero, .delegate Address.zero Address.zero, .kickoutCandidate Address.zero]).voting =
      (newDposContext fun _ => none).voting.run
        [.becomeCandidate Address.zero, .delegate Address.zero Address.zero, .kickoutCandidate Address.zero] :=
  ⟨VoteInv.newDposContext _, run_refines_voting _ (VoteInv.newDposContext _) _⟩

/-! ## 検証者の列 -/

/-- 長さが RLP の見出しに収まる（中身が `2^64` バイト未満の）どの列についても、`SetValidators` は誤りを
返さず、続く `GetValidators` は同じ列を同じ順に返し、書き換えたのは epoch trie のキー `"validator"` だけ
である。 -/
theorem setValidators_roundTrip (d : DposContext) (L : List Address) (h : 21 * L.length < 2^64) :
    (d.setValidators L).2 = none ∧ (d.setValidators L).1.getValidators = .ok L ∧
    (∀ k, k ≠ validatorKey → (d.setValidators L).1.epochTrie.get k = d.epochTrie.get k) ∧
    (d.setValidators L).1.delegateTrie = d.delegateTrie ∧ (d.setValidators L).1.voteTrie = d.voteTrie ∧
    (d.setValidators L).1.candidateTrie = d.candidateTrie ∧
    (d.setValidators L).1.mintCntTrie = d.mintCntTrie ∧ (d.setValidators L).1.db = d.db :=
  ⟨rfl, getValidators_setValidators d L h, setValidators_frame d L⟩

theorem setValidators_roundTrip_three :
    let d := newDposContext fun _ => none
    let L := [Address.zero, otherAddress, Address.zero]
    21 * L.length < 2^64 ∧
    (d.setValidators L).2 = none ∧ (d.setValidators L).1.getValidators = .ok L ∧
    (∀ k, k ≠ validatorKey → (d.setValidators L).1.epochTrie.get k = d.epochTrie.get k) ∧
    (d.setValidators L).1.delegateTrie = d.delegateTrie ∧ (d.setValidators L).1.voteTrie = d.voteTrie ∧
    (d.setValidators L).1.candidateTrie = d.candidateTrie ∧
    (d.setValidators L).1.mintCntTrie = d.mintCntTrie ∧ (d.setValidators L).1.db = d.db :=
  ⟨by decide, setValidators_roundTrip _ [Address.zero, otherAddress, Address.zero] (by decide)⟩

end DposContext
end HappyDpos
