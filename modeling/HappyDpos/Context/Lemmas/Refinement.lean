import HappyDpos.Context.Lemmas.Invariant
import HappyDpos.Context.Voting

/-!
# 三つの trie は抽象の投票モデルを実装する

`DposContext.voting` で読んだ状態の上で、四つの操作が `Voting` の操作と同じ結果になること、
そして名指さない行を変えないことを、一操作に一組の補題で示す。`KickoutCandidate` だけが、
消す投票を委任の行から探すので、不変条件 `VoteInv` を使う。
-/

namespace HappyDpos
namespace DposContext

variable (d : DposContext) (v c : Address)

theorem votes_eq_some {a c : Address} :
    d.voting.votes a = some c ↔ d.voteTrie.get a.bytes = some c.bytes := by
  simp only [voting]
  cases d.voteTrie.get a.bytes <;> simp [Address.ofBytes?_eq_some]

theorem cands_eq_false_of_get_none (h : d.candidateTrie.get c.bytes = none) : d.voting.cands c = false := by
  simp [voting, h]

theorem cands_eq_true_of_get_some {w : Bytes} (h : d.candidateTrie.get c.bytes = some w) :
    d.voting.cands c = true := by
  simp [voting, h]

/-! ## 抽象の操作の実装 -/

theorem implements_becomeCandidate :
    d.Implements (d.becomeCandidate c) (some (d.voting.becomeCandidate c)) := by
  refine ⟨rfl, ?_⟩
  ext a
  · simp only [voting, Voting.becomeCandidate, becomeCandidate_candidateTrie,
      Trie.get_update_of_ne_nil _ _ _ c.bytes_ne_nil, Address.bytes_inj]
    by_cases ha : a = c <;> simp [ha]
  · rfl

theorem implements_delegate : d.Implements (d.delegate v c) (d.voting.delegate v c) := by
  cases hc : d.candidateTrie.get c.bytes with
  | none =>
    simp only [Voting.delegate, cands_eq_false_of_get_none d c hc, delegate_of_get_none d v c hc]
    exact ⟨rfl, rfl⟩
  | some w =>
    obtain ⟨h2, hcand, hvote, -, -, -⟩ := delegate_of_isSome d v c (by rw [hc]; rfl)
    simp only [Voting.delegate, cands_eq_true_of_get_some d c hc, ↓reduceIte]
    refine ⟨h2, ?_⟩
    ext a
    · simp [voting, hcand]
    · simp only [voting, hvote, Trie.get_update_of_ne_nil _ _ _ c.bytes_ne_nil, Address.bytes_inj]
      by_cases ha : a = v <;> simp [ha]

theorem implements_unDelegate : d.Implements (d.unDelegate v c) (d.voting.unDelegate v c) := by
  cases hc : d.candidateTrie.get c.bytes with
  | none =>
    simp only [Voting.unDelegate, cands_eq_false_of_get_none d c hc, unDelegate_of_get_none d v c hc]
    exact ⟨rfl, rfl⟩
  | some w =>
    by_cases hv : d.voteTrie.get v.bytes = some c.bytes
    · rw [unDelegate_of_eq d v c (by rw [hc]; rfl) hv]
      simp only [Voting.unDelegate, cands_eq_true_of_get_some d c hc, (votes_eq_some d).mpr hv,
        and_self, ↓reduceIte]
      refine ⟨rfl, ?_⟩
      ext a
      · rfl
      · simp only [voting, Trie.get_delete, Address.bytes_inj]
        by_cases ha : a = v <;> simp [ha]
    · rw [unDelegate_of_ne d v c (by rw [hc]; rfl) hv]
      simp only [Voting.unDelegate, mt (votes_eq_some d).mp hv, and_false, ↓reduceIte]
      exact ⟨rfl, rfl⟩

theorem implements_kickoutCandidate (h : VoteInv d) :
    d.Implements (d.kickoutCandidate c) (some (d.voting.kickoutCandidate c)) := by
  obtain ⟨h2, hcand, -⟩ := kickoutCandidate_spec d c
  refine ⟨h2, ?_⟩
  ext a
  · simp only [voting, Voting.kickoutCandidate, hcand, Trie.get_delete, Address.bytes_inj]
    by_cases ha : a = c <;> simp [ha]
  · have := votes_eq_some d (a := a) (c := c)
    simp only [Voting.kickoutCandidate]
    simp only [voting] at this ⊢
    rw [h.kickout_vote]
    by_cases hv : d.voteTrie.get a.bytes = some c.bytes
    · simp [hv, this.mpr hv]
    · simp [hv, mt this.mp hv]

/-! ## 名指さない行は変わらない -/

theorem frame_becomeCandidate :
    d.Frame (d.becomeCandidate c).1 (· = c.bytes) (fun _ => False) (fun _ => False) :=
  ⟨rfl, rfl, fun k hk => by simp [Trie.get_update_of_ne _ _ hk], fun _ _ => rfl, fun _ _ => rfl⟩

theorem frame_delegate :
    d.Frame (d.delegate v c).1 (fun _ => False)
      (fun k => k = c.bytes ++ v.bytes ∨ (d.voteTrie.get v.bytes).map (· ++ v.bytes) = some k)
      (· = v.bytes) := by
  cases hc : d.candidateTrie.get c.bytes with
  | none => rw [delegate_of_get_none d v c hc]; exact ⟨rfl, rfl, fun _ _ => rfl, fun _ _ => rfl, fun _ _ => rfl⟩
  | some w =>
    obtain ⟨-, hcand, hvote, hep, hmc, hdel⟩ := delegate_of_isSome d v c (by rw [hc]; rfl)
    refine ⟨hep, hmc, fun k _ => by rw [hcand], fun k hk => ?_, fun k hk => ?_⟩
    · rw [hdel, if_neg (fun h => hk (.inl h)), if_neg (fun h => hk (.inr h))]
    · rw [hvote, Trie.get_update_of_ne _ _ hk]

theorem frame_unDelegate :
    d.Frame (d.unDelegate v c).1 (fun _ => False) (· = c.bytes ++ v.bytes) (· = v.bytes) := by
  cases hc : d.candidateTrie.get c.bytes with
  | none => rw [unDelegate_of_get_none d v c hc]; exact ⟨rfl, rfl, fun _ _ => rfl, fun _ _ => rfl, fun _ _ => rfl⟩
  | some w =>
    by_cases hv : d.voteTrie.get v.bytes = some c.bytes
    · rw [unDelegate_of_eq d v c (by rw [hc]; rfl) hv]
      exact ⟨rfl, rfl, fun _ _ => rfl, fun k hk => Trie.get_delete_of_ne _ hk,
        fun k hk => Trie.get_delete_of_ne _ hk⟩
    · rw [unDelegate_of_ne d v c (by rw [hc]; rfl) hv]
      exact ⟨rfl, rfl, fun _ _ => rfl, fun _ _ => rfl, fun _ _ => rfl⟩

theorem frame_kickoutCandidate :
    d.Frame (d.kickoutCandidate c).1 (· = c.bytes) (c.bytes <+: ·)
      (fun k => d.voteTrie.get k = some c.bytes) := by
  obtain ⟨-, hcand, hep, hmc, -, hdel, hvote⟩ := kickoutCandidate_spec d c
  refine ⟨hep, hmc, fun k hk => by rw [hcand, Trie.get_delete_of_ne _ hk], fun k hk => ?_,
    fun k hk => by rw [hvote, if_neg (fun h => hk h.2)]⟩
  rw [hdel, if_neg]
  rintro ⟨e, -, rfl⟩
  exact hk (List.prefix_append _ _)

/-! ## 呼び出しの列 -/

theorem Implements.voting {r : DposContext × Option DposError} {s : Option Voting} (h : d.Implements r s) :
    r.1.voting = s.getD d.voting := by
  cases s with
  | none => exact congrArg DposContext.voting h.1
  | some s => exact h.2

end DposContext

namespace Voting

/-- 抽象の呼び出し：失敗する操作は状態を変えない。 -/
def call (s : Voting) : DposContext.VoteOp → Voting
  | .becomeCandidate c => s.becomeCandidate c
  | .delegate v c => (s.delegate v c).getD s
  | .unDelegate v c => (s.unDelegate v c).getD s
  | .kickoutCandidate c => s.kickoutCandidate c

/-- 抽象の呼び出しを順に行う。 -/
def run (s : Voting) (ops : List DposContext.VoteOp) : Voting := ops.foldl call s

end Voting

namespace DposContext

/-- 整合した状態での一つの呼び出しは、抽象の呼び出しを実装する。 -/
theorem voting_call (d : DposContext) (h : VoteInv d) :
    ∀ op : VoteOp, (op.call d).1.voting = d.voting.call op
  | .becomeCandidate c => (implements_becomeCandidate d c).voting
  | .delegate v c => (implements_delegate d v c).voting
  | .unDelegate v c => (implements_unDelegate d v c).voting
  | .kickoutCandidate c => (implements_kickoutCandidate d c h).voting

end DposContext
end HappyDpos
