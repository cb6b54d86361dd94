import HappyDpos.Context.Lemmas.Ops

/-!
# 投票の不変条件

仕様 §3 の不変条件 1–3 を `VoteInv` と書く。委任の行 `C‖V → V` と投票の行 `V → C` が一対一に対応し、
投票先はいつも候補者で、候補者の行の値は自分自身である。四つの操作はこれを保ち（一操作に一補題）、
空の `DposContext` から始めたどの呼び出しの列の後でも成り立つ（`VoteInv.run`）。
-/

namespace HappyDpos
namespace DposContext

/-- 投票の三つの trie の整合。 -/
structure VoteInv (d : DposContext) : Prop where
  cand : ∀ k w, d.candidateTrie.get k = some w → w = k
  del : ∀ k w, d.delegateTrie.get k = some w →
    ∃ c v : Address, k = c.bytes ++ v.bytes ∧ w = v.bytes ∧ d.voteTrie.get v.bytes = some c.bytes
  vote : ∀ k w, d.voteTrie.get k = some w →
    ∃ c v : Address, k = v.bytes ∧ w = c.bytes ∧
      d.delegateTrie.get (c.bytes ++ v.bytes) = some v.bytes ∧ d.candidateTrie.get c.bytes = some c.bytes

variable {d : DposContext}

theorem Address.eq_of_prefix {c c' : Address} {s : Bytes} (h : c.bytes <+: c'.bytes ++ s) : c = c' := by
  obtain ⟨t, ht⟩ := h
  exact (Address.prefix_eq ht.symm).1.symm

theorem Address.eq_of_map_append {o : Option Bytes} {v v' : Address} {s : Bytes}
    (h : o.map (· ++ v.bytes) = some (s ++ v'.bytes)) : v' = v := by
  cases o with
  | none => cases h
  | some old =>
    simp only [Option.map_some', Option.some.injEq] at h
    exact Address.bytes_inj.mp (List.append_inj' h (by rw [v.length_eq, v'.length_eq])).2.symm

/-! ## 不変条件から読めること -/

namespace VoteInv

theorem vote_iff (h : VoteInv d) (c v : Address) :
    (d.delegateTrie.get (c.bytes ++ v.bytes)).isSome ↔ d.voteTrie.get v.bytes = some c.bytes := by
  constructor
  · intro hs
    obtain ⟨w, hw⟩ := Option.isSome_iff_exists.mp hs
    obtain ⟨c', v', hk, rfl, hv⟩ := h.del _ _ hw
    obtain ⟨rfl, rfl⟩ := Address.append_inj.mp hk
    exact hv
  · intro hv
    obtain ⟨c', v', hk, hw, hd, -⟩ := h.vote _ _ hv
    obtain rfl := Address.bytes_inj.mp hk
    obtain rfl := Address.bytes_inj.mp hw
    simp [hd]

theorem delegate_value (h : VoteInv d) {c v : Address} {w : Bytes}
    (hw : d.delegateTrie.get (c.bytes ++ v.bytes) = some w) : w = v.bytes := by
  obtain ⟨c', v', hk, rfl, -⟩ := h.del _ _ hw
  exact congrArg Address.bytes (Address.append_inj.mp hk).2.symm

theorem cand_of_vote (h : VoteInv d) {k : Bytes} {c : Address}
    (hv : d.voteTrie.get k = some c.bytes) : d.candidateTrie.get c.bytes = some c.bytes := by
  obtain ⟨c', v', -, hw, -, hc⟩ := h.vote _ _ hv
  rwa [Address.bytes_inj.mp hw]

/-! ## KickoutCandidate の結果 -/

theorem kickout_delegate (h : VoteInv d) (c : Address) (k : Bytes) :
    (d.kickoutCandidate c).1.delegateTrie.get k =
      if c.bytes <+: k then none else d.delegateTrie.get k := by
  rw [(kickoutCandidate_spec d c).2.2.2.2.2.1]
  split_ifs with h1 h2 h2
  · rfl
  · obtain ⟨e, -, rfl⟩ := h1
    exact absurd (List.prefix_append _ _) h2
  · cases hk : d.delegateTrie.get k with
    | none => rfl
    | some w =>
      obtain ⟨c', v, hkv, rfl, -⟩ := h.del _ _ hk
      have hc : c = c' := Address.eq_of_prefix (hkv ▸ h2)
      subst hc hkv
      exact absurd ⟨(c.bytes ++ v.bytes, v.bytes), Trie.mem_prefixEntries.mpr ⟨h2, hk⟩, rfl⟩ h1
  · rfl

theorem kickout_vote (h : VoteInv d) (c : Address) (k : Bytes) :
    (d.kickoutCandidate c).1.voteTrie.get k =
      if d.voteTrie.get k = some c.bytes then none else d.voteTrie.get k := by
  rw [(kickoutCandidate_spec d c).2.2.2.2.2.2]
  by_cases hv : d.voteTrie.get k = some c.bytes
  · obtain ⟨c', v, rfl, hw, hd, -⟩ := h.vote _ _ hv
    have hcc := Address.bytes_inj.mp hw
    subst hcc
    have : (c.bytes ++ v.bytes, v.bytes) ∈ d.delegateTrie.prefixEntries c.bytes :=
      Trie.mem_prefixEntries.mpr ⟨List.prefix_append _ _, hd⟩
    simp only [hv, and_true, ↓reduceIte]
    rw [if_pos ⟨_, this, rfl⟩]
  · simp [hv]

/-! ## 一つの操作は不変条件を保つ -/

theorem newDposContext (db : TrieDatabase) : VoteInv (newDposContext db) :=
  ⟨by simp [HappyDpos.newDposContext], by simp [HappyDpos.newDposContext],
    by simp [HappyDpos.newDposContext]⟩

theorem becomeCandidate (h : VoteInv d) (c : Address) : VoteInv (d.becomeCandidate c).1 where
  cand k w hw := by
    rw [becomeCandidate_candidateTrie, Trie.get_update_of_ne_nil _ _ _ c.bytes_ne_nil] at hw
    split_ifs at hw with hk
    · cases hw; exact hk.symm
    · exact h.cand k w hw
  del k w hw := h.del k w hw
  vote k w hw := by
    obtain ⟨c', v, hk, hw', hd, hc⟩ := h.vote k w hw
    refine ⟨c', v, hk, hw', hd, ?_⟩
    rw [becomeCandidate_candidateTrie, Trie.get_update_of_ne_nil _ _ _ c.bytes_ne_nil]
    split_ifs with he
    · rw [he]
    · exact hc

theorem delegate (h : VoteInv d) (v c : Address) : VoteInv (d.delegate v c).1 := by
  cases hc : d.candidateTrie.get c.bytes with
  | none => rw [delegate_of_get_none d v c hc]; exact h
  | some w =>
    obtain rfl := h.cand _ _ hc
    obtain ⟨-, hcand, hvote, -, -, hdel⟩ := delegate_of_isSome d v c (by rw [hc]; rfl)
    refine ⟨?_, fun k w hw => ?_, fun k w hw => ?_⟩
    · rw [hcand]; exact h.cand
    · rw [hdel] at hw
      split_ifs at hw with h1 h2
      · cases hw
        exact ⟨c, v, h1, rfl, by rw [hvote]; exact Trie.get_update_self c.bytes_ne_nil⟩
      · obtain ⟨c', v', rfl, rfl, hv'⟩ := h.del _ _ hw
        refine ⟨c', v', rfl, rfl, ?_⟩
        rw [hvote, Trie.get_update_of_ne]
        · exact hv'
        · intro he
          obtain rfl := Address.bytes_inj.mp he
          simp [hv'] at h2
    · rw [hvote, Trie.get_update] at hw
      split_ifs at hw with hk
      · simp only [c.bytes_ne_nil, ↓reduceIte, Option.some.injEq] at hw
        subst hw
        refine ⟨c, v, hk, rfl, by rw [hdel]; simp, by rw [hcand]; exact hc⟩
      · obtain ⟨c', v', rfl, rfl, hd, hcc⟩ := h.vote _ _ hw
        have hne : c'.bytes ++ v'.bytes ≠ c.bytes ++ v.bytes :=
          fun he => hk (congrArg Address.bytes (Address.append_inj.mp he).2)
        refine ⟨c', v', rfl, rfl, ?_, by rw [hcand]; exact hcc⟩
        rw [hdel, if_neg hne, if_neg fun he => hk (congrArg Address.bytes (Address.eq_of_map_append he))]
        exact hd

theorem unDelegate (h : VoteInv d) (v c : Address) : VoteInv (d.unDelegate v c).1 := by
  cases hc : d.candidateTrie.get c.bytes with
  | none => rw [unDelegate_of_get_none d v c hc]; exact h
  | some w =>
    by_cases hv : d.voteTrie.get v.bytes = some c.bytes
    · rw [unDelegate_of_eq d v c (by rw [hc]; rfl) hv]
      refine ⟨h.cand, fun k w hw => ?_, fun k w hw => ?_⟩
      · simp only [Trie.get_delete] at hw ⊢
        split_ifs at hw with hk
        obtain ⟨c', v', rfl, rfl, hv'⟩ := h.del _ _ hw
        refine ⟨c', v', rfl, rfl, ?_⟩
        rw [if_neg]
        · exact hv'
        · intro he
          obtain rfl := Address.bytes_inj.mp he
          obtain rfl := Address.bytes_inj.mp (Option.some.inj (hv'.symm.trans hv))
          exact hk rfl
      · simp only [Trie.get_delete] at hw ⊢
        split_ifs at hw with hk
        obtain ⟨c', v', rfl, rfl, hd, hcc⟩ := h.vote _ _ hw
        refine ⟨c', v', rfl, rfl, ?_, hcc⟩
        rw [if_neg]
        · exact hd
        · exact fun he => hk (congrArg Address.bytes (Address.append_inj.mp he).2)
    · rw [unDelegate_of_ne d v c (by rw [hc]; rfl) hv]; exact h

theorem kickoutCandidate (h : VoteInv d) (c : Address) : VoteInv (d.kickoutCandidate c).1 := by
  obtain ⟨-, hcand, -, -, -, -, -⟩ := kickoutCandidate_spec d c
  refine ⟨fun k w hw => ?_, fun k w hw => ?_, fun k w hw => ?_⟩
  · rw [hcand, Trie.get_delete] at hw
    split_ifs at hw
    exact h.cand k w hw
  · rw [h.kickout_delegate] at hw
    split_ifs at hw with hk
    obtain ⟨c', v, rfl, rfl, hv⟩ := h.del _ _ hw
    have hne : c' ≠ c := by rintro rfl; exact hk (List.prefix_append _ _)
    refine ⟨c', v, rfl, rfl, ?_⟩
    rw [h.kickout_vote, if_neg (fun he => hne (Address.bytes_inj.mp (Option.some.inj (hv.symm.trans he))))]
    exact hv
  · rw [h.kickout_vote] at hw
    split_ifs at hw with hk
    obtain ⟨c', v, rfl, rfl, hd, hcc⟩ := h.vote _ _ hw
    have hne : c' ≠ c := by rintro rfl; exact hk hw
    refine ⟨c', v, rfl, rfl, ?_, ?_⟩
    · rw [h.kickout_delegate, if_neg (fun hp => hne (Address.eq_of_prefix hp).symm)]
      exact hd
    · rw [hcand, Trie.get_delete_of_ne _ (fun he => hne (Address.bytes_inj.mp he))]
      exact hcc

end VoteInv

/-! ## 呼び出しの列 -/

/-- 投票の状態を変える四つの呼び出し。 -/
inductive VoteOp
  | becomeCandidate (candidate : Address)
  | delegate (delegator candidate : Address)
  | unDelegate (delegator candidate : Address)
  | kickoutCandidate (candidate : Address)

/-- 一つの呼び出し。誤りを返したかどうかにかかわらず、呼び出しの後の `DposContext` を返す。 -/
def VoteOp.call (d : DposContext) : VoteOp → DposContext × Option DposError
  | .becomeCandidate c => d.becomeCandidate c
  | .delegate v c => d.delegate v c
  | .unDelegate v c => d.unDelegate v c
  | .kickoutCandidate c => d.kickoutCandidate c

/-- 呼び出しを順に行う。 -/
def run (d : DposContext) (ops : List VoteOp) : DposContext :=
  ops.foldl (fun d op => (op.call d).1) d

theorem VoteInv.call (h : VoteInv d) : ∀ op : VoteOp, VoteInv (op.call d).1
  | .becomeCandidate c => h.becomeCandidate c
  | .delegate v c => h.delegate v c
  | .unDelegate v c => h.unDelegate v c
  | .kickoutCandidate c => h.kickoutCandidate c

theorem VoteInv.run (h : VoteInv d) (ops : List VoteOp) : VoteInv (d.run ops) := by
  induction ops generalizing d with
  | nil => exact h
  | cons op ops ih => exact ih (h.call op)

end DposContext
end HappyDpos
