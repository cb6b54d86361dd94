import HappyDpos.Context.Basic

/-!
# 投票の操作の仕様

`BecomeCandidate`、`Delegate`、`UnDelegate`、`KickoutCandidate` が五つの trie をどう変えるかを、
一つの操作に一組の補題で言う。不変条件と抽象化の証明はこれらだけを使い、操作の定義を開かない。
ここの補題は不変条件を仮定しない。
-/

namespace HappyDpos
namespace DposContext

variable (d : DposContext) (v c : Address)

theorem getD_eq_address {o : Option Bytes} : o.getD [] = c.bytes ↔ o = some c.bytes := by
  cases o <;> simp [eq_comm, c.bytes_ne_nil, c.bytes_ne_nil.symm]

/-! ## BecomeCandidate -/

@[simp] theorem becomeCandidate_snd : (d.becomeCandidate c).2 = none := rfl
@[simp] theorem becomeCandidate_candidateTrie :
    (d.becomeCandidate c).1.candidateTrie = d.candidateTrie.update c.bytes c.bytes := rfl
@[simp] theorem becomeCandidate_delegateTrie : (d.becomeCandidate c).1.delegateTrie = d.delegateTrie := rfl
@[simp] theorem becomeCandidate_voteTrie : (d.becomeCandidate c).1.voteTrie = d.voteTrie := rfl
@[simp] theorem becomeCandidate_epochTrie : (d.becomeCandidate c).1.epochTrie = d.epochTrie := rfl
@[simp] theorem becomeCandidate_mintCntTrie : (d.becomeCandidate c).1.mintCntTrie = d.mintCntTrie := rfl

/-! ## Delegate -/

theorem delegate_of_get_none (h : d.candidateTrie.get c.bytes = none) :
    d.delegate v c = (d, some .invalidCandidateToDelegate) := by
  simp [delegate, h]

theorem delegate_of_isSome (h : (d.candidateTrie.get c.bytes).isSome) :
    (d.delegate v c).2 = none ∧
    (d.delegate v c).1.candidateTrie = d.candidateTrie ∧
    (d.delegate v c).1.voteTrie = d.voteTrie.update v.bytes c.bytes ∧
    (d.delegate v c).1.epochTrie = d.epochTrie ∧
    (d.delegate v c).1.mintCntTrie = d.mintCntTrie ∧
    ∀ k, (d.delegate v c).1.delegateTrie.get k =
      if k = c.bytes ++ v.bytes then some v.bytes
      else if (d.voteTrie.get v.bytes).map (· ++ v.bytes) = some k then none
      else d.delegateTrie.get k := by
  obtain ⟨w, hw⟩ := Option.isSome_iff_exists.mp h
  simp only [delegate, hw, true_and]
  intro k
  rw [Trie.get_update, if_neg v.bytes_ne_nil]
  split_ifs with h1 h2
  · rfl
  · cases ho : d.voteTrie.get v.bytes with
    | none => simp [ho] at h2
    | some old =>
      simp only [ho, Option.map_some', Option.some.injEq] at h2
      subst h2; simp
  · cases ho : d.voteTrie.get v.bytes with
    | none => rfl
    | some old =>
      simp only [ho, Option.map_some', Option.some.injEq] at h2
      simp [Trie.get_delete, Ne.symm h2]

/-! ## UnDelegate -/

theorem unDelegate_of_get_none (h : d.candidateTrie.get c.bytes = none) :
    d.unDelegate v c = (d, some .invalidCandidateToUndelegate) := by
  simp [unDelegate, h]

theorem unDelegate_of_ne (h : (d.candidateTrie.get c.bytes).isSome)
    (hv : d.voteTrie.get v.bytes ≠ some c.bytes) :
    d.unDelegate v c = (d, some .mismatchCandidateToUndelegate) := by
  obtain ⟨w, hw⟩ := Option.isSome_iff_exists.mp h
  have : c.bytes ≠ (d.voteTrie.get v.bytes).getD [] := fun he => hv ((getD_eq_address c).mp he.symm)
  simp [unDelegate, hw, this]

theorem unDelegate_of_eq (h : (d.candidateTrie.get c.bytes).isSome)
    (hv : d.voteTrie.get v.bytes = some c.bytes) :
    d.unDelegate v c = ({ d with delegateTrie := d.delegateTrie.delete (c.bytes ++ v.bytes),
                                 voteTrie := d.voteTrie.delete v.bytes }, none) := by
  obtain ⟨w, hw⟩ := Option.isSome_iff_exists.mp h
  simp [unDelegate, hw, hv]

/-! ## KickoutCandidate -/

theorem kickoutStep_spec (e : Bytes × Bytes) :
    (kickoutStep c.bytes d e).candidateTrie = d.candidateTrie ∧
    (kickoutStep c.bytes d e).epochTrie = d.epochTrie ∧
    (kickoutStep c.bytes d e).mintCntTrie = d.mintCntTrie ∧
    (kickoutStep c.bytes d e).db = d.db ∧
    (∀ k, (kickoutStep c.bytes d e).delegateTrie.get k =
      if k = c.bytes ++ e.2 then none else d.delegateTrie.get k) ∧
    (∀ k, (kickoutStep c.bytes d e).voteTrie.get k =
      if k = e.2 ∧ d.voteTrie.get k = some c.bytes then none else d.voteTrie.get k) := by
  refine ⟨rfl, rfl, rfl, rfl, fun k => Trie.get_delete _ _ _, fun k => ?_⟩
  simp only [kickoutStep, getD_eq_address]
  by_cases hk : k = e.2
  · subst hk
    by_cases h1 : d.voteTrie.get e.2 = some c.bytes <;> simp [h1, Trie.get_delete]
  · rw [if_neg fun h : k = e.2 ∧ _ => hk h.1]
    split_ifs <;> simp [Trie.get_delete, hk]

theorem kickout_foldl (es : List (Bytes × Bytes)) :
    ∀ d : DposContext,
    (es.foldl (kickoutStep c.bytes) d).candidateTrie = d.candidateTrie ∧
    (es.foldl (kickoutStep c.bytes) d).epochTrie = d.epochTrie ∧
    (es.foldl (kickoutStep c.bytes) d).mintCntTrie = d.mintCntTrie ∧
    (es.foldl (kickoutStep c.bytes) d).db = d.db ∧
    (∀ k, (es.foldl (kickoutStep c.bytes) d).delegateTrie.get k =
      if ∃ e ∈ es, k = c.bytes ++ e.2 then none else d.delegateTrie.get k) ∧
    (∀ k, (es.foldl (kickoutStep c.bytes) d).voteTrie.get k =
      if (∃ e ∈ es, e.2 = k) ∧ d.voteTrie.get k = some c.bytes then none else d.voteTrie.get k) := by
  induction es with
  | nil => intro d; simp
  | cons e es ih =>
    intro d
    have hex : ∀ p : Bytes × Bytes → Prop, (∃ x ∈ e :: es, p x) ↔ p e ∨ ∃ x ∈ es, p x :=
      fun p => by simp
    obtain ⟨h1, h2, h3, h4, h5, h6⟩ := kickoutStep_spec d c e
    obtain ⟨i1, i2, i3, i4, i5, i6⟩ := ih (kickoutStep c.bytes d e)
    refine ⟨i1.trans h1, i2.trans h2, i3.trans h3, i4.trans h4, fun k => ?_, fun k => ?_⟩
    · simp only [List.foldl_cons, i5, h5, hex]
      by_cases hk : k = c.bytes ++ e.2
      · simp [hk]
      · simp only [hk, false_or, ↓reduceIte]
    · simp only [List.foldl_cons, i6, h6, hex]
      by_cases hk : k = e.2
      · subst hk; by_cases hv : d.voteTrie.get e.2 = some c.bytes <;> simp [hv]
      · have h6' : (if k = e.2 ∧ d.voteTrie.get k = some c.bytes then none else d.voteTrie.get k) =
            d.voteTrie.get k := if_neg fun h => hk h.1
        simp only [h6', Ne.symm hk, false_or]

/-- `KickoutCandidate` の結果。反復の列は呼び出し時の委任の trie の、`c` で始まる行。 -/
theorem kickoutCandidate_spec :
    (d.kickoutCandidate c).2 = none ∧
    (d.kickoutCandidate c).1.candidateTrie = d.candidateTrie.delete c.bytes ∧
    (d.kickoutCandidate c).1.epochTrie = d.epochTrie ∧
    (d.kickoutCandidate c).1.mintCntTrie = d.mintCntTrie ∧
    (d.kickoutCandidate c).1.db = d.db ∧
    (∀ k, (d.kickoutCandidate c).1.delegateTrie.get k =
      if ∃ e ∈ d.delegateTrie.prefixEntries c.bytes, k = c.bytes ++ e.2 then none
      else d.delegateTrie.get k) ∧
    (∀ k, (d.kickoutCandidate c).1.voteTrie.get k =
      if (∃ e ∈ d.delegateTrie.prefixEntries c.bytes, e.2 = k) ∧ d.voteTrie.get k = some c.bytes then none
      else d.voteTrie.get k) :=
  ⟨rfl, kickout_foldl c _ _⟩

/-! ## SetValidators と GetValidators -/

section Validators

variable (L : List Address)

@[simp] theorem setValidators_snd : (d.setValidators L).2 = none := rfl

theorem setValidators_frame :
    (∀ k, k ≠ validatorKey → (d.setValidators L).1.epochTrie.get k = d.epochTrie.get k) ∧
    (d.setValidators L).1.delegateTrie = d.delegateTrie ∧ (d.setValidators L).1.voteTrie = d.voteTrie ∧
    (d.setValidators L).1.candidateTrie = d.candidateTrie ∧
    (d.setValidators L).1.mintCntTrie = d.mintCntTrie ∧ (d.setValidators L).1.db = d.db :=
  ⟨fun _ hk => Trie.get_update_of_ne _ _ hk, rfl, rfl, rfl, rfl, rfl⟩

theorem getValidators_setValidators (h : 21 * L.length < 2^64) :
    (d.setValidators L).1.getValidators = .ok L := by
  have hne : Rlp.encodeAddressList L ≠ [] := Rlp.encodeList_ne_nil _
  simp only [getValidators, setValidators, Trie.get_update_self hne, Option.getD_some,
    Rlp.decodeAddressList_encodeAddressList L h]

end Validators

end DposContext
end HappyDpos
