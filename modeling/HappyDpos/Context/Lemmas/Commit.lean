import HappyDpos.Context.Basic
import Mathlib.Logic.Equiv.List

/-!
# `Commit` と、根からの読み直し

`Commit` は trie の内容を変えず（書き戻しは今の値を書くだけ）、返す根の組は `ToProto` と同じで、
その根を記憶域から開き直すと同じ内容が読める。最後の点だけが trie のハッシュの単射性を使う：
記憶域に後から書いた trie の根が前の trie の根と同じなら、二つは同じ内容である。
-/

namespace HappyDpos

variable (H : Hashing)

/-- 記憶域が `t` を開ける：空の trie は根だけで開け、そうでなければ根のもとに内容がある。 -/
def Stored (db : TrieDatabase) (t : Trie) : Prop := t.entries = [] ∨ db (H.trieHash t) = some t

namespace DposContext

theorem writeBack_eq (t : Trie) (root : Bytes) : writeBack t root = t := Trie.update_get_self t root

/-- 記憶域に根を持つ trie は、その根から開くと同じ内容になる。 -/
theorem newTrieWithPrefix_of_stored (hinj : Function.Injective H.trieHash) {db : TrieDatabase}
    {t : Trie} (h : Stored H db t) (pre : Bytes) :
    newTrieWithPrefix H (H.trieHash t) pre db = .ok t := by
  unfold newTrieWithPrefix
  split_ifs with he
  · rw [hinj (he.resolve_left (H.trieHash_ne_zero t))]
  · rcases h with h | h
    · exact absurd (.inr (congrArg H.trieHash (Trie.ext_entries h))) he
    · rw [h]

theorem commitTrie_stored_self (db : TrieDatabase) (t : Trie) : Stored H (commitTrie H db t).2 t := by
  by_cases h : t.entries = []
  · exact .inl h
  · right; simp [commitTrie, h]

theorem commitTrie_stored (hinj : Function.Injective H.trieHash) {db : TrieDatabase} {t : Trie}
    (h : Stored H db t) (u : Trie) : Stored H (commitTrie H db u).2 t := by
  rcases h with h | h
  · exact .inl h
  · right
    simp only [commitTrie]
    split_ifs with hu
    · exact h
    · dsimp only
      split_ifs with he
      · rw [hinj he]
      · exact h

/-- 記憶域があれば `Commit` は誤りなしに終わり、trie を変えず、根の組は `ToProto` で、五つの trie は開き直せる。 -/
theorem commit_eq (d : DposContext) {db : TrieDatabase} (hdb : d.db = some db)
    (hinj : Function.Injective H.trieHash) :
    ∃ db', d.commit H = ({ d with db := some db' }, .ok (d.toProto H)) ∧
      Stored H db' d.epochTrie ∧ Stored H db' d.delegateTrie ∧ Stored H db' d.voteTrie ∧
      Stored H db' d.candidateTrie ∧ Stored H db' d.mintCntTrie := by
  simp only [commit, hdb, writeBack_eq]
  have s := @commitTrie_stored H hinj
  have s0 := commitTrie_stored_self H
  exact ⟨_, rfl, s (s (s (s (s0 _ _) _) _) _) _, s (s (s (s0 _ _) _) _) _, s (s (s0 _ _) _) _,
    s (s0 _ _) _, s0 _ _⟩

theorem root_toProto (d : DposContext) : (d.toProto H).root H = d.root H := rfl

theorem newDposContextFromProto_toProto (hinj : Function.Injective H.trieHash) (d : DposContext)
    {db : TrieDatabase} (h1 : Stored H db d.epochTrie) (h2 : Stored H db d.delegateTrie)
    (h3 : Stored H db d.voteTrie) (h4 : Stored H db d.candidateTrie) (h5 : Stored H db d.mintCntTrie) :
    newDposContextFromProto H db (d.toProto H) =
      .ok ⟨d.epochTrie, d.delegateTrie, d.voteTrie, d.candidateTrie, d.mintCntTrie, some db⟩ := by
  simp only [newDposContextFromProto, toProto, newEpochTrie, newDelegateTrie, newVoteTrie,
    newCandidateTrie, newMintCntTrie, newTrieWithPrefix_of_stored H hinj h1,
    newTrieWithPrefix_of_stored H hinj h2, newTrieWithPrefix_of_stored H hinj h3,
    newTrieWithPrefix_of_stored H hinj h4, newTrieWithPrefix_of_stored H hinj h5]
  rfl

end DposContext

/-! ## 単射なハッシュ

単射性の仮定は満たせる：trie の内容を自然数に符号化し、1 の後にその数の長さの 0 の列を根にすればよい。 -/

/-- 1 の後に、内容の符号の長さの 0 の列を並べた根のハッシュ。 -/
def Hashing.byEncoding : Hashing where
  keccak256 _ := []
  trieHash t := 1 :: List.replicate
    (Encodable.encode (t.entries.map fun e => (e.1.map UInt8.toNat, e.2.map UInt8.toNat))) 0
  trieHash_ne_zero _ h := nomatch congrArg List.head? h

theorem Hashing.byEncoding_injective : Function.Injective Hashing.byEncoding.trieHash := by
  intro t u h
  have hlen := congrArg List.length (List.cons.inj h).2
  simp only [Hashing.byEncoding, List.length_replicate] at hlen
  have hbyte : Function.Injective (List.map UInt8.toNat) :=
    List.map_injective_iff.mpr fun _ _ => UInt8.toNat.inj
  refine Trie.ext_entries (List.map_injective_iff.mpr (fun a b hab => ?_) (Encodable.encode_injective hlen))
  simp only [Prod.mk.injEq] at hab
  exact Prod.ext (hbyte hab.1) (hbyte hab.2)

end HappyDpos
