import HappyDpos.Engine.Dpos

/-!
# 署名する側と確かめる側

`Prepare` の後の `Seal` が書いた署名を、`ecrecover` と `verifyBlockSigner` が読み戻す。要になるのは、
`sigHash` が `Extra` を末尾 65 バイトを除いた部分でしか読まず、`Seal` が書くのはちょうどその 65 バイトで
あること（`sigHash_sealExtra`）。署名者のキャッシュは、入っている値がその署名から復元される値であるとき
健全と呼び（`CacheSound`）、`ecrecover` はこれを保つ。
-/

namespace HappyDpos

/-- `Seal` が作る `Extra`：末尾 65 バイトに署名を写す。 -/
def sealExtra (extra sig : Bytes) : Bytes :=
  extra.take (extra.length - extraSeal) ++ goCopy (extra.drop (extra.length - extraSeal)) sig

/-! ## Prepare -/

theorem prepare_spec {d : Dpos} {chain : ChainReader} {header h1 : Header}
    (h : d.prepare chain header = (h1, none)) :
    h1.extra.length = extraVanity + extraSeal ∧ h1.validator = d.signer := by
  unfold Dpos.prepare at h
  dsimp only at h
  split at h
  · cases h
  · cases h
    refine ⟨?_, rfl⟩
    simp only [List.length_append, List.length_take, List.length_replicate, extraVanity, extraSeal]
    split_ifs <;> simp <;> omega

/-! ## Seal -/

/-- `Seal` の結果の三つの場合：止められてブロックなし、誤り、`sigHash` の署名を末尾に写したブロック。 -/
theorem seal_cases {d : Dpos} {cr : Crypto} {chain : ChainReader} {block : Block} {now : Int64}
    {stopped : Bool} {r : Except DposError (Option Block)} (h : d.seal cr chain block now stopped = r) :
    r = .ok none ∨
    (∃ e, r = .error e ∧ (e = .panic "slice bounds out of range" → sigHash cr.hashing block.header = none)) ∨
    ∃ m sig, sigHash cr.hashing block.header = some m ∧ d.signFn d.signer m = .ok sig ∧
      r = .ok (some (block.withSeal { block.header with extra := sealExtra block.header.extra sig })) := by
  unfold Dpos.seal at h
  dsimp only at h
  subst h
  split_ifs
  · exact .inr (.inl ⟨_, rfl, nofun⟩)
  split
  · exact .inr (.inl ⟨_, rfl, by simp⟩)
  split
  · exact .inr (.inl ⟨_, rfl, by simp⟩)
  split_ifs
  · exact .inl rfl
  split
  · exact .inr (.inl ⟨_, rfl, fun _ => ‹_›⟩)
  split
  · exact .inr (.inl ⟨_, rfl, nofun⟩)
  · exact .inr (.inr ⟨_, _, ‹_›, ‹_›, rfl⟩)

theorem seal_eq {d : Dpos} {cr : Crypto} {chain : ChainReader} {block b : Block} {now : Int64}
    {stopped : Bool} (h : d.seal cr chain block now stopped = .ok (some b)) :
    ∃ m sig, sigHash cr.hashing block.header = some m ∧ d.signFn d.signer m = .ok sig ∧
      b.header = { block.header with extra := sealExtra block.header.extra sig } := by
  obtain he | ⟨e, he, -⟩ | ⟨m, sig, hm, hf, he⟩ := seal_cases h <;> cases he
  exact ⟨m, sig, hm, hf, rfl⟩

theorem seal_number_ne_zero {d : Dpos} {cr : Crypto} {chain : ChainReader} {block b : Block} {now : Int64}
    {stopped : Bool} (h : d.seal cr chain block now stopped = .ok (some b)) :
    bigUint64 block.header.number ≠ 0 := by
  intro h0
  simp only [Dpos.seal, h0, ↓reduceIte, reduceCtorEq] at h

theorem length_sealExtra {extra sig : Bytes} (h : extraSeal ≤ extra.length) :
    (sealExtra extra sig).length = extra.length := by
  simp only [sealExtra, List.length_append, List.length_take, length_goCopy, List.length_drop]
  omega

theorem take_sealExtra {extra sig : Bytes} (h : extraSeal ≤ extra.length) :
    (sealExtra extra sig).take (extra.length - extraSeal) = extra.take (extra.length - extraSeal) := by
  rw [sealExtra, List.take_left' (by simp only [List.length_take]; omega)]

theorem drop_sealExtra {extra sig : Bytes} (h : extraSeal ≤ extra.length) (hs : sig.length = extraSeal) :
    (sealExtra extra sig).drop (extra.length - extraSeal) = sig := by
  rw [sealExtra, List.drop_left' (by simp only [List.length_take]; omega),
    goCopy_of_length_eq (by simp only [List.length_drop]; omega)]

/-- `sigHash` は `Extra` を末尾 65 バイトを除いた部分でしか読まない。 -/
theorem sigHash_sealExtra (H : Hashing) (header : Header) (sig : Bytes)
    (h : extraSeal ≤ header.extra.length) :
    sigHash H { header with extra := sealExtra header.extra sig } = sigHash H header := by
  simp only [sigHash, sigHashItems, length_sealExtra h, take_sealExtra h]

theorem seal_ne_slice_panic {d : Dpos} {cr : Crypto} {chain : ChainReader} {block : Block} {now : Int64}
    {stopped : Bool} (h : extraSeal ≤ block.header.extra.length) :
    d.seal cr chain block now stopped ≠ .error (.panic "slice bounds out of range") := by
  intro hp
  obtain he | ⟨e, he, hs⟩ | ⟨m, sig, -, -, he⟩ := seal_cases hp <;> cases he
  have := hs rfl
  rw [sigHash, if_neg (by omega)] at this
  cases this

/-! ## 署名者の復元 -/

theorem recoverSigner_sealExtra {cr : Crypto} {header : Header} {sig m pub : Bytes}
    (h : extraSeal ≤ header.extra.length) (hs : sig.length = extraSeal)
    (hm : sigHash cr.hashing header = some m) (hpub : cr.ecrecover m sig = .ok pub) :
    recoverSigner cr { header with extra := sealExtra header.extra sig } = .ok (pubkeyToAddress cr pub) := by
  have hl : (sealExtra header.extra sig).length = header.extra.length := length_sealExtra h
  unfold recoverSigner
  rw [if_neg (by simp only [hl]; omega), hl, drop_sealExtra h hs, sigHash_sealExtra _ _ _ h]
  simp only [hm, hpub]

/-- 署名者のキャッシュが健全：ヘッダのハッシュのもとにある値は、そのヘッダの署名から復元される値である。 -/
def CacheSound (cr : Crypto) (sigcache : SigCache) : Prop :=
  ∀ h a, sigcache (cr.headerHash h) = some a → recoverSigner cr h = .ok a

section

variable {cr : Crypto} {sigcache : SigCache} {header : Header}

theorem ecrecover_of_recoverSigner (hc : CacheSound cr sigcache) {s : Address}
    (h : recoverSigner cr header = .ok s) : (ecrecover cr header sigcache).1 = .ok s := by
  cases hk : sigcache (cr.headerHash header) with
  | none => simp only [ecrecover, hk, h]
  | some a => simp only [ecrecover, hk, ← h, hc header a hk]

/-- 同じハッシュのヘッダの署名者が同じなら、`ecrecover` はキャッシュの健全さを保つ。 -/
theorem CacheSound.ecrecover (hc : CacheSound cr sigcache) (header : Header)
    (hcol : ∀ h', cr.headerHash h' = cr.headerHash header → recoverSigner cr h' = recoverSigner cr header) :
    CacheSound cr (ecrecover cr header sigcache).2 := by
  intro h' a ha
  cases hk : sigcache (cr.headerHash header) with
  | some b => simp only [HappyDpos.ecrecover, hk] at ha; exact hc h' a ha
  | none =>
    cases hr : recoverSigner cr header with
    | error e => simp only [HappyDpos.ecrecover, hk, hr] at ha; exact hc h' a ha
    | ok s =>
      simp only [HappyDpos.ecrecover, hk, hr] at ha
      split_ifs at ha with he
      · cases ha; rw [hcol h' he]; exact hr
      · exact hc h' a ha

theorem recoverSigner_ne_panic : recoverSigner cr header ≠ .error (.panic "slice bounds out of range") := by
  unfold recoverSigner
  split_ifs with hl
  · exact fun h => nomatch h
  · have : sigHash cr.hashing header = some _ := if_neg hl
    simp only [this]
    split <;> exact fun h => nomatch h

theorem ecrecover_ne_panic : (ecrecover cr header sigcache).1 ≠ .error (.panic "slice bounds out of range") := by
  cases hk : sigcache (cr.headerHash header) with
  | some b => simp only [ecrecover, hk]; exact fun h => nomatch h
  | none =>
    cases hr : recoverSigner cr header with
    | error e => simp only [ecrecover, hk, hr]; exact hr ▸ recoverSigner_ne_panic
    | ok s => simp only [ecrecover, hk, hr]; exact fun h => nomatch h

@[simp] theorem verifyBlockSigner_snd (v : Address) :
    (verifyBlockSigner cr sigcache v header).2 = (ecrecover cr header sigcache).2 := by
  unfold verifyBlockSigner
  split <;> (try split_ifs) <;> simp_all

theorem verifyBlockSigner_fst_eq_none {v : Address} :
    (verifyBlockSigner cr sigcache v header).1 = none ↔
      (ecrecover cr header sigcache).1 = .ok v ∧ header.validator = v := by
  unfold verifyBlockSigner
  split <;> rename_i e c he <;> simp only [he]
  · simp
  · split_ifs with h1 h2 <;> simp_all [eq_comm]

theorem verifyBlockSigner_of_ecrecover {s : Address} (h : (ecrecover cr header sigcache).1 = .ok s)
    (hv : header.validator = s) : (verifyBlockSigner cr sigcache s header).1 = none :=
  verifyBlockSigner_fst_eq_none.mpr ⟨h, hv⟩

theorem verifyBlockSigner_eq_of_ecrecover {s : Address} (h : (ecrecover cr header sigcache).1 = .ok s)
    (hv : header.validator = s) :
    verifyBlockSigner cr sigcache s header = (none, (ecrecover cr header sigcache).2) :=
  Prod.ext (verifyBlockSigner_of_ecrecover h hv) (verifyBlockSigner_snd s)

end

/-! ## Prepare から Seal まで -/

/-- `Prepare` の後に `Extra` と `Validator` を変えずに `Seal` したヘッダの署名からは、自分のアドレスが復元される。 -/
theorem seal_recoverSigner {d : Dpos} {cr : Crypto} {chain : ChainReader} {header h1 : Header}
    {block b : Block} {now : Int64} {stopped : Bool} (hp : d.prepare chain header = (h1, none))
    (hfin : block.header.extra = h1.extra ∧ block.header.validator = h1.validator)
    (hsign : ∀ m sig, d.signFn d.signer m = .ok sig →
      sig.length = extraSeal ∧ ∃ pub, cr.ecrecover m sig = .ok pub ∧ pubkeyToAddress cr pub = d.signer)
    (hs : d.seal cr chain block now stopped = .ok (some b)) :
    ∃ m, sigHash cr.hashing block.header = some m ∧ (∃ sig, d.signFn d.signer m = .ok sig) ∧
      sigHash cr.hashing b.header = some m ∧ recoverSigner cr b.header = .ok d.signer ∧
      b.header.validator = d.signer := by
  obtain ⟨hlen, hval⟩ := prepare_spec hp
  have hext : extraSeal ≤ block.header.extra.length := by
    rw [hfin.1, hlen]; exact Nat.le_add_left _ _
  obtain ⟨m, sig, hm, hf, hb⟩ := seal_eq hs
  obtain ⟨hsl, pub, hpub, haddr⟩ := hsign m sig hf
  refine ⟨m, hm, ⟨sig, hf⟩, by rw [hb, sigHash_sealExtra _ _ _ hext, hm], ?_, ?_⟩
  · rw [hb, recoverSigner_sealExtra hext hsl hm hpub, haddr]
  · rw [hb, ← hval, ← hfin.2]

end HappyDpos
