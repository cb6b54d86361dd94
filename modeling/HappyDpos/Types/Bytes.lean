import Mathlib.Data.List.Basic
import Mathlib.Algebra.Group.Int

/-!
# バイト列、アドレス、Go の機械整数

`go-ethereum` の `[]byte`、`common.Address`、`int64`、`big.Int` の読み出し（`Uint64()`、`Int64()`）、
`encoding/binary` のビッグエンディアン符号を、このモデルの型と関数で表す。`uint64` は自然数に
`% 2^64` を明示して扱う。
-/

namespace HappyDpos

/-- `[]byte`。Go の `nil` は空列と同じに扱う（`bytes.Equal` も `len` もそう扱う）。 -/
abbrev Bytes := List UInt8

/-- `common.Address`。20 バイトであることを型が持つ。 -/
structure Address where
  bytes : Bytes
  length_eq : bytes.length = 20
deriving DecidableEq

namespace Address

/-- `common.Address{}`。 -/
def zero : Address := ⟨List.replicate 20 0, rfl⟩

theorem bytes_inj {a b : Address} : a.bytes = b.bytes ↔ a = b := by
  cases a; cases b; simp

theorem bytes_ne_nil (a : Address) : a.bytes ≠ [] := by
  intro h; have := a.length_eq; simp [h] at this

theorem append_inj {c v c' v' : Address} :
    c.bytes ++ v.bytes = c'.bytes ++ v'.bytes ↔ c = c' ∧ v = v' := by
  constructor
  · intro h
    obtain ⟨h1, h2⟩ := List.append_inj h (by rw [c.length_eq, c'.length_eq])
    exact ⟨bytes_inj.mp h1, bytes_inj.mp h2⟩
  · rintro ⟨rfl, rfl⟩; rfl

theorem prefix_eq {c c' : Address} {s s' : Bytes} (h : c.bytes ++ s = c'.bytes ++ s') :
    c = c' ∧ s = s' := by
  obtain ⟨h1, h2⟩ := List.append_inj h (by rw [c.length_eq, c'.length_eq])
  exact ⟨bytes_inj.mp h1, h2⟩

/-- 20 バイトのバイト列をアドレスとして読む。長さが違えば `none`。 -/
def ofBytes? (b : Bytes) : Option Address :=
  if h : b.length = 20 then some ⟨b, h⟩ else none

@[simp] theorem ofBytes?_bytes (a : Address) : ofBytes? a.bytes = some a := by
  simp [ofBytes?, a.length_eq]

theorem ofBytes?_eq_some {b : Bytes} {a : Address} : ofBytes? b = some a ↔ b = a.bytes := by
  constructor
  · intro h
    unfold ofBytes? at h
    split at h
    · cases h; rfl
    · cases h
  · rintro rfl; exact ofBytes?_bytes a

end Address

/-! ## 辞書式順序 -/

namespace Bytes

/-- バイト列の辞書式順序（`bytes.Compare(a, b) < 0`）。trie の反復はこの順でキーを返す。 -/
def lt : Bytes → Bytes → Bool
  | [], [] => false
  | [], _ :: _ => true
  | _ :: _, [] => false
  | a :: as, b :: bs => if a = b then lt as bs else a.toNat < b.toNat

theorem lt_irrefl : ∀ a : Bytes, lt a a = false
  | [] => rfl
  | _ :: as => by simp [lt, lt_irrefl as]

theorem lt_trans : ∀ {a b c : Bytes}, lt a b → lt b c → lt a c
  | [], _ :: _, _ :: _, _, _ => rfl
  | x :: as, y :: bs, z :: cs, h1, h2 => by
    simp only [lt] at h1 h2 ⊢
    have hxy := @UInt8.toNat.inj x y
    have hyz := @UInt8.toNat.inj y z
    have hxz := @UInt8.toNat.inj x z
    by_cases e1 : x = y <;> by_cases e2 : y = z <;> simp only [e1, e2, ↓reduceIte] at h1 h2
    · subst e1 e2; simpa using lt_trans h1 h2
    · subst e1; simpa [e2] using h2
    · subst e2; simpa [e1] using h1
    · have : x ≠ z := fun h => by subst h; simp only [decide_eq_true_eq] at h1 h2; omega
      simp only [this, ↓reduceIte, decide_eq_true_eq] at h1 h2 ⊢; omega
  | [], [], _, h, _ => by simp [lt] at h
  | _ :: _, [], _, h, _ => by simp [lt] at h
  | _, _ :: _, [], _, h => by simp [lt] at h

theorem lt_total : ∀ {a b : Bytes}, a ≠ b → lt a b = false → lt b a
  | [], [], h, _ => absurd rfl h
  | [], _ :: _, _, h => by simp [lt] at h
  | _ :: _, [], _, _ => rfl
  | x :: as, y :: bs, h, h' => by
    simp only [lt] at h' ⊢
    by_cases e : x = y
    · subst e; simp only [↓reduceIte] at h' ⊢; exact lt_total (by simpa using h) h'
    · have hne : y ≠ x := Ne.symm e
      have : x.toNat ≠ y.toNat := fun h => e (UInt8.toNat.inj h)
      simp only [e, hne, ↓reduceIte, decide_eq_false_iff_not, decide_eq_true_eq] at h' ⊢; omega

/-- キーの先頭に `p` があれば、そのキーは `p` より小さくない（`NodeIterator(p)` はそこから始まる）。 -/
theorem lt_append_self : ∀ (p s : Bytes), lt (p ++ s) p = false
  | [], [] => rfl
  | [], _ :: _ => rfl
  | _ :: p, s => by simp [lt, lt_append_self p s]

end Bytes

/-! ## `uint64`

Go の `uint64` は Lean の `UInt64`。演算は 2^64 を法とし、次の等式で自然数の演算に移す。 -/

namespace UInt64

@[simp] theorem toNat_ofNat_mod (n : Nat) : (UInt64.ofNat n).toNat = n % 2^64 := rfl
theorem toNat_add_mod (a b : UInt64) : (a + b).toNat = (a.toNat + b.toNat) % 2^64 := rfl
theorem toNat_mul_mod (a b : UInt64) : (a * b).toNat = (a.toNat * b.toNat) % 2^64 := rfl
theorem toNat_sub_mod (a b : UInt64) : (a - b).toNat = (2^64 - b.toNat + a.toNat) % 2^64 := rfl
theorem le_iff_toNat (a b : UInt64) : a ≤ b ↔ a.toNat ≤ b.toNat := Iff.rfl
theorem lt_iff_toNat (a b : UInt64) : a < b ↔ a.toNat < b.toNat := Iff.rfl
theorem toNat_lt (a : UInt64) : a.toNat < 2^64 := a.toNat_lt_size

end UInt64

/-! ## `int64` と `big.Int` -/

/-- `int64` への折り返し（2 の補数）。 -/
def wrap64 (x : Int) : Int := (2^63 + x) % 2^64 - 2^63

theorem wrap64_of_range {x : Int} (h1 : -2^63 ≤ x) (h2 : x < 2^63) : wrap64 x = x := by
  unfold wrap64; omega

/-- Go の `int64`。値の範囲を型が持つ。 -/
structure Int64 where
  val : Int
  ge : -2^63 ≤ val
  lt : val < 2^63
deriving DecidableEq

namespace Int64

/-- 整数を `int64` に変換する（範囲外は折り返す）。`int64(x)` の変換と、`int64` 演算の結果。 -/
def ofInt (x : Int) : Int64 := ⟨wrap64 x, by unfold wrap64; omega, by unfold wrap64; omega⟩

@[simp] theorem ofInt_val (x : Int) : (ofInt x).val = wrap64 x := rfl

theorem ofInt_val_of_range {x : Int} (h1 : -2^63 ≤ x) (h2 : x < 2^63) : (ofInt x).val = x :=
  wrap64_of_range h1 h2

theorem ext {a b : Int64} (h : a.val = b.val) : a = b := by
  cases a; cases b; simp at h; simp [h]

instance : Sub Int64 := ⟨fun a b => ofInt (a.val - b.val)⟩
instance : Add Int64 := ⟨fun a b => ofInt (a.val + b.val)⟩
instance : Mul Int64 := ⟨fun a b => ofInt (a.val * b.val)⟩

@[simp] theorem sub_val (a b : Int64) : (a - b).val = wrap64 (a.val - b.val) := rfl
@[simp] theorem add_val (a b : Int64) : (a + b).val = wrap64 (a.val + b.val) := rfl
@[simp] theorem mul_val (a b : Int64) : (a * b).val = wrap64 (a.val * b.val) := rfl

/-- 0 でない数での `a / b`：0 に向けて切り捨て、結果は折り返す（`MinInt64 / -1` は `MinInt64`）。 -/
def quot (a b : Int64) : Int64 := ofInt (a.val.tdiv b.val)

/-- Go の `int64` の除算。0 で割ると panic（`none`）。 -/
def div (a b : Int64) : Option Int64 :=
  if b.val = 0 then none else some (a.quot b)

/-! 結果が範囲に収まる演算は整数の演算と同じ。 -/

@[simp] theorem one_val : (ofInt 1).val = 1 := rfl

section Range

variable {a b : Int64}

theorem sub_val_of_range (h1 : -2^63 ≤ a.val - b.val) (h2 : a.val - b.val < 2^63) :
    (a - b).val = a.val - b.val := wrap64_of_range h1 h2

theorem add_val_of_range (h1 : -2^63 ≤ a.val + b.val) (h2 : a.val + b.val < 2^63) :
    (a + b).val = a.val + b.val := wrap64_of_range h1 h2

theorem mul_val_of_range (h1 : -2^63 ≤ a.val * b.val) (h2 : a.val * b.val < 2^63) :
    (a * b).val = a.val * b.val := wrap64_of_range h1 h2

theorem quot_val_of_nonneg (ha : 0 ≤ a.val) (hb : 0 < b.val) : (a.quot b).val = a.val / b.val := by
  have := Int.ediv_nonneg ha (Int.le_of_lt hb)
  have := Int.ediv_le_self b.val ha
  have := a.lt
  rw [quot, ofInt_val, Int.tdiv_eq_ediv ha (Int.le_of_lt hb), wrap64_of_range] <;> omega

theorem div_of_ne_zero (hb : b.val ≠ 0) : a.div b = some (a.quot b) := if_neg hb

end Range

/-- `uint64(x)`：2 の補数のビット列をそのまま読む。 -/
def toUInt64 (x : Int64) : UInt64 := UInt64.ofNat (x.val % 2^64).toNat

/-- `int64(v)`：`uint64` のビット列を 2 の補数で読む。 -/
def ofUInt64 (v : UInt64) : Int64 := ofInt v.toNat

theorem toUInt64_inj {a b : Int64} : a.toUInt64 = b.toUInt64 ↔ a = b := by
  constructor
  · intro h
    have h' := congrArg UInt64.toNat h
    have := a.ge; have := a.lt; have := b.ge; have := b.lt
    simp only [toUInt64, UInt64.toNat_ofNat_mod] at h'
    apply ext; omega
  · rintro rfl; rfl

end Int64

/-- `(*big.Int).Uint64()`：絶対値の下位 64 ビット。 -/
def bigUint64 (x : Int) : UInt64 := UInt64.ofNat x.natAbs

/-- `(*big.Int).Int64()`：絶対値の下位 64 ビットを `int64` として読み、負なら符号を反転する。 -/
def bigInt64 (x : Int) : Int64 :=
  let v := Int64.ofInt (x.natAbs % 2^64 : Nat)
  if x < 0 then Int64.ofInt (-v.val) else v

theorem bigUint64_of_range {x : Int} (h1 : 0 ≤ x) (h2 : x < 2^64) : ((bigUint64 x).toNat : Int) = x := by
  simp only [bigUint64, UInt64.toNat_ofNat_mod]; omega

theorem bigInt64_of_range {x : Int} (h1 : -2^63 ≤ x) (h2 : x < 2^63) : (bigInt64 x).val = x := by
  simp only [bigInt64]
  split_ifs <;> simp only [Int64.ofInt_val, wrap64] <;> omega

/-- 負でない二つの数は `Int64()` で折り返して読んでも、差が `2^63` より小さければ差は正しい。 -/
theorem bigInt64_sub_of_range {x y : Int} (hy : 0 ≤ y) (hxy : y ≤ x) (hd : x - y < 2^63) :
    (bigInt64 x - bigInt64 y).val = x - y := by
  simp only [bigInt64, if_neg (Int.not_lt.mpr hy), if_neg (Int.not_lt.mpr (Int.le_trans hy hxy)),
    Int64.sub_val, Int64.ofInt_val, wrap64]
  omega

/-! ## ビッグエンディアン -/

/-- 幅 `w` バイトのビッグエンディアン表現（上位の桁は捨てる）。 -/
def putBE : Nat → Nat → Bytes
  | 0, _ => []
  | w + 1, n => putBE w (n / 256) ++ [UInt8.ofNat n]

/-- ビッグエンディアンのバイト列を数として読む。 -/
def readBE (b : Bytes) : Nat := b.foldl (fun acc x => acc * 256 + x.toNat) 0

theorem UInt8.toNat_ofNat (n : Nat) : (UInt8.ofNat n).toNat = n % 256 := BitVec.toNat_ofNat n 8

@[simp] theorem length_putBE : ∀ w n, (putBE w n).length = w
  | 0, _ => rfl
  | w + 1, n => by simp [putBE, length_putBE w]

theorem readBE_append_single (b : Bytes) (x : UInt8) :
    readBE (b ++ [x]) = readBE b * 256 + x.toNat := by
  simp [readBE, List.foldl_append]

theorem readBE_putBE : ∀ w n, readBE (putBE w n) = n % 256 ^ w
  | 0, _ => by simp [putBE, readBE, Nat.mod_one]
  | w + 1, n => by
    rw [putBE, readBE_append_single, readBE_putBE w, UInt8.toNat_ofNat, Nat.pow_succ', Nat.mod_mul,
      Nat.mul_comm, Nat.add_comm]

/-- `binary.BigEndian.PutUint64`：`uint64` を 8 バイトに書く。 -/
def putUint64 (v : UInt64) : Bytes := putBE 8 v.toNat

/-- `binary.BigEndian.Uint64`：先頭 8 バイトを読む。8 バイトに満たなければ panic（`none`）。 -/
def uint64BE (b : Bytes) : Option UInt64 :=
  if b.length < 8 then none else some (UInt64.ofNat (readBE (b.take 8)))

@[simp] theorem length_putUint64 (v : UInt64) : (putUint64 v).length = 8 := length_putBE 8 v.toNat

theorem putUint64_ne_nil (v : UInt64) : putUint64 v ≠ [] :=
  fun h => by simpa [h] using length_putUint64 v

theorem readBE_putUint64 (v : UInt64) : readBE (putUint64 v) = v.toNat := by
  rw [putUint64, readBE_putBE]
  exact Nat.mod_eq_of_lt (UInt64.toNat_lt v)

theorem uint64BE_putUint64 (v : UInt64) : uint64BE (putUint64 v) = some v := by
  simp only [uint64BE, length_putUint64, List.take_of_length_le (le_of_eq (length_putUint64 v)),
    readBE_putUint64]
  exact congrArg some (UInt64.toNat.inj (Nat.mod_eq_of_lt (UInt64.toNat_lt v)))

theorem putUint64_inj {a b : UInt64} : putUint64 a = putUint64 b ↔ a = b :=
  ⟨fun h => UInt64.toNat.inj (by simpa only [readBE_putUint64] using congrArg readBE h),
    fun h => h ▸ rfl⟩

/-- Go の `copy(dst, src)`：`dst` の先頭から `min(len(dst), len(src))` バイトを上書きする。 -/
def goCopy (dst src : Bytes) : Bytes := src.take dst.length ++ dst.drop src.length

@[simp] theorem length_goCopy (dst src : Bytes) : (goCopy dst src).length = dst.length := by
  simp [goCopy]; omega

theorem goCopy_of_length_eq {dst src : Bytes} (h : src.length = dst.length) : goCopy dst src = src := by
  simp [goCopy, h]

end HappyDpos
