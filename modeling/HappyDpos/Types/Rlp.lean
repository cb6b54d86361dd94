import HappyDpos.Types.Bytes
import Mathlib.Data.Nat.Digits

/-!
# RLP

`rlp` パッケージは dpos のコードの外にある。仕様の「正準な、長さを前置する再帰的な符号」
（§4.A、§6）から、このモデルが使う形だけを書く：バイト列、符号済みの項目の列、非負の整数。
読み取りは `GetValidators` の `DecodeBytes(_, &[]common.Address)` だけを書く。

長さの前置きは最長 8 バイトなので、中身の長さは `2^64` 未満でなければ表せない。
-/

namespace HappyDpos
namespace Rlp

/-- Modelled from the spec: 数の最小のビッグエンディアン表現（0 は空列、先頭は 0 でない）。 -/
def minBE (n : Nat) : Bytes := ((Nat.digits 256 n).reverse.map UInt8.ofNat)

/-- Modelled from the spec: 中身の長さ `size` の見出し（`puthead`）。55 以下は一バイト、それより長ければ
長さの長さと長さ。 -/
def puthead (smalltag largetag size : Nat) : Bytes :=
  if size < 56 then [UInt8.ofNat (smalltag + size)]
  else UInt8.ofNat (largetag + (minBE size).length) :: minBE size

/-- Modelled from the spec: バイト列の符号。0x80 未満の一バイトはそのまま。 -/
def encodeString (b : Bytes) : Bytes :=
  match b with
  | [x] => if x.toNat < 0x80 then [x] else puthead 0x80 0xb7 1 ++ [x]
  | _ => puthead 0x80 0xb7 b.length ++ b

/-- Modelled from the spec: 符号済みの項目を並べた列の符号。 -/
def encodeList (items : List Bytes) : Bytes :=
  puthead 0xc0 0xf7 items.flatten.length ++ items.flatten

/-- Modelled from the spec: 非負の整数（`uint64` と `*big.Int`）の符号。 -/
def encodeUint (n : Nat) : Bytes := encodeString (minBE n)

/-- Modelled from the spec: `*big.Int` の符号。負の数は符号にできない。 -/
def encodeBigInt (x : Int) : Option Bytes :=
  if x < 0 then none else some (encodeUint x.toNat)

/-! ## 読み取り -/

/-- Modelled from the spec: 読み取りの誤り。 -/
inductive Error
  | eof | canonSize | valueTooLarge | expectedList | expectedString | moreThanOneValue
  | stringTooShort | stringTooLong
deriving DecidableEq

/-- 項目の種類。 -/
inductive Kind
  | byte | string | list
deriving DecidableEq

/-- Modelled from the spec: 見出しの後の `size` バイトを中身として切り出す。 -/
def takeContent (k : Kind) (size : Nat) (rest : Bytes) : Except Error (Kind × Bytes × Bytes) :=
  if rest.length < size then .error .valueTooLarge else .ok (k, rest.take size, rest.drop size)

/-- Modelled from the spec: 長い形の見出し。長さは先頭が 0 でなく、56 以上でなければならない。 -/
def longForm (k : Kind) (lenOfLen : Nat) (rest : Bytes) : Except Error (Kind × Bytes × Bytes) :=
  if rest.length < lenOfLen then .error .eof
  else if (rest.take lenOfLen).head? = some 0 then .error .canonSize
  else if readBE (rest.take lenOfLen) < 56 then .error .canonSize
  else takeContent k (readBE (rest.take lenOfLen)) (rest.drop lenOfLen)

/-- Modelled from the spec: 先頭の項目の種類、中身、残り（`Stream.readKind`）。 -/
def readKind : Bytes → Except Error (Kind × Bytes × Bytes)
  | [] => .error .eof
  | b :: rest =>
    if b.toNat < 0x80 then .ok (.byte, [b], rest)
    else if b.toNat < 0xb8 then takeContent .string (b.toNat - 0x80) rest
    else if b.toNat < 0xc0 then longForm .string (b.toNat - 0xb7) rest
    else if b.toNat < 0xf8 then takeContent .list (b.toNat - 0xc0) rest
    else longForm .list (b.toNat - 0xf7) rest

/-- Modelled from the spec: リストの中身を 20 バイトの文字列の列として読む（`fuel` は要素数の上限）。 -/
def decodeAddresses : Nat → Bytes → Except Error (List Address)
  | _, [] => .ok []
  | 0, _ :: _ => .error .eof
  | fuel + 1, b :: bs => do
    let (k, c, rest) ← readKind (b :: bs)
    if k = .list then .error .expectedString
    else if h : c.length = 20 then (⟨c, h⟩ :: ·) <$> decodeAddresses fuel rest
    else if c.length < 20 then .error .stringTooShort
    else .error .stringTooLong

/-- Modelled from the spec: `rlp.DecodeBytes(b, &validators)`、`validators` は `[]common.Address`。
後ろに余りがあれば誤り。 -/
def decodeAddressList (input : Bytes) : Except Error (List Address) := do
  let (k, payload, rest) ← readKind input
  if k ≠ .list then .error .expectedList
  else
    let v ← decodeAddresses payload.length payload
    if rest = [] then .ok v else .error .moreThanOneValue

/-- Modelled from the spec: `rlp.EncodeToBytes(validators)`。 -/
def encodeAddressList (L : List Address) : Bytes :=
  encodeList (L.map fun a => encodeString a.bytes)

/-! ## 往復 -/

theorem readBE_reverse_map (l : List Nat) (hl : ∀ x ∈ l, x < 256) :
    readBE (l.reverse.map UInt8.ofNat) = Nat.ofDigits 256 l := by
  induction l with
  | nil => rfl
  | cons d ds ih =>
    rw [List.reverse_cons, List.map_append, List.map_singleton, readBE_append_single,
      ih fun x hx => hl x (.tail _ hx), Nat.ofDigits_cons, UInt8.toNat_ofNat, Nat.mod_eq_of_lt (hl d (.head _))]
    ring

theorem readBE_minBE (n : Nat) : readBE (minBE n) = n := by
  rw [minBE, readBE_reverse_map _ fun x hx => Nat.digits_lt_base (by norm_num) hx, Nat.ofDigits_digits]

theorem length_minBE_le {n : Nat} (h : n < 2^64) : (minBE n).length ≤ 8 := by
  rcases Nat.eq_zero_or_pos n with rfl | hn
  · simp [minBE]
  · have h1 := Nat.base_pow_length_digits_le 256 n (by norm_num) hn.ne'
    simp only [minBE, List.length_map, List.length_reverse]
    by_contra hc
    have : 256 ^ 9 ≤ 256 ^ (Nat.digits 256 n).length := Nat.pow_le_pow_right (by norm_num) (by omega)
    omega

theorem minBE_ne_nil {n : Nat} (h : n ≠ 0) : minBE n ≠ [] := by
  simpa [minBE] using Nat.digits_ne_nil_iff_ne_zero.mpr h

theorem head_minBE_ne_zero {n : Nat} (h : n ≠ 0) : (minBE n).head? ≠ some 0 := by
  have hd := Nat.getLast_digit_ne_zero 256 h
  have hlt := Nat.digits_lt_base (b := 256) (m := n) (by norm_num)
    (List.getLast_mem (Nat.digits_ne_nil_iff_ne_zero.mpr h))
  rw [minBE, List.head?_map, List.head?_reverse]
  rw [List.getLast?_eq_getLast _ (Nat.digits_ne_nil_iff_ne_zero.mpr h)]
  intro he
  simp only [Option.map_some', Option.some.injEq] at he
  apply hd
  have := congrArg UInt8.toNat he
  rwa [UInt8.toNat_ofNat, Nat.mod_eq_of_lt hlt] at this

theorem readKind_puthead_list (p rest : Bytes) (h : p.length < 2^64) :
    readKind (puthead 0xc0 0xf7 p.length ++ p ++ rest) = .ok (.list, p, rest) := by
  unfold puthead
  split
  · rename_i hs
    have hb : (UInt8.ofNat (0xc0 + p.length)).toNat = 0xc0 + p.length := by
      rw [UInt8.toNat_ofNat]; omega
    simp [readKind, hb, takeContent, show ¬ 192 + p.length < 128 by omega,
      show ¬ 192 + p.length < 184 by omega, show ¬ 192 + p.length < 192 by omega,
      show 192 + p.length < 248 by omega]
  · rename_i hs
    have hl := length_minBE_le h
    have hne := minBE_ne_nil (n := p.length) (by omega)
    have hpos : 0 < (minBE p.length).length := List.length_pos.mpr hne
    have hb : (UInt8.ofNat (0xf7 + (minBE p.length).length)).toNat = 0xf7 + (minBE p.length).length := by
      rw [UInt8.toNat_ofNat]; omega
    simp only [List.cons_append, List.append_assoc, readKind, hb]
    simp only [show ¬ 247 + (minBE p.length).length < 128 by omega,
      show ¬ 247 + (minBE p.length).length < 184 by omega,
      show ¬ 247 + (minBE p.length).length < 192 by omega,
      show ¬ 247 + (minBE p.length).length < 248 by omega, ↓reduceIte,
      show 247 + (minBE p.length).length - 247 = (minBE p.length).length by omega]
    simp [longForm, takeContent, List.take_left', List.drop_left', readBE_minBE,
      head_minBE_ne_zero (n := p.length) (by omega), show ¬ p.length < 56 by omega]

theorem encodeString_address (a : Address) : encodeString a.bytes = 0x94 :: a.bytes := by
  have h := a.length_eq
  unfold encodeString
  split
  · rename_i x hx; simp [hx] at h
  · simp [puthead, h]

theorem readKind_address (a : Address) (rest : Bytes) :
    readKind (encodeString a.bytes ++ rest) = .ok (.string, a.bytes, rest) := by
  have h := a.length_eq
  have h94 : (0x94 : UInt8).toNat = 148 := rfl
  rw [encodeString_address, List.cons_append]
  simp only [readKind, h94, takeContent, List.length_append, h]
  simp [List.take_left', List.drop_left', h]

theorem decodeAddresses_address (a : Address) (fuel : Nat) (rest : Bytes) :
    decodeAddresses (fuel + 1) (encodeString a.bytes ++ rest) = (a :: ·) <$> decodeAddresses fuel rest := by
  have h := readKind_address a rest
  rw [encodeString_address, List.cons_append] at h ⊢
  simp only [decodeAddresses, h, bind, Except.bind, a.length_eq]
  rfl

theorem decodeAddresses_encode (L : List Address) (fuel : Nat) (h : L.length ≤ fuel) :
    decodeAddresses fuel (L.map fun a => encodeString a.bytes).flatten = .ok L := by
  induction L generalizing fuel with
  | nil => simp [decodeAddresses]
  | cons a L ih =>
    obtain ⟨fuel, rfl⟩ : ∃ f, fuel = f + 1 := ⟨fuel - 1, by simp at h; omega⟩
    rw [List.map_cons, List.flatten_cons, decodeAddresses_address, ih fuel (by simp at h; omega)]
    rfl

theorem length_encodeAddresses (L : List Address) :
    (L.map fun a => encodeString a.bytes).flatten.length = 21 * L.length := by
  induction L with
  | nil => rfl
  | cons a L ih =>
    rw [List.map_cons, List.flatten_cons, List.length_append, ih, encodeString_address, List.length_cons,
      a.length_eq, List.length_cons]
    omega

theorem encodeList_ne_nil (items : List Bytes) : encodeList items ≠ [] := by
  simp only [encodeList, puthead, ne_eq, List.append_eq_nil, not_and]
  split_ifs <;> simp

/-- 符号にできる長さの列（中身が `2^64` バイト未満）は、読み戻すと同じ列になる。 -/
theorem decodeAddressList_encodeAddressList (L : List Address) (h : 21 * L.length < 2^64) :
    decodeAddressList (encodeAddressList L) = .ok L := by
  have hl := length_encodeAddresses L
  have hk := readKind_puthead_list (L.map fun a => encodeString a.bytes).flatten [] (by omega)
  rw [List.append_nil] at hk
  simp only [decodeAddressList, encodeAddressList, encodeList, hk, bind, Except.bind,
    decodeAddresses_encode L (L.map fun a => encodeString a.bytes).flatten.length (by omega)]
  rfl

end Rlp

end HappyDpos
