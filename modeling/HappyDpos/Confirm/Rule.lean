import HappyDpos.Engine.Header
import Mathlib.Data.Finset.Card

/-!
# 確定の規則

`updateConfirmedBlockHeader` が何を計算するはずかを、歩みを使わずに書く。頭から親をたどった列の上で、
ヘッダ `h` から頭へ向かって `h` と同じ周期が続く間に積んだ検証者の集合を `R(h)` とし、`R(h)` が
`cs` 人に届く最も高いヘッダを確定させる。`Lemmas/Walk.lean` で、Go の `for` がこれを計算することを示す。
-/

namespace HappyDpos

namespace ChainReader

/-- `h` から `ParentHash` で親をたどって `g` に着く。 -/
inductive Reaches (chain : ChainReader) : Header → Header → Prop
  | refl (h : Header) : chain.Reaches h h
  | parent {h p g : Header} :
      chain.getHeaderByHash h.parentHash = some p → chain.Reaches p g → chain.Reaches h g

/-- 頭 `g` から親をたどった `n` 個までのヘッダ。親が読めなければそこで終わる。 -/
def path (chain : ChainReader) : Nat → Header → List Header
  | 0, _ => []
  | n + 1, g => g :: match chain.getHeaderByHash g.parentHash with
    | none => []
    | some p => chain.path n p

theorem Reaches.trans_parent {chain : ChainReader} {h g p : Header} (hr : chain.Reaches h g)
    (hp : chain.getHeaderByHash g.parentHash = some p) : chain.Reaches h p := by
  induction hr with
  | refl => exact .parent hp (.refl p)
  | parent hq _ ih => exact .parent hq (ih hp)

theorem Reaches.mem_of_closed {chain : ChainReader} {S : List Header}
    (hS : ∀ x ∈ S, ((chain.getHeaderByHash x.parentHash).all fun p => p ∈ S) = true) {h g : Header}
    (hr : chain.Reaches h g) (hh : h ∈ S) : g ∈ S := by
  induction hr with
  | refl => exact hh
  | parent hp _ ih =>
    have := hS _ hh
    rw [hp] at this
    exact ih (by simpa using this)

theorem length_path_le (chain : ChainReader) : ∀ (n : Nat) (g : Header), (chain.path n g).length ≤ n
  | 0, _ => Nat.le_refl 0
  | n + 1, g => by
    rw [path]
    split
    · simp
    · have := length_path_le chain n ‹_›
      simp only [List.length_cons]; omega

end ChainReader

/-- 周期 `Time / 86400`（Go の切り捨ての除算）。 -/
def timeEpoch (g : Header) : Int := g.time.tdiv 86400

/-- `g` の上のヘッダ `up`（近い順）を、`g` と同じ周期が続く間たどったときの検証者。 -/
def epochWitnesses (g : Header) (up : List Header) : Finset Address :=
  ((up.takeWhile fun x => timeEpoch x = timeEpoch g).map Header.validator).toFinset

/-- 列 `ps`（高い順）のうち、`R(h) = epochWitnesses h (h :: up)` が `cs` 人に届く最初のヘッダ。
`up` は `ps` より上のヘッダ（近い順）。 -/
def firstConfirmable (cs : Nat) : List Header → List Header → Option Header
  | [], _ => none
  | h :: ps, up =>
    if cs ≤ (epochWitnesses h (h :: up)).card then some h else firstConfirmable cs ps (h :: up)

/-! ## 同じ周期の検証者 -/

@[simp] theorem epochWitnesses_nil (g : Header) : epochWitnesses g [] = ∅ := rfl

theorem epochWitnesses_self (g : Header) (up : List Header) :
    epochWitnesses g (g :: up) = insert g.validator (epochWitnesses g up) := by
  rw [epochWitnesses, List.takeWhile_cons_of_pos (by simp)]
  simp [epochWitnesses]

theorem epochWitnesses_of_ne {g u : Header} (up : List Header) (h : timeEpoch u ≠ timeEpoch g) :
    epochWitnesses g (u :: up) = ∅ := by
  rw [epochWitnesses, List.takeWhile_cons_of_neg (by simpa using h)]
  rfl

theorem epochWitnesses_congr {g u : Header} (up : List Header) (h : timeEpoch g = timeEpoch u) :
    epochWitnesses g up = epochWitnesses u up := by
  simp only [epochWitnesses, h]

theorem card_epochWitnesses_cons_le (g h : Header) (up : List Header) :
    (epochWitnesses h (g :: up)).card ≤ (epochWitnesses g up).card + 1 := by
  by_cases he : timeEpoch g = timeEpoch h
  · rw [epochWitnesses_congr _ he.symm, epochWitnesses_self]
    exact Finset.card_insert_le _ _
  · rw [epochWitnesses_of_ne up he]
    simp

/-! ## 最初に届くヘッダ -/

/-- 残りのヘッダの数に集めた検証者の数を足しても `cs` に届かなければ、何も確定しない（早い戻りの理由）。 -/
theorem firstConfirmable_eq_none {cs : Nat} :
    ∀ (ps : List Header) (g : Header) (up : List Header),
      (g :: ps).length + (epochWitnesses g up).card < cs → firstConfirmable cs (g :: ps) up = none
  | ps, g, up, h => by
    have hg : ¬ cs ≤ (epochWitnesses g (g :: up)).card := by
      rw [epochWitnesses_self]
      have := Finset.card_insert_le g.validator (epochWitnesses g up)
      simp only [List.length_cons] at h
      omega
    rw [firstConfirmable, if_neg hg]
    match ps with
    | [] => rfl
    | h' :: ps =>
      have := card_epochWitnesses_cons_le g h' up
      exact firstConfirmable_eq_none ps h' (g :: up) (by simp only [List.length_cons] at h ⊢; omega)

theorem firstConfirmable_mem {cs : Nat} {h : Header} :
    ∀ {ps up : List Header}, firstConfirmable cs ps up = some h → h ∈ ps
  | [], _, hf => nomatch hf
  | g :: ps, up, hf => by
    rw [firstConfirmable] at hf
    split_ifs at hf
    · cases hf; exact List.mem_cons_self _ _
    · exact List.mem_cons_of_mem _ (firstConfirmable_mem hf)

theorem firstConfirmable_eq_some {cs : Nat} {h : Header} :
    ∀ (ps up : List Header), firstConfirmable cs ps up = some h →
      ∃ pre post, ps = pre ++ h :: post ∧ cs ≤ (epochWitnesses h (h :: (pre.reverse ++ up))).card ∧
        ∀ pre₁ g pre₂, pre = pre₁ ++ g :: pre₂ → (epochWitnesses g (g :: (pre₁.reverse ++ up))).card < cs
  | [], _, hf => nomatch hf
  | g :: ps, up, hf => by
    rw [firstConfirmable] at hf
    split_ifs at hf with hc
    · cases hf
      exact ⟨[], ps, rfl, hc, fun pre₁ _ _ he => absurd he (by simp)⟩
    · obtain ⟨pre, post, rfl, hh, habove⟩ := firstConfirmable_eq_some ps (g :: up) hf
      refine ⟨g :: pre, post, rfl, by simpa using hh, fun pre₁ g' pre₂ he => ?_⟩
      cases pre₁ with
      | nil => cases he; exact Nat.lt_of_not_le hc
      | cons x pre₁ =>
        cases he
        simpa using habove pre₁ g' pre₂ rfl

end HappyDpos
