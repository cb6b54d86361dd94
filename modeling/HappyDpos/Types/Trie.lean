import HappyDpos.Types.Bytes

/-!
# trie の内容

`trie.Trie` を、キーの辞書式順に厳密に並んだ有限写像として表す。並びが一通りに決まるので、
内容の同じ trie は同じ値になる（`Trie.ext`）。`TryUpdate` は空の値を削除として扱い、`TryDelete` は
ないキーを誤りにしない。このモデルでは記憶域の誤り（`MissingNodeError`）は起きない。

反復器は二つ使われる。`PrefixIterator(p)` は `p` で始まるキーを昇順に返し、`NodeIterator(start)` は
`start` 以上のキーから始まる。どちらも作った時点の内容を返す（trie の節は書き換えで複製される）。
-/

namespace HappyDpos

/-- 列からキー `k` の値を探す。 -/
def lookup (k : Bytes) : List (Bytes × Bytes) → Option Bytes
  | [] => none
  | e :: es => if e.1 = k then some e.2 else lookup k es

/-- 昇順を保って `(k, v)` を入れる。同じキーがあれば値を置き換える。 -/
def insertSorted (k v : Bytes) : List (Bytes × Bytes) → List (Bytes × Bytes)
  | [] => [(k, v)]
  | e :: es =>
    if e.1 = k then (k, v) :: es
    else if Bytes.lt k e.1 then (k, v) :: e :: es
    else e :: insertSorted k v es

/-- キーの昇順に厳密に並んでいる。 -/
def KeysSorted (es : List (Bytes × Bytes)) : Prop := es.Pairwise (fun a b => Bytes.lt a.1 b.1)

theorem lookup_insertSorted (k v k' : Bytes) :
    ∀ es, lookup k' (insertSorted k v es) = if k' = k then some v else lookup k' es
  | [] => by
    by_cases h : k' = k
    · subst h; simp [insertSorted, lookup]
    · simp [insertSorted, lookup, h, Ne.symm h]
  | e :: es => by
    have ih := lookup_insertSorted k v k' es
    by_cases h : k' = k
    · subst h
      simp only [↓reduceIte] at ih ⊢
      unfold insertSorted
      split_ifs with h1 <;> simp [lookup, h1, ih]
    · simp only [h, ↓reduceIte] at ih ⊢
      unfold insertSorted
      split_ifs with h1 <;> simp [lookup, h1, ih, Ne.symm h]

theorem lookup_filter (k k' : Bytes) :
    ∀ es, lookup k' (es.filter (fun e => !decide (e.1 = k))) = if k' = k then none else lookup k' es
  | [] => by simp [lookup]
  | e :: es => by
    have ih := lookup_filter k k' es
    by_cases h : k' = k
    · subst h
      simp only [↓reduceIte] at ih ⊢
      by_cases h1 : e.1 = k' <;> simp [List.filter_cons, lookup, h1, ih]
    · simp only [h, ↓reduceIte] at ih ⊢
      by_cases h1 : e.1 = k <;> simp [List.filter_cons, lookup, h1, ih, Ne.symm h]

theorem mem_of_lookup {k v : Bytes} : ∀ {es}, lookup k es = some v → (k, v) ∈ es
  | e :: es, h => by
    unfold lookup at h
    split at h
    · cases h; rename_i he; simp [← he]
    · exact List.mem_cons_of_mem _ (mem_of_lookup h)

theorem mem_insertSorted {k v : Bytes} {x : Bytes × Bytes} :
    ∀ {es}, x ∈ insertSorted k v es → x = (k, v) ∨ x ∈ es
  | [], h => by simpa [insertSorted] using h
  | e :: es, h => by
    unfold insertSorted at h
    split at h
    · rcases List.mem_cons.mp h with h | h
      · exact .inl h
      · exact .inr (List.mem_cons_of_mem _ h)
    · split at h
      · simpa using h
      · rcases List.mem_cons.mp h with h | h
        · exact .inr (h ▸ List.mem_cons_self _ _)
        · exact (mem_insertSorted h).imp id (List.mem_cons_of_mem _)

theorem insertSorted_sorted (k v : Bytes) : ∀ {es}, KeysSorted es → KeysSorted (insertSorted k v es)
  | [], _ => List.pairwise_singleton _ _
  | e :: es, h => by
    rw [KeysSorted, List.pairwise_cons] at h
    unfold insertSorted
    split
    · rename_i he
      exact List.pairwise_cons.mpr ⟨fun x hx => he ▸ h.1 x hx, h.2⟩
    · split
      · rename_i _ hlt
        refine List.pairwise_cons.mpr ⟨fun x hx => ?_, List.pairwise_cons.mpr h⟩
        rcases List.mem_cons.mp hx with rfl | hx
        · exact hlt
        · exact Bytes.lt_trans hlt (h.1 x hx)
      · rename_i hne hlt
        refine List.pairwise_cons.mpr ⟨fun x hx => ?_, insertSorted_sorted k v h.2⟩
        rcases mem_insertSorted hx with rfl | hx
        · exact Bytes.lt_total (Ne.symm hne) (by simpa using hlt)
        · exact h.1 x hx

theorem insertSorted_of_lookup {k v : Bytes} :
    ∀ {es}, KeysSorted es → lookup k es = some v → insertSorted k v es = es
  | e :: es, hs, h => by
    rw [KeysSorted, List.pairwise_cons] at hs
    unfold lookup at h
    unfold insertSorted
    split_ifs at h ⊢ with h1 h2
    · cases h; rw [← h1]
    · have := hs.1 _ (mem_of_lookup h)
      simp only at this
      have := Bytes.lt_trans h2 this
      rw [Bytes.lt_irrefl] at this; cases this
    · rw [insertSorted_of_lookup hs.2 h]

/-- `trie.Trie` の内容。キーは昇順に厳密に並び、値は空でない。 -/
structure Trie where
  entries : List (Bytes × Bytes)
  sorted : KeysSorted entries
  values_ne_nil : ∀ e ∈ entries, e.2 ≠ []

namespace Trie

/-- 空の trie（根は `emptyRoot`）。 -/
def empty : Trie := ⟨[], List.Pairwise.nil, by simp⟩

/-- `Get` / `TryGet`。ないキーは `nil`（`none`）。 -/
def get (t : Trie) (k : Bytes) : Option Bytes := lookup k t.entries

/-- 空でない値を入れる。 -/
def insert (t : Trie) (k v : Bytes) (hv : v ≠ []) : Trie where
  entries := insertSorted k v t.entries
  sorted := insertSorted_sorted k v t.sorted
  values_ne_nil e he := by
    rcases mem_insertSorted he with rfl | he
    · exact hv
    · exact t.values_ne_nil e he

/-- `TryDelete` / `Delete`。ないキーでも誤りにしない。 -/
def delete (t : Trie) (k : Bytes) : Trie where
  entries := t.entries.filter (fun e => !decide (e.1 = k))
  sorted := t.sorted.sublist (List.filter_sublist _)
  values_ne_nil e he := t.values_ne_nil e (List.mem_of_mem_filter he)

/-- `TryUpdate` / `Update`。空の値は削除として扱う。 -/
def update (t : Trie) (k v : Bytes) : Trie :=
  if h : v = [] then t.delete k else t.insert k v h

/-- `NewIterator(PrefixIterator(p))` が返す `(キー, 値)` の列（キーの昇順）。 -/
def prefixEntries (t : Trie) (p : Bytes) : List (Bytes × Bytes) :=
  t.entries.filter (fun e => p.isPrefixOf e.1)

/-- `NewIterator(NodeIterator(start)).Next()`：`start` 以上のキーがあるか。 -/
def hasKeyFrom (t : Trie) (start : Bytes) : Bool :=
  t.entries.any (fun e => !Bytes.lt e.1 start)

@[simp] theorem get_empty (k : Bytes) : empty.get k = none := rfl

theorem ext_entries {t t' : Trie} (h : t.entries = t'.entries) : t = t' := by
  cases t; cases t'; cases h; rfl

theorem get_insert (t : Trie) (k v k' : Bytes) (hv : v ≠ []) :
    (t.insert k v hv).get k' = if k' = k then some v else t.get k' :=
  lookup_insertSorted k v k' t.entries

theorem get_delete (t : Trie) (k k' : Bytes) :
    (t.delete k).get k' = if k' = k then none else t.get k' :=
  lookup_filter k k' t.entries

@[simp] theorem get_delete_self (t : Trie) (k : Bytes) : (t.delete k).get k = none := by
  simp [get_delete]

theorem get_delete_of_ne (t : Trie) {k k' : Bytes} (h : k' ≠ k) : (t.delete k).get k' = t.get k' := by
  simp [get_delete, h]

theorem get_update (t : Trie) (k v k' : Bytes) :
    (t.update k v).get k' = if k' = k then (if v = [] then none else some v) else t.get k' := by
  unfold update
  split
  · rename_i hv; simp [get_delete, hv]
  · rename_i hv; simp [get_insert, hv]

theorem get_update_of_ne_nil (t : Trie) (k : Bytes) {v : Bytes} (k' : Bytes) (hv : v ≠ []) :
    (t.update k v).get k' = if k' = k then some v else t.get k' := by
  simp [get_update, hv]

@[simp] theorem get_update_self {t : Trie} {k v : Bytes} (hv : v ≠ []) : (t.update k v).get k = some v := by
  simp [get_update, hv]

theorem get_update_of_ne (t : Trie) {k k' : Bytes} (v : Bytes) (h : k' ≠ k) :
    (t.update k v).get k' = t.get k' := by
  simp [get_update, h]

theorem get_ne_nil {t : Trie} {k v : Bytes} (h : t.get k = some v) : v ≠ [] :=
  t.values_ne_nil _ (mem_of_lookup h)

theorem lookup_of_mem {e : Bytes × Bytes} : ∀ {es}, KeysSorted es → e ∈ es → lookup e.1 es = some e.2
  | x :: xs, hs, h => by
    rw [KeysSorted, List.pairwise_cons] at hs
    rcases List.mem_cons.mp h with rfl | h
    · simp [lookup]
    · have hne : x.1 ≠ e.1 := fun he => by simpa [he, Bytes.lt_irrefl] using hs.1 e h
      simp [lookup, hne, lookup_of_mem hs.2 h]

theorem mem_entries_iff {t : Trie} {e : Bytes × Bytes} : e ∈ t.entries ↔ t.get e.1 = some e.2 :=
  ⟨lookup_of_mem t.sorted, mem_of_lookup⟩

theorem mem_prefixEntries {t : Trie} {p : Bytes} {e : Bytes × Bytes} :
    e ∈ t.prefixEntries p ↔ p <+: e.1 ∧ t.get e.1 = some e.2 := by
  simp [prefixEntries, List.mem_filter, mem_entries_iff, List.isPrefixOf_iff_prefix, and_comm]

/-- `p‖s` に値があれば、`NodeIterator(p)` には次の要素がある。 -/
theorem hasKeyFrom_of_get {t : Trie} {p s v : Bytes} (h : t.get (p ++ s) = some v) :
    t.hasKeyFrom p = true := by
  simp only [hasKeyFrom, List.any_eq_true]
  exact ⟨_, mem_of_lookup h, by simp [Bytes.lt_append_self]⟩

theorem delete_of_get_none {t : Trie} {k : Bytes} (h : t.get k = none) : t.delete k = t := by
  apply ext_entries
  refine List.filter_eq_self.mpr fun e he => ?_
  have : e.1 ≠ k := fun he' => by rw [← he', mem_entries_iff.mp he] at h; cases h
  simpa using this

/-- 今の値を書き戻しても trie は変わらない。 -/
theorem update_get_self (t : Trie) (k : Bytes) : t.update k ((t.get k).getD []) = t := by
  cases h : t.get k with
  | none => simp [update, delete_of_get_none h]
  | some w =>
    simp only [Option.getD_some, update, get_ne_nil h, ↓reduceDIte]
    exact ext_entries (insertSorted_of_lookup t.sorted h)

end Trie

end HappyDpos
