import Uniqueness.SortedMap
import Mathlib.Data.List.Dedup
import Mathlib.Data.List.Induction
import Mathlib.Data.List.Perm.Subperm

namespace Uniqueness.SortedMap

variable {κ κ' α β : Type} [Ord κ]

@[simp] theorem get?_empty (k : κ) : (empty : SortedMap κ α).get? k = none :=
  rfl

theorem length_insertEntry {k : κ} {v : α} {es : List (κ × α)} (h : lookup k es = none) :
    (insertEntry k v es).length = es.length + 1 := by
  induction es with
  | nil => rfl
  | cons e es ih =>
    simp only [lookup] at h
    simp only [insertEntry]
    split at h
    · rfl
    · cases h
    · rw [List.length_cons, ih h, List.length_cons]

variable [Std.TransOrd κ]

theorem irrefl (k : κ) : compare k k ≠ .lt := by
  rw [Std.ReflOrd.compare_self]
  decide

theorem nodup_of_increasing {es : List (κ × α)} (h : Increasing es) : es.Nodup := by
  refine List.Pairwise.imp ?_ h
  rintro a _ hlt rfl
  exact irrefl _ hlt

theorem eq_of_mem_iff {es fs : List (κ × α)} (he : Increasing es) (hf : Increasing fs)
    (h : ∀ e, e ∈ es ↔ e ∈ fs) : es = fs := by
  have hperm := (List.perm_ext_iff_of_nodup (nodup_of_increasing he) (nodup_of_increasing hf)).mpr h
  refine List.Perm.eq_of_pairwise ?_ he hf hperm
  intro a b _ _ hab hba
  exact absurd (Std.TransCmp.lt_trans hab hba) (irrefl _)

theorem nodup_keys (m : SortedMap κ α) : m.keys.Nodup := by
  rw [keys, List.nodup_iff_pairwise_ne, List.pairwise_map]
  refine List.Pairwise.imp ?_ m.increasing
  intro a b hlt heq
  rw [heq] at hlt
  exact irrefl _ hlt

theorem insertEntry_of_last {k : κ} {v : α} {es : List (κ × α)} (h : ∀ e ∈ es, compare e.1 k = .lt) :
    insertEntry k v es = es ++ [(k, v)] := by
  induction es with
  | nil => rfl
  | cons e es ih =>
    obtain ⟨he, hes⟩ := List.forall_mem_cons.mp h
    simp only [insertEntry, Std.OrientedCmp.gt_of_lt he, ih hes, List.cons_append]

variable [Std.LawfulEqOrd κ]

theorem lookup_eq_some_iff {k : κ} {v : α} {es : List (κ × α)} (h : Increasing es) :
    lookup k es = some v ↔ (k, v) ∈ es := by
  induction es with
  | nil => simp [lookup]
  | cons e es ih =>
    obtain ⟨he, hes⟩ := List.pairwise_cons.mp h
    simp only [lookup, List.mem_cons]
    split
    case h_1 hk =>
      refine ⟨nofun, ?_⟩
      rintro (rfl | hm)
      · exact absurd hk (irrefl _)
      · exact absurd (Std.TransCmp.lt_trans hk (he _ hm)) (irrefl _)
    case h_2 hk =>
      obtain rfl := Std.LawfulEqCmp.eq_of_compare hk
      refine ⟨fun hv => .inl (by cases hv; rfl), ?_⟩
      rintro (heq | hm)
      · rw [← heq]
      · exact absurd (he _ hm) (irrefl _)
    case h_3 hk =>
      rw [ih hes]
      refine ⟨.inr, ?_⟩
      rintro (rfl | hm)
      · exact absurd hk (by rw [Std.ReflOrd.compare_self]; decide)
      · exact hm

theorem get?_eq_some_iff {m : SortedMap κ α} {k : κ} {v : α} :
    m.get? k = some v ↔ (k, v) ∈ m.entries :=
  lookup_eq_some_iff m.increasing

theorem get?_eq_none_iff {m : SortedMap κ α} {k : κ} : m.get? k = none ↔ k ∉ m.keys := by
  rw [Option.eq_none_iff_forall_ne_some]
  simp only [ne_eq, get?_eq_some_iff, keys, List.mem_map, not_exists, not_and]
  constructor
  · rintro h ⟨_, v⟩ hv rfl
    exact h v hv
  · intro h v hv
    exact h (k, v) hv rfl

theorem mem_keys {m : SortedMap κ α} {k : κ} : k ∈ m.keys ↔ (m.get? k).isSome = true := by
  rw [Option.isSome_iff_exists]
  simp only [get?_eq_some_iff, keys, List.mem_map]
  constructor
  · rintro ⟨⟨_, v⟩, hv, rfl⟩
    exact ⟨v, hv⟩
  · rintro ⟨v, hv⟩
    exact ⟨(k, v), hv, rfl⟩

theorem ext_get? {m n : SortedMap κ α} (h : ∀ k, m.get? k = n.get? k) : m = n := by
  apply SortedMap.ext
  apply eq_of_mem_iff m.increasing n.increasing
  rintro ⟨k, v⟩
  rw [← get?_eq_some_iff, ← get?_eq_some_iff, h]

theorem eq_of_get?_of_size {m n : SortedMap κ α} (h : ∀ k v, m.get? k = some v → n.get? k = some v)
    (hsize : n.size ≤ m.size) : m = n := by
  have hsub : m.entries ⊆ n.entries := by
    rintro ⟨k, v⟩ he
    exact get?_eq_some_iff.mp (h k v (get?_eq_some_iff.mpr he))
  have hperm := (List.Nodup.subperm (nodup_of_increasing m.increasing) hsub).perm_of_length_le hsize
  exact ext (eq_of_mem_iff m.increasing n.increasing fun _ => hperm.mem_iff)

theorem get?_filter (m : SortedMap κ α) (p : κ → Bool) (k : κ) :
    (m.filter p).get? k = if p k then m.get? k else none := by
  apply Option.ext
  intro v
  by_cases hp : p k = true
  · simp [hp, get?_eq_some_iff, filter]
  · simp only [hp, get?_eq_some_iff, filter, List.mem_filter]
    simp

theorem isEmpty_filter {m : SortedMap κ α} {p : κ → Bool} :
    (m.filter p).isEmpty = true ↔ ∀ k, p k = true → m.get? k = none := by
  rw [isEmpty, List.isEmpty_iff, filter, List.filter_eq_nil_iff]
  constructor
  · intro hf k hk
    cases hv : m.get? k with
    | none => rfl
    | some v => exact absurd hk (hf (k, v) (get?_eq_some_iff.mp hv))
  · intro hnone e he hk
    have hv := get?_eq_some_iff.mpr he
    rw [hnone e.1 hk] at hv
    cases hv

theorem get?_erase [DecidableEq κ] (m : SortedMap κ α) (k k' : κ) :
    (m.erase k).get? k' = if k' = k then none else m.get? k' := by
  rw [erase, get?_filter]
  by_cases hk : k' = k
  · subst hk
    rw [Std.compare_self, if_pos rfl]
    rfl
  · have hne : (compare k' k != .eq) = true := by
      rw [bne_iff_ne]
      exact fun h => hk (Std.LawfulEqCmp.eq_of_compare h)
    rw [if_pos hne, if_neg hk]

theorem mem_insertEntry_iff {k : κ} {v : α} {es : List (κ × α)} (h : Increasing es) {e : κ × α} :
    e ∈ insertEntry k v es ↔ e = (k, v) ∨ e ∈ es ∧ e.1 ≠ k := by
  induction es with
  | nil => simp [insertEntry]
  | cons f es ih =>
    obtain ⟨hf, hes⟩ := List.pairwise_cons.mp h
    have ne_of_lt : ∀ {a : κ}, compare k a = .lt → a ≠ k := by
      rintro a hlt rfl
      exact irrefl _ hlt
    simp only [insertEntry]
    split
    case h_1 hk =>
      have hne : ∀ e ∈ f :: es, e.1 ≠ k := by
        intro e he
        rcases List.mem_cons.mp he with rfl | he
        · exact ne_of_lt hk
        · exact ne_of_lt (Std.TransCmp.lt_trans hk (hf e he))
      rw [List.mem_cons]
      exact or_congr_right ⟨fun he => ⟨he, hne e he⟩, And.left⟩
    case h_2 hk =>
      obtain rfl := Std.LawfulEqCmp.eq_of_compare hk
      have hne : ∀ e ∈ es, e.1 ≠ f.1 := fun e he => ne_of_lt (hf e he)
      simp only [List.mem_cons]
      refine or_congr_right ⟨fun he => ⟨.inr he, hne e he⟩, ?_⟩
      rintro ⟨rfl | he, hkey⟩
      · exact absurd rfl hkey
      · exact he
    case h_3 hk =>
      have hne : f.1 ≠ k := by
        rintro rfl
        rw [Std.ReflOrd.compare_self] at hk
        cases hk
      simp only [List.mem_cons, ih hes]
      constructor
      · rintro (rfl | rfl | he)
        · exact .inr ⟨.inl rfl, hne⟩
        · exact .inl rfl
        · exact .inr ⟨.inr he.1, he.2⟩
      · rintro (rfl | ⟨rfl | he, hkey⟩)
        · exact .inr (.inl rfl)
        · exact .inl rfl
        · exact .inr (.inr ⟨he, hkey⟩)

theorem get?_insert [DecidableEq κ] (m : SortedMap κ α) (k : κ) (v : α) (k' : κ) :
    (m.insert k v).get? k' = if k' = k then some v else m.get? k' := by
  apply Option.ext
  intro w
  rw [get?_eq_some_iff, insert, mem_insertEntry_iff m.increasing]
  by_cases hk : k' = k
  · simp [hk, eq_comm]
  · simp [hk, get?_eq_some_iff]

@[simp] theorem insertAll_nil (m : SortedMap κ α) : m.insertAll [] = m :=
  rfl

@[simp] theorem insertAll_cons (m : SortedMap κ α) (e : κ × α) (es : List (κ × α)) :
    m.insertAll (e :: es) = (m.insert e.1 e.2).insertAll es :=
  rfl

theorem entries_insertAll {m : SortedMap κ α} {es : List (κ × α)} (h : Increasing (m.entries ++ es)) :
    (m.insertAll es).entries = m.entries ++ es := by
  induction es generalizing m with
  | nil => rw [insertAll_nil, List.append_nil]
  | cons e es ih =>
    have hlast : (m.insert e.1 e.2).entries = m.entries ++ [e] := by
      apply insertEntry_of_last
      intro f hf
      exact (List.pairwise_append.mp h).2.2 f hf e List.mem_cons_self
    rw [insertAll_cons, ih, hlast, List.append_assoc, List.singleton_append]
    rwa [hlast, List.append_assoc, List.singleton_append]

theorem get?_insertAll_of_not_mem [DecidableEq κ] {m : SortedMap κ α} {es : List (κ × α)} {k : κ}
    (h : ∀ e ∈ es, e.1 ≠ k) : (m.insertAll es).get? k = m.get? k := by
  induction es generalizing m with
  | nil => rfl
  | cons e es ih =>
    rw [insertAll_cons, ih fun f hf => h f (List.mem_cons_of_mem _ hf), get?_insert,
      if_neg (h e List.mem_cons_self).symm]

theorem get?_insertAll_of_mem [DecidableEq κ] {m : SortedMap κ α} {es : List (κ × α)} {k : κ} {v : α}
    (hm : (k, v) ∈ es) (h : ∀ w, (k, w) ∈ es → w = v) : (m.insertAll es).get? k = some v := by
  induction es generalizing m with
  | nil => cases hm
  | cons e es ih =>
    rw [insertAll_cons]
    have hes : ∀ w, (k, w) ∈ es → w = v := fun w hw => h w (List.mem_cons_of_mem _ hw)
    by_cases hmem : (k, v) ∈ es
    · exact ih hmem hes
    · obtain rfl : (k, v) = e := (List.mem_cons.mp hm).resolve_right hmem
      rw [get?_insertAll_of_not_mem, get?_insert, if_pos rfl]
      rintro ⟨_, w⟩ hw rfl
      exact hmem (hes w hw ▸ hw)

theorem get?_insertAll [DecidableEq κ] (m n : SortedMap κ α) (k : κ) :
    (m.insertAll n.entries).get? k = (n.get? k).or (m.get? k) := by
  cases hn : n.get? k with
  | none =>
    apply get?_insertAll_of_not_mem
    rintro e he rfl
    exact get?_eq_none_iff.mp hn (List.mem_map_of_mem he)
  | some v =>
    apply get?_insertAll_of_mem (get?_eq_some_iff.mp hn)
    intro w hw
    rw [← get?_eq_some_iff, hn] at hw
    exact (Option.some.inj hw).symm

theorem ofList_entries [DecidableEq κ] (m : SortedMap κ α) : ofList m.entries = m := by
  apply ext_get?
  intro k
  rw [ofList, get?_insertAll, get?_empty, Option.or_none]

theorem ofList_keys [DecidableEq κ] (s : SortedSet κ) : SortedSet.ofList (keys s) = s := by
  have h : (keys s).map (fun k => (k, ())) = s.entries := by
    rw [keys, List.map_map]
    exact List.map_id _
  rw [SortedSet.ofList, h, ofList_entries]

theorem get?_ofList [DecidableEq κ] (es : List (κ × α)) (k : κ) :
    (ofList es).get? k = (es.reverse.find? fun e => e.1 = k).map (·.2) := by
  induction es using List.reverseRecOn with
  | nil => rw [ofList, insertAll_nil, get?_empty, List.reverse_nil, List.find?_nil, Option.map_none]
  | append_singleton es e ih =>
    have hlast : ofList (es ++ [e]) = (ofList es).insert e.1 e.2 := List.foldl_append
    rw [hlast, get?_insert, List.reverse_append, List.reverse_singleton, List.singleton_append, List.find?_cons]
    by_cases hk : e.1 = k
    · simp [hk]
    · simp [hk, Ne.symm hk, ih]

theorem perm_ofList [DecidableEq κ] {es : List (κ × α)} (h : (es.map (·.1)).Nodup) : (ofList es).entries.Perm es := by
  apply (List.perm_ext_iff_of_nodup (nodup_of_increasing (ofList es).increasing) h.of_map).mpr
  rintro ⟨k, v⟩
  rw [← get?_eq_some_iff]
  constructor
  · intro hv
    rw [get?_ofList, Option.map_eq_some_iff] at hv
    obtain ⟨e, he, rfl⟩ := hv
    obtain rfl : e.1 = k := by simpa using List.find?_some he
    exact List.mem_reverse.mp (List.mem_of_find?_eq_some he)
  · intro hv
    refine get?_insertAll_of_mem hv fun w hw => ?_
    exact (Prod.mk.inj (List.inj_on_of_nodup_map h hw hv rfl)).2

theorem mem_keys_ofList [DecidableEq κ] {es : List (κ × α)} {k : κ} : k ∈ (ofList es).keys ↔ k ∈ es.map (·.1) := by
  rw [mem_keys, get?_ofList, Option.isSome_map, List.find?_isSome]
  simp

theorem size_insert {m : SortedMap κ α} {k : κ} {v : α} (h : m.get? k = none) :
    (m.insert k v).size = m.size + 1 :=
  length_insertEntry h

theorem size_insertAll [DecidableEq κ] {m : SortedMap κ α} {es : List (κ × α)}
    (hes : (es.map (·.1)).Nodup) (h : ∀ e ∈ es, m.get? e.1 = none) :
    (m.insertAll es).size = m.size + es.length := by
  induction es generalizing m with
  | nil => rfl
  | cons e es ih =>
    obtain ⟨he, hes⟩ := List.nodup_cons.mp hes
    have hne : ∀ f ∈ es, f.1 ≠ e.1 := fun f hf hfe => he (List.mem_map.mpr ⟨f, hf, hfe⟩)
    rw [insertAll_cons, ih hes, size_insert (h e List.mem_cons_self), List.length_cons, Nat.add_assoc,
      Nat.add_comm 1]
    intro f hf
    rw [get?_insert, if_neg (hne f hf)]
    exact h f (List.mem_cons_of_mem _ hf)

theorem size_ofList [DecidableEq κ] (es : List (κ × α)) : (ofList es).size = (es.map (·.1)).dedup.length := by
  have hperm : (ofList es).keys.Perm (es.map (·.1)).dedup := by
    apply (List.perm_ext_iff_of_nodup (nodup_keys _) (List.nodup_dedup _)).mpr
    intro k
    rw [mem_keys_ofList, List.mem_dedup]
  rw [← hperm.length_eq, keys, List.length_map, size]

theorem size_ofList_le [DecidableEq κ] (es : List (κ × α)) : (ofList es).size ≤ es.length := by
  have hle := (List.dedup_sublist (es.map (·.1))).length_le
  rwa [List.length_map, ← size_ofList] at hle

theorem size_ofList_eq_length_iff [DecidableEq κ] {es : List (κ × α)} :
    (ofList es).size = es.length ↔ (es.map (·.1)).Nodup := by
  have hlength : (es.map (·.1)).length = es.length := List.length_map _
  rw [size_ofList, ← hlength]
  constructor
  · intro h
    rw [← (List.dedup_sublist (es.map (·.1))).eq_of_length h]
    exact List.nodup_dedup _
  · intro h
    rw [h.dedup]

section Renaming

omit [Std.TransOrd κ] [Std.LawfulEqOrd κ]

variable [Ord κ'] {f : κ → κ'} (hf : ∀ a b, compare (f a) (f b) = compare a b) (g : α → β)

include hf

theorem increasing_map {es : List (κ × α)} (h : Increasing es) :
    Increasing (es.map fun e => (f e.1, g e.2)) := by
  simpa [Increasing, List.pairwise_map, hf] using h

theorem lookup_map (k : κ) (es : List (κ × α)) :
    lookup (f k) (es.map fun e => (f e.1, g e.2)) = (lookup k es).map g := by
  induction es with
  | nil => rfl
  | cons e es ih =>
    simp only [List.map_cons, lookup, hf]
    split
    · rfl
    · rfl
    · exact ih

theorem insertEntry_map (k : κ) (v : α) (es : List (κ × α)) :
    insertEntry (f k) (g v) (es.map fun e => (f e.1, g e.2)) =
      (insertEntry k v es).map fun e => (f e.1, g e.2) := by
  induction es with
  | nil => rfl
  | cons e es ih =>
    simp only [List.map_cons, insertEntry, hf]
    split
    · rfl
    · rfl
    · rw [ih, List.map_cons]

end Renaming

end Uniqueness.SortedMap

namespace Uniqueness.SortedSet

variable {κ : Type} [Ord κ] [Std.TransOrd κ] [Std.LawfulEqOrd κ]

theorem ext_contains {s t : SortedSet κ} (h : ∀ k, s.contains k = true ↔ t.contains k = true) : s = t := by
  apply SortedMap.ext_get?
  intro k
  apply Option.ext
  rintro ⟨⟩
  have hsome : ∀ r : SortedSet κ, r.get? k = some () ↔ r.contains k = true := by
    intro r
    rw [SortedMap.contains, Option.isSome_iff_exists]
    exact ⟨fun hk => ⟨(), hk⟩, fun ⟨(), hk⟩ => hk⟩
  rw [hsome, hsome, h]

variable [DecidableEq κ]

theorem contains_insert (s : SortedSet κ) (k k' : κ) :
    (s.insert k).contains k' = true ↔ k' = k ∨ s.contains k' = true := by
  rw [SortedMap.contains, insert, SortedMap.get?_insert]
  by_cases hk : k' = k
  · simp [hk]
  · simp [hk, SortedMap.contains]

theorem contains_erase (s : SortedSet κ) (k k' : κ) :
    (s.erase k).contains k' = true ↔ k' ≠ k ∧ s.contains k' = true := by
  rw [SortedMap.contains, SortedMap.get?_erase]
  by_cases hk : k' = k
  · simp [hk]
  · simp [hk, SortedMap.contains]

theorem contains_ofList (ks : List κ) (k : κ) : (ofList ks).contains k = true ↔ k ∈ ks := by
  rw [SortedMap.contains, ofList, SortedMap.ofList]
  by_cases hk : k ∈ ks
  · have hmem : (k, ()) ∈ ks.map fun k => (k, ()) := List.mem_map.mpr ⟨k, hk, rfl⟩
    rw [SortedMap.get?_insertAll_of_mem hmem fun _ _ => rfl]
    exact iff_of_true rfl hk
  · rw [SortedMap.get?_insertAll_of_not_mem, SortedMap.get?_empty]
    · exact iff_of_false nofun hk
    · rintro e he rfl
      obtain ⟨k', hk', rfl⟩ := List.mem_map.mp he
      exact hk hk'

end Uniqueness.SortedSet
