import Mathlib.Data.List.Perm.Basic
import Mathlib.Tactic.Common
import Std.Data.ExtTreeMap

/-!
# Ordered maps

Lookups in ordered tree maps built by loops over the entries of another map or over a list of
keys, and their entries as lists.
-/

namespace Maps

open Std

variable {α β : Type*} {cmp : α → α → Ordering} [TransCmp cmp] [LawfulEqCmp cmp]

/-- Copying the entries of `m'` into `m`: those of `m'` win. -/
theorem getElem?_insertMany_toList (m m' : ExtTreeMap α β cmp) (k : α) :
    (m.insertMany m'.toList)[k]? = m'[k]?.or m[k]? := by
  classical
  let _ : BEq α := instBEqOfDecidableEq
  have : LawfulBEqCmp cmp := ⟨by simp⟩
  cases h : m'[k]? with
  | some v =>
    rw [Option.some_or]
    exact ExtTreeMap.getElem?_insertMany_list_of_mem ReflCmp.compare_self
      ExtTreeMap.distinct_keys_toList (ExtTreeMap.mem_toList_iff_getElem?_eq_some.2 h)
  | none =>
    rw [Option.none_or]
    refine ExtTreeMap.getElem?_insertMany_list_of_contains_eq_false ?_
    rw [ExtTreeMap.map_fst_toList_eq_keys]
    simpa using h

/-- A loop that visits each key once and writes an entry from the one before. -/
theorem getElem?_foldl_insert {ι : Type*} [DecidableEq α] (key : ι → α) (f : Option β → ι → β)
    {l : List ι} (h : (l.map key).Nodup) (m : ExtTreeMap α β cmp) (k : α) :
    (l.foldl (fun m i => m.insert (key i) (f m[key i]? i)) m)[k]? =
      match l.find? fun i => key i = k with
      | some i => some (f m[k]? i)
      | none => m[k]? := by
  induction l generalizing m with
  | nil => rfl
  | cons i l ih =>
    obtain ⟨hi, hl⟩ := List.nodup_cons.1 h
    rw [List.foldl_cons, ih hl, ExtTreeMap.getElem?_insert]
    by_cases hk : key i = k
    · subst hk
      have hnone : l.find? (fun j => key j = key i) = none := by
        rw [List.find?_eq_none]
        intro j hj hkey
        exact hi (List.mem_map.2 ⟨j, hj, of_decide_eq_true hkey⟩)
      simp [hnone]
    · simp [hk]

/-- A loop that writes one value for each key of a list. -/
theorem getElem?_foldl_insert_const [DecidableEq α] (v : β) (ks : List α) (m : ExtTreeMap α β cmp)
    (k : α) : (ks.foldl (fun m k => m.insert k v) m)[k]? = if k ∈ ks then some v else m[k]? := by
  induction ks generalizing m with
  | nil => rfl
  | cons k' ks ih =>
    rw [List.foldl_cons, ih, ExtTreeMap.getElem?_insert]
    simp only [LawfulEqCmp.compare_eq_iff_eq, List.mem_cons, eq_comm (a := k')]
    split_ifs <;> simp_all

/-- A loop that makes entries for the keys that have none. -/
theorem mem_foldl_insertIfNew (v : β) (ks : List α) (m : ExtTreeMap α β cmp) (k : α) :
    k ∈ ks.foldl (fun m k => m.insertIfNew k v) m ↔ k ∈ m ∨ k ∈ ks := by
  induction ks generalizing m with
  | nil => simp
  | cons k' ks ih =>
    rw [List.foldl_cons, ih, ExtTreeMap.mem_insertIfNew, LawfulEqCmp.compare_eq_iff_eq,
      List.mem_cons, eq_comm (a := k')]
    tauto

/-- A loop that writes the entries of the keys that have none: the first of a key stays. -/
theorem getElem?_foldl_insertIfNew {ι : Type*} [DecidableEq α] (key : ι → α) (f : ι → β)
    (l : List ι) (m : ExtTreeMap α β cmp) (k : α) :
    (l.foldl (fun m i => m.insertIfNew (key i) (f i)) m)[k]? =
      m[k]?.or ((l.find? fun i => key i = k).map f) := by
  induction l generalizing m with
  | nil => simp
  | cons i l ih =>
    rw [List.foldl_cons, ih, ExtTreeMap.getElem?_insertIfNew]
    by_cases hk : key i = k
    · subst hk
      by_cases hmem : key i ∈ m <;> simp [hmem]
    · simp [hk]

/-- A loop that erases the keys. -/
theorem mem_foldl_erase (ks : List α) (m : ExtTreeMap α β cmp) (k : α) :
    k ∈ ks.foldl (fun m k => m.erase k) m ↔ k ∈ m ∧ k ∉ ks := by
  induction ks generalizing m with
  | nil => simp
  | cons k' ks ih =>
    rw [List.foldl_cons, ih, ExtTreeMap.mem_erase, List.mem_cons, ne_eq,
      LawfulEqCmp.compare_eq_iff_eq, eq_comm (a := k')]
    tauto

/-! ## Entries as a list -/

theorem nodup_toList (m : ExtTreeMap α β cmp) : m.toList.Nodup := by
  refine ExtTreeMap.distinct_keys_toList.imp fun {a b} hne => ?_
  intro heq
  rw [heq] at hne
  exact hne ReflCmp.compare_self

/-- What is made of the entry of one key. -/
theorem flatMap_toList_of_key [DecidableEq α] {γ : Type*} (m : ExtTreeMap α β cmp) (k : α)
    (f : β → List γ) :
    (m.toList.flatMap fun p => if p.1 = k then f p.2 else []) = m[k]?.elim [] f := by
  have hother {l : List (α × β)} (hl : ∀ v, (k, v) ∉ l) :
      (l.flatMap fun p => if p.1 = k then f p.2 else []) = [] := by
    refine List.flatMap_eq_nil_iff.2 fun p hp => if_neg ?_
    rintro rfl
    exact hl p.2 hp
  cases hk : m[k]? with
  | none =>
    refine hother fun v hv => ?_
    rw [ExtTreeMap.mem_toList_iff_getElem?_eq_some, hk] at hv
    cases hv
  | some v =>
    obtain ⟨l, l', hl⟩ :=
      List.append_of_mem (ExtTreeMap.mem_toList_iff_getElem?_eq_some.2 hk)
    have hnodup := nodup_toList m
    rw [hl, List.nodup_append, List.nodup_cons] at hnodup
    obtain ⟨-, ⟨hnot', -⟩, hdisjoint⟩ := hnodup
    have hvalue {w : β} (hw : (k, w) ∈ m.toList) : w = v := by
      rw [ExtTreeMap.mem_toList_iff_getElem?_eq_some, hk] at hw
      exact (Option.some.inj hw).symm
    have hnone : ∀ w, (k, w) ∉ l := by
      intro w hw
      obtain rfl := hvalue (hl ▸ List.mem_append_left _ hw)
      exact hdisjoint _ hw _ List.mem_cons_self rfl
    have hnone' : ∀ w, (k, w) ∉ l' := by
      intro w hw
      obtain rfl := hvalue (hl ▸ List.mem_append_right _ (List.mem_cons_of_mem _ hw))
      exact hnot' hw
    rw [hl, List.flatMap_append, List.flatMap_cons, hother hnone, hother hnone']
    simp

/-- An entry, and those of the map without it. -/
theorem toList_perm_erase {m : ExtTreeMap α β cmp} {k : α} {v : β} (h : m[k]? = some v) :
    m.toList.Perm ((k, v) :: (m.erase k).toList) := by
  have hk : (k, v) ∉ (m.erase k).toList := by
    rw [ExtTreeMap.mem_toList_iff_getElem?_eq_some, ExtTreeMap.getElem?_erase_self]
    exact Option.some_ne_none v ∘ Eq.symm
  refine (List.perm_ext_iff_of_nodup (nodup_toList m) ?_).2 fun p => ?_
  · exact List.nodup_cons.2 ⟨hk, nodup_toList _⟩
  · obtain ⟨k', v'⟩ := p
    rw [List.mem_cons, ExtTreeMap.mem_toList_iff_getElem?_eq_some,
      ExtTreeMap.mem_toList_iff_getElem?_eq_some, ExtTreeMap.getElem?_erase]
    by_cases hkk : k = k'
    · subst hkk
      simp [h, eq_comm]
    · simp [hkk, Ne.symm hkk]

/-- The entries after a new one. -/
theorem toList_insert_perm {m : ExtTreeMap α β cmp} {k : α} (v : β) (h : m[k]? = none) :
    (m.insert k v).toList.Perm ((k, v) :: m.toList) := by
  have herase : (m.insert k v).erase k = m := by
    refine ExtTreeMap.ext_getElem? fun k' => ?_
    rw [ExtTreeMap.getElem?_erase, ExtTreeMap.getElem?_insert]
    by_cases hkk : k = k'
    · subst hkk
      simp [h]
    · simp [hkk]
  have hperm := toList_perm_erase (m := m.insert k v) ExtTreeMap.getElem?_insert_self
  rwa [herase] at hperm

end Maps
