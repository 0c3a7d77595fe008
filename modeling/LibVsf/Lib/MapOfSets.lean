import LibVsf.Lib.Maps
import Std.Data.ExtTreeSet

/-!
# Maps of sets

A `std::map` from keys to `std::set`s, as a relation between keys and members that is filled by
`map[key].insert(member)`. A lookup by member (`keyOf`) finds the first key whose set has it.

* `mem_valuesOf_insertAll`, `mem_insertAll`: what a loop of insertions leaves, in any order
  (`insertAll_congr`).
* `mem_valuesOf_groupBy`: a loop that puts every item to each group whose set includes its own.
* `keyOf_eq_iff`: if a member is in the set of one key only, the lookup by member finds this key.
-/

/-- `std::map<κ, std::set<α>>`. -/
abbrev MapOfSets (κ α : Type*) [Ord κ] [Ord α] := Std.ExtTreeMap κ (Std.ExtTreeSet α)

namespace MapOfSets

open Std

variable {κ ι α : Type*} [Ord κ] [TransOrd κ] [Ord ι] [TransOrd ι] [Ord α] [TransOrd α]

/-- The set of a key, empty if there is none. -/
def valuesOf (m : MapOfSets κ α) (k : κ) : ExtTreeSet α := m.getD k ∅

/-- `m[k]` makes the entry of a key that has none. -/
def lookUp (m : MapOfSets κ α) (k : κ) : MapOfSets κ α := m.insertIfNew k ∅

/-- `m[k].insert(a)`. -/
def insertAt (m : MapOfSets κ α) (k : κ) (a : α) : MapOfSets κ α :=
  m.insert k ((valuesOf m k).insert a)

def insertAll (m : MapOfSets κ α) (ps : List (κ × α)) : MapOfSets κ α :=
  ps.foldl (fun m p => insertAt m p.1 p.2) m

/-- The first key whose set has the member, or a default. -/
def keyOf (d : κ) (m : MapOfSets κ α) (a : α) : κ :=
  ((m.toList.find? fun p => p.2.contains a).map Prod.fst).getD d

/-- `includes`: the first set has all members of the second. -/
def includes (s t : ExtTreeSet α) : Bool := t.toList.all fun a => s.contains a

/-- Every item is put to each group whose set includes its own. -/
def groupBy (groups : MapOfSets κ α) (items : MapOfSets ι α) (m : MapOfSets κ ι) :
    MapOfSets κ ι :=
  items.toList.foldl (fun m item => groups.toList.foldl (fun m group =>
    if includes group.2 item.2 then insertAt m group.1 item.1 else m) m) m

/-- The pairs of groups and items that `groupBy` inserts. -/
def groupPairs (groups : MapOfSets κ α) (items : MapOfSets ι α) : List (κ × ι) :=
  items.toList.flatMap fun item =>
    (groups.toList.filter fun group => includes group.2 item.2).map fun group => (group.1, item.1)

theorem groupBy_eq (groups : MapOfSets κ α) (items : MapOfSets ι α) (m : MapOfSets κ ι) :
    groupBy groups items m = insertAll m (groupPairs groups items) := by
  simp only [groupBy, insertAll, groupPairs, List.foldl_flatMap, List.foldl_map, List.foldl_filter]

/-! ## Insertions -/

theorem mem_valuesOf {m : MapOfSets κ α} {k : κ} {a : α} :
    a ∈ valuesOf m k ↔ ∃ s, m[k]? = some s ∧ a ∈ s := by
  simp only [valuesOf, ExtTreeMap.getD_eq_getD_getElem?]
  cases m[k]? with
  | none => simp
  | some s => simp

omit [TransOrd α] in
@[simp] theorem valuesOf_lookUp (m : MapOfSets κ α) (k k' : κ) :
    valuesOf (lookUp m k) k' = valuesOf m k' := by
  rw [valuesOf, lookUp, ExtTreeMap.getD_insertIfNew]
  split_ifs with h
  · have hk' : k' ∉ m := fun hmem => h.2 ((ExtTreeMap.mem_congr h.1).2 hmem)
    exact (ExtTreeMap.getD_eq_fallback hk').symm
  · rfl

@[simp] theorem insertAll_nil (m : MapOfSets κ α) : insertAll m [] = m := rfl

theorem mem_valuesOf_empty {k : κ} {a : α} : a ∉ valuesOf (∅ : MapOfSets κ α) k := by
  simp [mem_valuesOf]

variable [LawfulEqOrd κ]

omit [TransOrd α] in
theorem mem_lookUp {m : MapOfSets κ α} {k k' : κ} : k' ∈ lookUp m k ↔ k' = k ∨ k' ∈ m := by
  rw [lookUp, ExtTreeMap.mem_insertIfNew, LawfulEqOrd.compare_eq_iff_eq, eq_comm (a := k)]

theorem mem_insertAt {m : MapOfSets κ α} {k k' : κ} {a : α} :
    k' ∈ insertAt m k a ↔ k' = k ∨ k' ∈ m := by
  rw [insertAt, ExtTreeMap.mem_insert, LawfulEqOrd.compare_eq_iff_eq, eq_comm (a := k)]

theorem mem_insertAll {ps : List (κ × α)} {m : MapOfSets κ α} {k : κ} :
    k ∈ insertAll m ps ↔ (∃ a, (k, a) ∈ ps) ∨ k ∈ m := by
  induction ps generalizing m with
  | nil => simp
  | cons p ps ih =>
    show k ∈ insertAll (insertAt m p.1 p.2) ps ↔ _
    rw [ih, mem_insertAt]
    simp only [List.mem_cons, exists_or, Prod.ext_iff, exists_and_left, exists_eq, and_true]
    tauto

variable [LawfulEqOrd α]

theorem mem_valuesOf_insertAt {m : MapOfSets κ α} {k k' : κ} {a a' : α} :
    a' ∈ valuesOf (insertAt m k a) k' ↔ (k' = k ∧ a' = a) ∨ a' ∈ valuesOf m k' := by
  simp only [valuesOf, insertAt, ExtTreeMap.getD_insert]
  split_ifs with h
  · obtain rfl := LawfulEqOrd.eq_of_compare h
    rw [ExtTreeSet.mem_insert, LawfulEqOrd.compare_eq_iff_eq, eq_comm (a := a)]
    simp
  · have hne : k' ≠ k := by
      intro heq
      exact h (heq ▸ ReflCmp.compare_self)
    simp [hne]

theorem mem_valuesOf_insertAll {ps : List (κ × α)} {m : MapOfSets κ α} {k : κ} {a : α} :
    a ∈ valuesOf (insertAll m ps) k ↔ (k, a) ∈ ps ∨ a ∈ valuesOf m k := by
  induction ps generalizing m with
  | nil => simp
  | cons p ps ih =>
    show a ∈ valuesOf (insertAll (insertAt m p.1 p.2) ps) k ↔ _
    rw [ih, mem_valuesOf_insertAt, List.mem_cons, Prod.ext_iff]
    tauto

/-- A map is the sets of its keys. -/
theorem ext_valuesOf {m m' : MapOfSets κ α} (hkeys : ∀ k, k ∈ m ↔ k ∈ m')
    (hvalues : ∀ k a, a ∈ valuesOf m k ↔ a ∈ valuesOf m' k) : m = m' := by
  have hget (m : MapOfSets κ α) {k : κ} (hk : k ∈ m) : m[k]? = some (valuesOf m k) := by
    obtain ⟨s, hs⟩ := Option.isSome_iff_exists.1 (ExtTreeMap.mem_iff_isSome_getElem?.1 hk)
    rw [valuesOf, ExtTreeMap.getD_eq_getD_getElem?, hs]
    rfl
  refine ExtTreeMap.ext_getElem? fun k => ?_
  by_cases hk : k ∈ m
  · rw [hget m hk, hget m' ((hkeys k).1 hk)]
    exact congrArg some (ExtTreeSet.ext_mem (hvalues k))
  · have hk' : k ∉ m' := fun h => hk ((hkeys k).2 h)
    rw [ExtTreeMap.getElem?_eq_none hk, ExtTreeMap.getElem?_eq_none hk']

/-- **The order of insertions does not matter**, nor does their number. -/
theorem insertAll_congr {ps ps' : List (κ × α)} (h : ∀ p, p ∈ ps ↔ p ∈ ps')
    (m : MapOfSets κ α) : insertAll m ps = insertAll m ps' := by
  refine ext_valuesOf (fun k => ?_) fun k a => ?_
  · simp only [mem_insertAll, h]
  · simp only [mem_valuesOf_insertAll, h]

/-- **Inserting what is there** changes nothing. -/
theorem insertAll_insertAll {ps ps' : List (κ × α)} (h : ∀ p ∈ ps', p ∈ ps)
    (m : MapOfSets κ α) : insertAll (insertAll m ps) ps' = insertAll m ps := by
  have happend : insertAll (insertAll m ps) ps' = insertAll m (ps ++ ps') := by
    rw [insertAll, insertAll, insertAll, List.foldl_append]
  rw [happend]
  refine insertAll_congr (fun p => ?_) m
  rw [List.mem_append]
  exact or_iff_left_of_imp (h p)

/-! ## Groups -/

variable [LawfulEqOrd ι]

theorem includes_iff {s t : ExtTreeSet α} : includes s t = true ↔ ∀ a ∈ t, a ∈ s := by
  simp only [includes, List.all_eq_true, ExtTreeSet.mem_toList, ExtTreeSet.contains_iff_mem]

theorem mem_groupPairs {groups : MapOfSets κ α} {items : MapOfSets ι α} {k : κ} {i : ι} :
    (k, i) ∈ groupPairs groups items ↔
      k ∈ groups ∧ i ∈ items ∧ ∀ a ∈ valuesOf items i, a ∈ valuesOf groups k := by
  simp only [groupPairs, List.mem_flatMap, List.mem_map, List.mem_filter, Prod.exists,
    Prod.mk.injEq, ExtTreeMap.mem_toList_iff_getElem?_eq_some, includes_iff]
  refine ⟨?_, ?_⟩
  · intro h
    obtain ⟨i', t, hi, k', s, ⟨hk, hsub⟩, rfl, rfl⟩ := h
    refine ⟨?_, ?_, fun a ha => ?_⟩
    · rw [ExtTreeMap.mem_iff_isSome_getElem?, hk]
      rfl
    · rw [ExtTreeMap.mem_iff_isSome_getElem?, hi]
      rfl
    · obtain ⟨t', ht', ha⟩ := mem_valuesOf.1 ha
      obtain rfl : t = t' := Option.some.inj (hi.symm.trans ht')
      exact mem_valuesOf.2 ⟨s, hk, hsub a ha⟩
  · intro h
    obtain ⟨hk, hi, hsub⟩ := h
    obtain ⟨s, hs⟩ := Option.isSome_iff_exists.1 (ExtTreeMap.mem_iff_isSome_getElem?.1 hk)
    obtain ⟨t, ht⟩ := Option.isSome_iff_exists.1 (ExtTreeMap.mem_iff_isSome_getElem?.1 hi)
    refine ⟨i, t, ht, k, s, ⟨hs, fun a ha => ?_⟩, rfl, rfl⟩
    obtain ⟨s', hs', ha'⟩ := mem_valuesOf.1 (hsub a (mem_valuesOf.2 ⟨t, ht, ha⟩))
    obtain rfl : s = s' := Option.some.inj (hs.symm.trans hs')
    exact ha'

omit [LawfulEqOrd α] in
/-- Grouping twice is grouping once. -/
theorem groupBy_groupBy (groups : MapOfSets κ α) (items : MapOfSets ι α) (m : MapOfSets κ ι) :
    groupBy groups items (groupBy groups items m) = groupBy groups items m := by
  rw [groupBy_eq, groupBy_eq]
  exact insertAll_insertAll (fun p hp => hp) m

/-- **What groups the items end up in.** -/
theorem mem_valuesOf_groupBy {groups : MapOfSets κ α} {items : MapOfSets ι α} {k : κ} {i : ι} :
    i ∈ valuesOf (groupBy groups items ∅) k ↔
      k ∈ groups ∧ i ∈ items ∧ ∀ a ∈ valuesOf items i, a ∈ valuesOf groups k := by
  rw [groupBy_eq, mem_valuesOf_insertAll, mem_groupPairs]
  exact or_iff_left mem_valuesOf_empty

/-! ## Lookups by member -/

omit [LawfulEqOrd α] in
/-- **A member in the set of one key only is found there.** -/
theorem keyOf_eq_iff {d : κ} {m : MapOfSets κ α} {a : α}
    (huniq : ∀ k k', a ∈ valuesOf m k → a ∈ valuesOf m k' → k = k') {k : κ} (hk : k ≠ d) :
    keyOf d m a = k ↔ a ∈ valuesOf m k := by
  have hfind : ∀ p ∈ m.toList, p.2.contains a = true → a ∈ valuesOf m p.1 := by
    intro p hp hcontains
    exact mem_valuesOf.2 ⟨p.2, ExtTreeMap.mem_toList_iff_getElem?_eq_some.1 hp,
      ExtTreeSet.contains_iff_mem.1 hcontains⟩
  simp only [keyOf]
  cases hf : m.toList.find? fun p => p.2.contains a with
  | none =>
    refine iff_of_false (Ne.symm hk) ?_
    intro ha
    obtain ⟨s, hs, hmem⟩ := mem_valuesOf.1 ha
    have hnone := List.find?_eq_none.1 hf (k, s) (ExtTreeMap.mem_toList_iff_getElem?_eq_some.2 hs)
    exact hnone (ExtTreeSet.contains_iff_mem.2 hmem)
  | some p =>
    have hcontains : p.2.contains a = true := by simpa using List.find?_some hf
    have hp := hfind p (List.mem_of_find?_eq_some hf) hcontains
    refine ⟨?_, ?_⟩
    · intro heq
      rw [← heq]
      exact hp
    · intro ha
      exact huniq p.1 k hp ha

end MapOfSets
