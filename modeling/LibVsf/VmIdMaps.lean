import LibVsf.Lib.SearchTree
import LibVsf.VmId

/-!
# Maps with `VmId`s as keys

The maps of `VmBase` and `VmCacheMiss` are search trees with the `operator<` of `VmId`, which is not
transitive. In the model they are lists, and a lookup takes the first entry whose key is `==`.

**Theorem (`maps_right_iff`).** For a set of VMs, every run of assignments and clears leaves the
same entries in the tree as in the list, in the same order, and a lookup in either finds the value
that was assigned last to an id that is `==`, whatever the tree's balancing, exactly if no three VMs
were started in close succession with pids in the order of the starts. With three such VMs there is
a tree that loses one of two or three entries.

So what is said of the lists is said of the maps where the ids are ordered lawfully
(`StrictWeakOn.weakOn`, `SearchTree.HeldOn`).
-/

namespace LibVsf

open EqvOrd

namespace VmId

instance : CompareOrd VmId where
  asymm a b h := by
    have hab : a.lt b := h
    show ¬ b.lt a
    simp only [lt, difftime, abs_le] at hab ⊢
    split_ifs at hab ⊢ <;> omega
  eqv_iff a b := by
    show a.eqv b ↔ ¬ a.lt b ∧ ¬ b.lt a
    simp only [eqv, lt, difftime, abs_le]
    split_ifs <;> omega

/-- Three VMs that are not ordered have been started in close succession. -/
theorem closeStarts_of_cycle {a b c : VmId} (hab : ¬ b.lt a) (hbc : ¬ c.lt b) (hca : c.lt a) :
    CloseStarts a b c ∨ CloseStarts b c a ∨ CloseStarts c a b := by
  simp only [CloseStarts, lt, difftime, abs_le] at hab hbc hca ⊢
  split_ifs at hab hbc hca <;> omega

theorem cycle_of_closeStarts {x y z : VmId} (h : CloseStarts x y z) :
    ¬ y.lt x ∧ ¬ z.lt y ∧ z.lt x := by
  simp only [CloseStarts, lt, difftime, abs_le] at h ⊢
  split_ifs <;> omega

/-- **Not coming before is transitive** where no three VMs have been. -/
theorem weakOn_iff {S : Set VmId} :
    WeakOn S ↔ ¬ ∃ x ∈ S, ∃ y ∈ S, ∃ z ∈ S, CloseStarts x y z := by
  refine ⟨fun h => ?_, fun h a ha b hb c hc hab hbc hca => ?_⟩
  · rintro ⟨x, hx, y, hy, z, hz, hclose⟩
    obtain ⟨hxy, hyz, hzx⟩ := cycle_of_closeStarts hclose
    exact h x hx y hy z hz hxy hyz hzx
  · rcases closeStarts_of_cycle hab hbc hca with hclose | hclose | hclose
    · exact h ⟨a, ha, b, hb, c, hc, hclose⟩
    · exact h ⟨b, hb, c, hc, a, ha, hclose⟩
    · exact h ⟨c, hc, a, ha, b, hb, hclose⟩

namespace StrictWeakOn

variable {S T : Set VmId}

/-- **What the containers need** is what the trees do. -/
theorem weakOn (h : StrictWeakOn S) : WeakOn S :=
  weakOn_iff.2 ((strictWeakOn_iff_no_closeStarts S).1 h)

theorem mono (h : StrictWeakOn T) (hST : S ⊆ T) : StrictWeakOn S := by
  refine (strictWeakOn_iff_no_closeStarts S).2 ?_
  rintro ⟨x, hx, y, hy, z, hz, hclose⟩
  exact (strictWeakOn_iff_no_closeStarts T).1 h ⟨x, hST hx, y, hST hy, z, hST hz, hclose⟩

/-- VMs that were started within two seconds. -/
theorem of_near (h : ∀ x ∈ S, ∀ z ∈ S, difftime z.startTimestamp x.startTimestamp ≤ 2) :
    StrictWeakOn S := by
  refine (strictWeakOn_iff_no_closeStarts S).2 ?_
  rintro ⟨x, hx, y, -, z, hz, -, -, hlater, -⟩
  exact absurd (h x hx z hz) (not_le.2 hlater)

theorem singleton (k : VmId) : StrictWeakOn {k} := by
  refine of_near fun x hx z hz => ?_
  rw [Set.mem_singleton_iff.1 hx, Set.mem_singleton_iff.1 hz, difftime, sub_self]
  decide

end StrictWeakOn

end VmId

/-! ## What insertions keep -/

/-- A property that insertions of ids of a set keep, and the keys are of the set. -/
structure KeptOn (S : Set VmId) (Q : ∀ α : Type, EqvMap VmId α → Prop) : Prop where
  empty : ∀ {α : Type}, Q α ∅
  insert : ∀ {α : Type} {m : EqvMap VmId α} {k : VmId} {x : α}, Q α m → k ∈ S → Q α (m.insert k x)
  mem : ∀ {α : Type} {m : EqvMap VmId α} {k : VmId}, Q α m → k ∈ m.keys → k ∈ S

section KeptOn

open SearchTree

variable {S : Set VmId} {Q : ∀ α : Type, EqvMap VmId α → Prop}

theorem KeptOn.insertIfNew (hQ : KeptOn S Q) {α : Type} {m : EqvMap VmId α} {k : VmId} {x : α}
    (h : Q α m) (hk : k ∈ S) : Q α (m.insertIfNew k x) := by
  simp only [EqvMap.insertIfNew]
  split_ifs
  · exact h
  · exact hQ.insert h hk

/-- Keys of a set. -/
theorem kept_keys (S : Set VmId) : KeptOn S fun _ m => ∀ k ∈ m.keys, k ∈ S where
  empty _ hk := absurd hk List.not_mem_nil
  insert h hk := EqvMap.forall_mem_keys_insert h hk _
  mem h hk := h _ hk

/-- Entries in order, with ids of a set. -/
theorem kept_sorted (hS : WeakOn S) : KeptOn S fun _ m => Sorted S m.entries where
  empty := .empty
  insert h hk := h.insert hS hk
  mem h hk := h.keys _ hk

end KeptOn

/-! ## Runs -/

open SearchTree in
/-- **The maps of VMs** are right exactly if no three VMs were started in close succession. -/
theorem VmId.maps_right_iff {α : Type} [Nontrivial α] (S : Set VmId) :
    (∀ balance : SearchTree VmId α → SearchTree VmId α, Keeps balance →
      ∀ ops : List (Op VmId α), (∀ op ∈ ops, op.On S) →
        (Runs.run (step balance) leaf ops).entries = (Runs.run mapStep ∅ ops).entries ∧
          ∀ k ∈ S, (Runs.run (step balance) leaf ops).find k = latest ops k ∧
            (Runs.run mapStep ∅ ops).find k = latest ops k) ↔
      ¬ ∃ x ∈ S, ∃ y ∈ S, ∃ z ∈ S, CloseStarts x y z := by
  rw [← weakOn_iff]
  refine ⟨fun h => ?_, fun hS balance hbalance ops hops => ?_⟩
  · refine (finds_latest_iff (α := α)).1 fun balance hbalance ops hops k hk => ?_
    exact ((h balance hbalance ops hops).2 k hk).1
  · refine ⟨(entries_run hS hbalance hops).entries_eq, fun k hk => ⟨?_, find_run hS hops hk⟩⟩
    exact finds_latest_iff.2 hS balance hbalance ops hops k hk

open SearchTree in
/-- VMs that are started every two seconds. -/
theorem VmId.maps_right_iff_threeVms :
    ¬ ∀ balance : SearchTree VmId Int → SearchTree VmId Int, Keeps balance →
      ∀ ops : List (Op VmId Int), (∀ op ∈ ops, op.On {⟨0, 1⟩, ⟨2, 2⟩, ⟨4, 3⟩}) →
        (Runs.run (step balance) leaf ops).entries = (Runs.run mapStep ∅ ops).entries ∧
          ∀ k ∈ ({⟨0, 1⟩, ⟨2, 2⟩, ⟨4, 3⟩} : Set VmId),
            (Runs.run (step balance) leaf ops).find k = latest ops k ∧
              (Runs.run mapStep ∅ ops).find k = latest ops k := by
  rw [maps_right_iff, not_not]
  exact ⟨⟨0, 1⟩, by simp, ⟨2, 2⟩, by simp, ⟨4, 3⟩, by simp, by decide, by decide, by decide,
    by decide, by decide⟩

end LibVsf
