import Mathlib.Data.List.Induction
import Mathlib.Data.List.TakeWhile
import Mathlib.Data.Set.Defs
import Mathlib.Tactic.Common

/-!
# Containers with equivalent keys

`std::set` and `std::map` take two keys for one if neither comes before the other. With an order
that has a tolerance such keys need not be equal: a lookup finds an entry with another key, and an
insertion keeps the key that is there.

The entries of an `EqvMap` are listed in the order of their keys, and no two keys are equivalent.
The equivalence need not be transitive; the containers of C++ are undefined where it is not. Where
it is, the entries are those of a search tree (`SearchTree`).

* `keys_insert`: an insertion changes the keys as it changes those of a set, so maps that are filled
  for the same keys have the same keys.
* `find_insert_self`, `find_insert_of_not_eqv`: lookups after an insertion.
* `find_insert`: the same for keys with an equivalence that is transitive.
* `foldl_insert`, `find_assignAll`: what loops of assignments leave.
* `find_fill_of_not_contains`, `fill_eq`: what a loop of `m[k]` leaves.
-/

/-- Keys with an order, and the equivalence of those it does not tell apart. -/
class EqvOrd (κ : Type*) where
  eqv : κ → κ → Prop
  lt : κ → κ → Prop
  [decEqv : DecidableRel eqv]
  [decLt : DecidableRel lt]
  eqv_refl : ∀ a, eqv a a
  eqv_symm : ∀ a b, eqv a b → eqv b a

open EqvOrd

instance {κ : Type*} [EqvOrd κ] (a b : κ) : Decidable (eqv a b) := decEqv a b

instance {κ : Type*} [EqvOrd κ] (a b : κ) : Decidable (lt a b) := decLt a b

/-- `std::map<κ, α>`. -/
structure EqvMap (κ α : Type*) [EqvOrd κ] where
  entries : List (κ × α)
  distinct : entries.Pairwise fun p q => ¬ eqv p.1 q.1

/-- `std::set<κ>`. -/
abbrev EqvSet (κ : Type*) [EqvOrd κ] := EqvMap κ Unit

namespace EqvMap

variable {κ α β : Type*} [EqvOrd κ]

/-! ## Operations -/

instance : EmptyCollection (EqvMap κ α) := ⟨⟨[], List.Pairwise.nil⟩⟩

def keys (m : EqvMap κ α) : List κ := m.entries.map Prod.fst

def contains (m : EqvMap κ α) (k : κ) : Bool := m.keys.any fun k' => eqv k' k

def find (m : EqvMap κ α) (k : κ) : Option α :=
  (m.entries.find? fun p => eqv p.1 k).map Prod.snd

/-- A key, before those it comes before. -/
def place (ks : List κ) (k : κ) : List κ :=
  ks.takeWhile (fun k' => lt k' k) ++ k :: ks.dropWhile fun k' => lt k' k

def insertKey (ks : List κ) (k : κ) : List κ :=
  if ks.any fun k' => eqv k' k then ks else place ks k

def added (m : EqvMap κ α) (k : κ) (x : α) : List (κ × α) :=
  m.entries.takeWhile (fun p => lt p.1 k) ++ (k, x) :: m.entries.dropWhile fun p => lt p.1 k

def overwritten (m : EqvMap κ α) (k : κ) (x : α) : List (κ × α) :=
  m.entries.map fun p => if eqv p.1 k then (p.1, x) else p

theorem added_perm (m : EqvMap κ α) (k : κ) (x : α) :
    (m.added k x).Perm ((k, x) :: m.entries) := by
  refine List.perm_middle.trans ?_
  rw [List.takeWhile_append_dropWhile]

theorem contains_eq_true {m : EqvMap κ α} {k : κ} :
    m.contains k = true ↔ ∃ k' ∈ m.keys, eqv k' k := by
  simp [contains]

theorem contains_eq_false {m : EqvMap κ α} {k : κ} :
    m.contains k = false ↔ ∀ k' ∈ m.keys, ¬ eqv k' k := by
  simp [contains]

theorem mem_keys_of_mem {m : EqvMap κ α} {p : κ × α} (h : p ∈ m.entries) : p.1 ∈ m.keys :=
  List.mem_map_of_mem h

theorem distinct_added {m : EqvMap κ α} {k : κ} (h : m.contains k = false) (x : α) :
    (m.added k x).Pairwise fun p q => ¬ eqv p.1 q.1 := by
  have hsymm : ∀ {p q : κ × α}, ¬ eqv p.1 q.1 → ¬ eqv q.1 p.1 := by
    intro p q hne heqv
    exact hne (eqv_symm _ _ heqv)
  refine ((m.added_perm k x).pairwise_iff hsymm).2 (List.pairwise_cons.2 ⟨?_, m.distinct⟩)
  intro p hp heqv
  exact contains_eq_false.1 h p.1 (mem_keys_of_mem hp) (eqv_symm _ _ heqv)

theorem map_fst_overwritten (m : EqvMap κ α) (k : κ) (x : α) :
    (m.overwritten k x).map Prod.fst = m.keys := by
  rw [overwritten, List.map_map]
  refine List.map_congr_left fun p _ => ?_
  simp only [Function.comp_apply]
  split_ifs <;> rfl

theorem distinct_overwritten (m : EqvMap κ α) (k : κ) (x : α) :
    (m.overwritten k x).Pairwise fun p q => ¬ eqv p.1 q.1 := by
  have hkeys : m.keys.Pairwise fun a b => ¬ eqv a b := List.pairwise_map.2 m.distinct
  rw [← map_fst_overwritten m k x] at hkeys
  exact List.pairwise_map.1 hkeys

/-- `m[k] = x`. -/
def insert (m : EqvMap κ α) (k : κ) (x : α) : EqvMap κ α :=
  if h : m.contains k = true then ⟨m.overwritten k x, m.distinct_overwritten k x⟩
  else ⟨m.added k x, distinct_added (Bool.eq_false_iff.2 h) x⟩

/-- `m[k]`, where it makes an entry with `x` if there is none. -/
def insertIfNew (m : EqvMap κ α) (k : κ) (x : α) : EqvMap κ α :=
  if m.contains k then m else m.insert k x

/-- A loop of `m[k]`. -/
def fill (m : EqvMap κ α) (ks : List κ) (x : α) : EqvMap κ α :=
  ks.foldl (fun m k => m.insertIfNew k x) m

/-! ## Keys -/

theorem keys_added (m : EqvMap κ α) (k : κ) (x : α) :
    (m.added k x).map Prod.fst = place m.keys k := by
  rw [added, place, keys, List.map_append, List.map_cons, List.takeWhile_map, List.dropWhile_map]
  rfl

/-- **The keys after an insertion** are those of a set after it. -/
theorem keys_insert (m : EqvMap κ α) (k : κ) (x : α) :
    (m.insert k x).keys = insertKey m.keys k := by
  simp only [insert, insertKey]
  split_ifs with h h' h'
  · exact map_fst_overwritten m k x
  · exact absurd h h'
  · exact absurd h' h
  · exact keys_added m k x

theorem keys_insertIfNew (m : EqvMap κ α) (k : κ) (x : α) :
    (m.insertIfNew k x).keys = insertKey m.keys k := by
  simp only [insertIfNew]
  split_ifs with h
  · exact (if_pos h).symm
  · exact keys_insert m k x

theorem place_perm (ks : List κ) (k : κ) : (place ks k).Perm (k :: ks) := by
  refine List.perm_middle.trans ?_
  rw [List.takeWhile_append_dropWhile]

/-- The keys after the insertion of a new one. -/
theorem mem_keys_insert {m : EqvMap κ α} {k : κ} (h : m.contains k = false) (x : α) {j : κ} :
    j ∈ (m.insert k x).keys ↔ j = k ∨ j ∈ m.keys := by
  have hkeys : (m.insert k x).keys = place m.keys k := by
    rw [keys_insert]
    exact if_neg (Bool.eq_false_iff.1 h)
  rw [hkeys, (place_perm m.keys k).mem_iff, List.mem_cons]

/-- The keys after an insertion are those that were there, and the new one. -/
theorem of_mem_keys_insert {m : EqvMap κ α} {k j : κ} {x : α} (h : j ∈ (m.insert k x).keys) :
    j = k ∨ j ∈ m.keys := by
  rw [keys_insert, insertKey] at h
  split_ifs at h
  · exact Or.inr h
  · exact List.mem_cons.1 ((place_perm m.keys k).mem_iff.1 h)

theorem keys_pairwise (m : EqvMap κ α) : m.keys.Pairwise fun a b => ¬ eqv a b :=
  List.pairwise_map.2 m.distinct

theorem contains_eq_of_keys_eq {m : EqvMap κ α} {m' : EqvMap κ β} (h : m.keys = m'.keys) (k : κ) :
    m.contains k = m'.contains k := by
  rw [contains, contains, h]

theorem contains_of_mem_keys {m : EqvMap κ α} {k : κ} (h : k ∈ m.keys) : m.contains k = true :=
  contains_eq_true.2 ⟨k, h, eqv_refl k⟩

theorem contains_insert_self (m : EqvMap κ α) (k : κ) (x : α) :
    (m.insert k x).contains k = true := by
  by_cases h : m.contains k = true
  · have hkeys : (m.insert k x).keys = m.keys := by
      rw [keys_insert]
      exact if_pos h
    rw [contains_eq_of_keys_eq hkeys]
    exact h
  · refine contains_of_mem_keys ?_
    have hkeys : (m.insert k x).keys = place m.keys k := by
      rw [keys_insert]
      exact if_neg h
    rw [hkeys]
    exact List.mem_append_right _ List.mem_cons_self

theorem insertIfNew_of_contains {m : EqvMap κ α} {k : κ} (h : m.contains k = true) (x : α) :
    m.insertIfNew k x = m :=
  if_pos h

/-! ## Lookups -/

theorem find_eq_none_iff {m : EqvMap κ α} {k : κ} : m.find k = none ↔ m.contains k = false := by
  simp [find, contains, keys]

theorem exists_of_find {m : EqvMap κ α} {k : κ} {x : α} (h : m.find k = some x) :
    ∃ p ∈ m.entries, eqv p.1 k ∧ p.2 = x := by
  obtain ⟨p, hp, hx⟩ := Option.map_eq_some_iff.1 h
  exact ⟨p, List.mem_of_find?_eq_some hp, by simpa using List.find?_some hp, hx⟩

/-- The entries after an insertion. -/
theorem mem_insert {m : EqvMap κ α} {k : κ} {x : α} {p : κ × α}
    (h : p ∈ (m.insert k x).entries) : p ∈ m.entries ∨ p.2 = x := by
  simp only [insert] at h
  split_ifs at h
  · obtain ⟨q, hq, rfl⟩ := List.mem_map.1 h
    split_ifs
    · exact Or.inr rfl
    · exact Or.inl hq
  · rcases List.mem_cons.1 ((m.added_perm k x).mem_iff.1 h) with rfl | h
    · exact Or.inr rfl
    · exact Or.inl h

/-- A lookup, where the keys that are equivalent are those with a property. -/
theorem find_eq_of_forall_mem_keys {m : EqvMap κ α} {k : κ} {P : κ → Prop} [DecidablePred P]
    (h : ∀ j ∈ m.keys, eqv j k ↔ P j) :
    m.find k = (m.entries.find? fun p => P p.1).map Prod.snd := by
  rw [find, ← List.head?_filter, ← List.head?_filter]
  refine congrArg (fun ps => (List.head? ps).map Prod.snd) (List.filter_congr fun p hp => ?_)
  exact decide_eq_decide.2 (h p.1 (mem_keys_of_mem hp))

/-- An insertion of a new key, from the front. -/
theorem find?_added {m : EqvMap κ α} {k : κ} (x : α) {j : κ} :
    (m.added k x).find? (fun p => eqv p.1 j) =
      ((m.entries.takeWhile fun p => lt p.1 k).find? fun p => eqv p.1 j).or
        (if eqv k j then some (k, x)
          else (m.entries.dropWhile fun p => lt p.1 k).find? fun p => eqv p.1 j) := by
  rw [added, List.find?_append, List.find?_cons]
  by_cases h : eqv k j <;> simp [h]

theorem find_insert_of_not_eqv {m : EqvMap κ α} {k j : κ} (hk : m.contains k = false)
    (h : ¬ eqv k j) (x : α) : (m.insert k x).find j = m.find j := by
  have hne : ¬ m.contains k = true := Bool.eq_false_iff.1 hk
  simp only [insert, hne, dif_neg, not_false_eq_true, Bool.false_eq_true, find, find?_added, h,
    if_false]
  rw [← List.find?_append, List.takeWhile_append_dropWhile]

theorem find_insert_self (m : EqvMap κ α) (k : κ) (x : α) : (m.insert k x).find k = some x := by
  by_cases h : m.contains k = true
  · have hfind : (m.insert k x).find k ≠ none := by
      rw [Ne, find_eq_none_iff, contains_insert_self]
      decide
    obtain ⟨y, hy⟩ := Option.ne_none_iff_exists'.1 hfind
    obtain ⟨p, hp, heqv, rfl⟩ := exists_of_find hy
    rw [hy]
    simp only [insert, h, dif_pos] at hp
    obtain ⟨q, -, rfl⟩ := List.mem_map.1 hp
    split_ifs at heqv ⊢
    · rfl
    · contradiction
  · have hnone : (m.entries.takeWhile fun p => lt p.1 k).find? (fun p => eqv p.1 k) = none := by
      rw [List.find?_eq_none]
      intro p hp heqv
      refine h (contains_eq_true.2 ⟨p.1, mem_keys_of_mem ?_, of_decide_eq_true heqv⟩)
      exact (List.takeWhile_prefix _).subset hp
    simp only [insert, h, dif_neg, not_false_eq_true, Bool.false_eq_true, find, find?_added, hnone,
      eqv_refl, if_true]
    rfl

/-! ## Keys with a transitive equivalence -/

/-- The equivalence is transitive on a set. -/
def TransOn (S : Set κ) : Prop :=
  ∀ a ∈ S, ∀ b ∈ S, ∀ c ∈ S, eqv a b → eqv b c → eqv a c

section TransOn

variable {S : Set κ} {m : EqvMap κ α} {k k' : κ}

/-- Equivalent keys are looked up alike. -/
theorem find_congr (hS : TransOn S) (hm : ∀ j ∈ m.keys, j ∈ S) (hk : k ∈ S) (hk' : k' ∈ S)
    (heqv : eqv k k') : m.find k = m.find k' := by
  have hsame : m.entries.find? (fun p => eqv p.1 k) = m.entries.find? fun p => eqv p.1 k' := by
    rw [← List.head?_filter, ← List.head?_filter]
    refine congrArg List.head? (List.filter_congr fun p hp => ?_)
    have hpS := hm p.1 (mem_keys_of_mem hp)
    refine decide_eq_decide.2 ⟨fun hpk => ?_, fun hpk => ?_⟩
    · exact hS p.1 hpS k hk k' hk' hpk heqv
    · exact hS p.1 hpS k' hk' k hk hpk (eqv_symm _ _ heqv)
  exact congrArg (Option.map Prod.snd) hsame

theorem forall_mem_keys_insert (hm : ∀ j ∈ m.keys, j ∈ S) (hk : k ∈ S) (x : α) :
    ∀ j ∈ (m.insert k x).keys, j ∈ S := by
  intro j hj
  rcases of_mem_keys_insert hj with rfl | hj
  · exact hk
  · exact hm j hj

/-- **A lookup after an insertion.** -/
theorem find_insert (hS : TransOn S) (hm : ∀ j ∈ m.keys, j ∈ S) (hk : k ∈ S) (hk' : k' ∈ S)
    (x : α) : (m.insert k x).find k' = if eqv k k' then some x else m.find k' := by
  by_cases heqv : eqv k k'
  · rw [if_pos heqv, ← find_congr hS (forall_mem_keys_insert hm hk x) hk hk' heqv]
    exact m.find_insert_self k x
  rw [if_neg heqv]
  by_cases hcontains : m.contains k = true
  · have hkeep : ∀ q ∈ m.entries.find? (fun p => eqv p.1 k'), ¬ eqv q.1 k := by
      intro q hq hqk
      have hqk' : eqv q.1 k' := by simpa using List.find?_some hq
      have hqS := hm q.1 (mem_keys_of_mem (List.mem_of_find?_eq_some hq))
      exact heqv (hS k hk q.1 hqS k' hk' (eqv_symm _ _ hqk) hqk')
    have hkeys : (fun p : κ × α => decide (eqv p.1 k')) ∘
        (fun p => if eqv p.1 k then (p.1, x) else p) = fun p => decide (eqv p.1 k') := by
      funext p
      simp only [Function.comp_apply]
      split_ifs <;> rfl
    rw [insert, dif_pos hcontains]
    show ((m.overwritten k x).find? fun p => eqv p.1 k').map Prod.snd = _
    rw [overwritten, List.find?_map, hkeys, find]
    cases hfind : m.entries.find? fun p => eqv p.1 k' with
    | none => rfl
    | some q =>
      rw [Option.map_some, if_neg (hkeep q hfind)]
  · exact find_insert_of_not_eqv (Bool.eq_false_iff.2 hcontains) heqv x

end TransOn

/-! ## Loops of assignments -/

/-- An assignment, if there is a value. -/
def assign (m : EqvMap κ α) (k : κ) (x : Option α) : EqvMap κ α := x.elim m (m.insert k)

theorem contains_assign_of_not_eqv {m : EqvMap κ α} {k j : κ} (hk : m.contains k = false)
    (hj : m.contains j = false) (h : ¬ eqv k j) (x : Option α) :
    (m.assign k x).contains j = false := by
  cases x with
  | none => exact hj
  | some x =>
    refine contains_eq_false.2 fun i hi => ?_
    rcases (mem_keys_insert hk x).1 hi with rfl | hi
    · exact h
    · exact contains_eq_false.1 hj i hi

theorem find_assign_of_not_eqv {m : EqvMap κ α} {k j : κ} (hk : m.contains k = false)
    (h : ¬ eqv k j) (x : Option α) : (m.assign k x).find j = m.find j := by
  cases x with
  | none => rfl
  | some x => exact find_insert_of_not_eqv hk h x

theorem find_assign_self {m : EqvMap κ α} {k : κ} (hk : m.contains k = false) (x : Option α) :
    (m.assign k x).find k = x := by
  cases x with
  | none => exact find_eq_none_iff.2 hk
  | some x => exact find_insert_self m k x

/-- A second assignment to a new key takes the place of the first. -/
theorem insert_insert {m : EqvMap κ α} {k : κ} (h : m.contains k = false) (x y : α) :
    (m.insert k x).insert k y = m.insert k y := by
  have hne : ¬ m.contains k = true := Bool.eq_false_iff.1 h
  have hentries (z : α) : (m.insert k z).entries = m.added k z := by
    rw [insert, dif_neg hne]
  have hkeep (ps : List (κ × α)) (hps : ∀ p ∈ ps, p ∈ m.entries) :
      ps.map (fun p => if eqv p.1 k then (p.1, y) else p) = ps := by
    refine (List.map_congr_left fun p hp => ?_).trans (List.map_id ps)
    exact if_neg (contains_eq_false.1 h p.1 (mem_keys_of_mem (hps p hp)))
  have hoverwritten : (m.insert k x).overwritten k y = m.added k y := by
    rw [overwritten, hentries, added, added, List.map_append, List.map_cons, if_pos (eqv_refl k),
      hkeep _ fun p hp => (List.takeWhile_prefix _).subset hp,
      hkeep _ fun p hp => (List.dropWhile_suffix _).subset hp]
  have heq : ((m.insert k x).insert k y).entries = (m.insert k y).entries := by
    rw [hentries, insert, dif_pos (contains_insert_self m k x)]
    exact hoverwritten
  cases hl : (m.insert k x).insert k y
  cases hr : m.insert k y
  rw [hl, hr] at heq
  cases heq
  rfl

/-- **The last of several assignments** to a new key is left. -/
theorem foldl_insert {m : EqvMap κ α} {k : κ} (h : m.contains k = false) (xs : List α) :
    xs.foldl (fun m x => m.insert k x) m = m.assign k xs.getLast? := by
  induction xs using List.reverseRecOn with
  | nil => rfl
  | append_singleton xs x ih =>
    rw [List.foldl_append, ih, List.getLast?_concat]
    cases xs.getLast? with
    | none => rfl
    | some y => exact insert_insert h y x

section Assignments

variable {ι : Type*} (key : ι → κ) (value : ι → Option α)

/-- A loop of assignments. -/
def assignAll (m : EqvMap κ α) (is : List ι) : EqvMap κ α :=
  is.foldl (fun m i => m.assign (key i) (value i)) m

/-- Keys that are not there, and that are told apart. -/
structure New (m : EqvMap κ α) (is : List ι) : Prop where
  contains : ∀ i ∈ is, m.contains (key i) = false
  apart : is.Pairwise fun i j => ¬ eqv (key i) (key j)

variable {key value}

theorem New.assign {m : EqvMap κ α} {i : ι} {is : List ι} (h : New key m (i :: is))
    (x : Option α) : New key (m.assign (key i) x) is := by
  obtain ⟨hcontains, hapart⟩ := h
  obtain ⟨hi, his⟩ := List.forall_mem_cons.1 hcontains
  obtain ⟨hone, hrest⟩ := List.pairwise_cons.1 hapart
  exact ⟨fun j hj => contains_assign_of_not_eqv hi (his j hj) (hone j hj) x, hrest⟩

theorem find_assignAll_of_not_eqv {m : EqvMap κ α} {is : List ι} (h : New key m is) {j : κ}
    (hj : ∀ i ∈ is, ¬ eqv (key i) j) : (m.assignAll key value is).find j = m.find j := by
  induction is generalizing m with
  | nil => rfl
  | cons i is ih =>
    obtain ⟨hi, his⟩ := List.forall_mem_cons.1 hj
    refine (ih (h.assign (value i)) his).trans ?_
    exact find_assign_of_not_eqv (h.contains i List.mem_cons_self) hi (value i)

/-- **Each key has its value** after a loop of assignments. -/
theorem find_assignAll {m : EqvMap κ α} {is : List ι} (h : New key m is) {i : ι} (hi : i ∈ is) :
    (m.assignAll key value is).find (key i) = value i := by
  induction is generalizing m with
  | nil => cases hi
  | cons i' is ih =>
    rcases List.mem_cons.1 hi with rfl | hi
    · obtain ⟨hone, -⟩ := List.pairwise_cons.1 h.apart
      refine (find_assignAll_of_not_eqv (h.assign (value i)) fun j hj heqv => ?_).trans ?_
      · exact hone j hj (eqv_symm _ _ heqv)
      · exact find_assign_self (h.contains i List.mem_cons_self) (value i)
    · exact ih (h.assign (value i')) hi

/-- The keys are those that were there, and the new ones. -/
theorem keys_assignAll {m : EqvMap κ α} {is : List ι} (h : New key m is)
    (hvalue : ∀ i ∈ is, (value i).isSome) :
    (m.assignAll key value is).keys.Perm (is.map key ++ m.keys) := by
  induction is generalizing m with
  | nil => exact List.Perm.refl _
  | cons i is ih =>
    obtain ⟨hi, his⟩ := List.forall_mem_cons.1 hvalue
    obtain ⟨x, hx⟩ := Option.isSome_iff_exists.1 hi
    have hkeys : (m.assign (key i) (value i)).keys.Perm (key i :: m.keys) := by
      have hnot : ¬ m.contains (key i) = true :=
        Bool.eq_false_iff.1 (h.contains i List.mem_cons_self)
      have hplace : (m.insert (key i) x).keys = place m.keys (key i) := by
        rw [keys_insert]
        exact if_neg hnot
      rw [hx, assign, Option.elim_some, hplace]
      exact place_perm m.keys (key i)
    refine (ih (h.assign (value i)) his).trans ?_
    exact ((List.Perm.append_left (is.map key) hkeys).trans List.perm_middle)

end Assignments

/-! ## Loops of lookups that insert -/

theorem subset_insertKey (ks : List κ) (k : κ) : ks ⊆ insertKey ks k := by
  simp only [insertKey]
  split_ifs
  · exact List.Subset.refl ks
  · intro j hj
    exact (place_perm ks k).mem_iff.2 (List.mem_cons_of_mem k hj)

theorem contains_insertIfNew {m : EqvMap κ α} {j : κ} (h : m.contains j = true) (k : κ) (x : α) :
    (m.insertIfNew k x).contains j = true := by
  obtain ⟨k', hk', heqv⟩ := contains_eq_true.1 h
  refine contains_eq_true.2 ⟨k', ?_, heqv⟩
  rw [keys_insertIfNew]
  exact subset_insertKey _ k hk'

theorem contains_insertIfNew_self (m : EqvMap κ α) (k : κ) (x : α) :
    (m.insertIfNew k x).contains k = true := by
  by_cases h : m.contains k = true
  · exact contains_insertIfNew h k x
  · simp only [insertIfNew, h, Bool.false_eq_true, if_false]
    exact contains_insert_self m k x

theorem contains_fill {m : EqvMap κ α} {ks : List κ} {j : κ} (h : j ∈ ks ∨ m.contains j = true)
    (x : α) : (m.fill ks x).contains j = true := by
  induction ks generalizing m with
  | nil => exact h.resolve_left List.not_mem_nil
  | cons k ks ih =>
    refine ih ?_
    rcases h with h | h
    · rcases List.mem_cons.1 h with rfl | h
      · exact Or.inr (contains_insertIfNew_self m j x)
      · exact Or.inl h
    · exact Or.inr (contains_insertIfNew h k x)

theorem mem_fill {m : EqvMap κ α} {ks : List κ} {x : α} {p : κ × α}
    (h : p ∈ (m.fill ks x).entries) : p ∈ m.entries ∨ p.2 = x := by
  induction ks generalizing m with
  | nil => exact Or.inl h
  | cons k ks ih =>
    rcases ih h with h | h
    · simp only [insertIfNew] at h
      split_ifs at h
      · exact Or.inl h
      · exact mem_insert h
    · exact Or.inr h

theorem find_insertIfNew_of_not_eqv {m : EqvMap κ α} {k j : κ} (h : ¬ eqv k j) (x : α) :
    (m.insertIfNew k x).find j = m.find j := by
  by_cases hk : m.contains k = true
  · rw [insertIfNew_of_contains hk]
  · rw [insertIfNew, if_neg hk]
    exact find_insert_of_not_eqv (Bool.eq_false_iff.2 hk) h x

theorem find_insertIfNew_self (m : EqvMap κ α) (k : κ) (x : α) :
    (m.insertIfNew k x).find k = some ((m.find k).getD x) := by
  by_cases hk : m.contains k = true
  · rw [insertIfNew_of_contains hk]
    cases hfind : m.find k with
    | none => exact absurd hk (Bool.eq_false_iff.1 (find_eq_none_iff.1 hfind))
    | some y => rfl
  · rw [insertIfNew, if_neg hk, find_insert_self, find_eq_none_iff.2 (Bool.eq_false_iff.2 hk)]
    rfl

theorem find_fill_of_not_eqv {m : EqvMap κ α} {ks : List κ} {j : κ}
    (h : ∀ k ∈ ks, ¬ eqv k j) (x : α) : (m.fill ks x).find j = m.find j := by
  induction ks generalizing m with
  | nil => rfl
  | cons k ks ih =>
    obtain ⟨hk, hks⟩ := List.forall_mem_cons.1 h
    exact (ih hks).trans (find_insertIfNew_of_not_eqv hk x)

/-- **Each key is there** after a loop of lookups, with the value that it had. -/
theorem find_fill {m : EqvMap κ α} {ks : List κ} (hks : ks.Pairwise fun k j => ¬ eqv k j) {k : κ}
    (hk : k ∈ ks) (x : α) : (m.fill ks x).find k = some ((m.find k).getD x) := by
  induction ks generalizing m with
  | nil => cases hk
  | cons j ks ih =>
    obtain ⟨hj, hks⟩ := List.pairwise_cons.1 hks
    rcases List.mem_cons.1 hk with rfl | hk
    · have hlater : ∀ i ∈ ks, ¬ eqv i k := fun i hi heqv => hj i hi (eqv_symm _ _ heqv)
      exact (find_fill_of_not_eqv hlater x).trans (find_insertIfNew_self m k x)
    · refine (ih hks hk).trans ?_
      rw [find_insertIfNew_of_not_eqv (hj k hk)]

/-- **Keys that are there** are not inserted. -/
theorem fill_eq {m : EqvMap κ α} {ks : List κ} (h : ∀ k ∈ ks, m.contains k = true) (x : α) :
    m.fill ks x = m := by
  induction ks with
  | nil => rfl
  | cons k ks ih =>
    obtain ⟨hk, hks⟩ := List.forall_mem_cons.1 h
    show (m.insertIfNew k x).fill ks x = m
    rw [insertIfNew_of_contains hk]
    exact ih hks

/-- **A key that was not there** has been inserted. -/
theorem find_fill_of_not_contains {m : EqvMap κ α} {ks : List κ} {k : κ} (hk : k ∈ ks)
    (h : m.contains k = false) (x : α) : (m.fill ks x).find k = some x := by
  have hsome : (m.fill ks x).find k ≠ none := by
    rw [Ne, find_eq_none_iff, contains_fill (Or.inl hk)]
    decide
  obtain ⟨y, hy⟩ := Option.ne_none_iff_exists'.1 hsome
  obtain ⟨p, hp, heqv, rfl⟩ := exists_of_find hy
  rcases mem_fill hp with hp | hp
  · exact absurd heqv (contains_eq_false.1 h p.1 (mem_keys_of_mem hp))
  · rw [hy, hp]

/-- **A loop of lookups is seen** by lookups with another default, unless all keys are there. -/
theorem find_fill_iff {m : EqvMap κ α} {ks : List κ} {x y : α} (hne : y ≠ x) :
    (∀ k, (m.find k).getD y = ((m.fill ks x).find k).getD y) ↔
      ∀ k ∈ ks, m.contains k = true := by
  refine ⟨?_, ?_⟩
  · intro h k hk
    by_contra hnot
    have hcontains := Bool.eq_false_iff.2 hnot
    have heq := h k
    rw [find_fill_of_not_contains hk hcontains, find_eq_none_iff.2 hcontains] at heq
    exact hne heq
  · intro h k
    rw [fill_eq h]

end EqvMap
