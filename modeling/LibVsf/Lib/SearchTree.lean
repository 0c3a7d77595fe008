import LibVsf.Lib.EqvMap
import LibVsf.Lib.Runs

/-!
# Search trees

`std::map` and `std::set` are search trees: a lookup goes down from the root, to the right where the
key of a node comes before the one that is looked up. An insertion balances the tree anew, which
keeps the order of its entries and nothing else.

**Theorem (`finds_latest_iff`).** Whatever the balancing, after every run of assignments and clears
with keys of a set, a lookup finds the value assigned last to an equivalent key, exactly if *not
coming before* is transitive on the set.

* `entries_run`: the trees then have the entries of an `EqvMap`.
* `Sorted.heldOn`: what a tree does is what the map with its entries does.
* `exists_lost`: if it is not, a tree of two or three entries loses one of them.
-/

open EqvOrd

/-- An order that tells apart all keys but the equivalent ones. -/
class CompareOrd (κ : Type*) [EqvOrd κ] : Prop where
  asymm : ∀ a b : κ, lt a b → ¬ lt b a
  eqv_iff : ∀ a b : κ, eqv a b ↔ ¬ lt a b ∧ ¬ lt b a

/-- Not coming before is transitive on a set. -/
def WeakOn {κ : Type*} [EqvOrd κ] (S : Set κ) : Prop :=
  ∀ a ∈ S, ∀ b ∈ S, ∀ c ∈ S, ¬ lt b a → ¬ lt c b → ¬ lt c a

inductive SearchTree (κ α : Type*) where
  | leaf
  | node (left : SearchTree κ α) (key : κ) (value : α) (right : SearchTree κ α)

namespace SearchTree

variable {κ α : Type*}

/-- The entries, in the order of the iterators. -/
def entries : SearchTree κ α → List (κ × α)
  | leaf => []
  | node l k x r => l.entries ++ (k, x) :: r.entries

/-- A tree that only goes to the left. -/
def spine (es : List (κ × α)) : SearchTree κ α :=
  es.foldl (fun t p => node t p.1 p.2 leaf) leaf

theorem entries_spine (es : List (κ × α)) : (spine es).entries = es := by
  induction es using List.reverseRecOn with
  | nil => rfl
  | append_singleton es p ih =>
    rw [spine, List.foldl_append, ← spine]
    show (spine es).entries ++ [(p.1, p.2)] = _
    rw [ih]

variable [EqvOrd κ]

/-! ## Operations -/

/-- `lower_bound`: the last node from which the way goes to the left, or `y`. -/
def lowerBound (k : κ) : SearchTree κ α → Option (κ × α) → Option (κ × α)
  | leaf, y => y
  | node l k' x r, y => if lt k' k then r.lowerBound k y else l.lowerBound k (some (k', x))

/-- `find`. -/
def find (t : SearchTree κ α) (k : κ) : Option α :=
  match t.lowerBound k none with
  | none => none
  | some (k', x) => if lt k k' then none else some x

/-- A new node, where the way ends. -/
def add (k : κ) (x : α) : SearchTree κ α → SearchTree κ α
  | leaf => node leaf k x leaf
  | node l k' x' r => if lt k' k then node l k' x' (r.add k x) else node (l.add k x) k' x' r

/-- An assignment to the lower bound. -/
def overwrite (k : κ) (x : α) : SearchTree κ α → SearchTree κ α
  | leaf => leaf
  | node l k' x' r =>
    if lt k' k then node l k' x' (r.overwrite k x)
    else if (l.lowerBound k none).isSome then node (l.overwrite k x) k' x' r
    else node l k' x r

/-- `m[k] = x`, before the tree is balanced. -/
def assign (t : SearchTree κ α) (k : κ) (x : α) : SearchTree κ α :=
  match t.lowerBound k none with
  | none => t.add k x
  | some (k', _) => if lt k k' then t.add k x else t.overwrite k x

/-! ## Runs -/

inductive Op (κ α : Type*) where
  | assign (k : κ) (x : α)
  | clear

/-- The keys are in a set. -/
def Op.On (S : Set κ) : Op κ α → Prop
  | .assign k _ => k ∈ S
  | .clear => True

/-- A balancing keeps the order of the entries. -/
def Keeps (balance : SearchTree κ α → SearchTree κ α) : Prop :=
  ∀ t, (balance t).entries = t.entries

def step (balance : SearchTree κ α → SearchTree κ α) (t : SearchTree κ α) :
    Op κ α → SearchTree κ α
  | .assign k x => balance (t.assign k x)
  | .clear => leaf

/-- The operation on the map that the tree stands for. -/
def mapStep (m : EqvMap κ α) : Op κ α → EqvMap κ α
  | .assign k x => m.insert k x
  | .clear => ∅

def latestStep (k : κ) (x : Option α) : Op κ α → Option α
  | .assign k' x' => if eqv k' k then some x' else x
  | .clear => none

/-- The value assigned last to an equivalent key, since all was cleared. -/
def latest (ops : List (Op κ α)) (k : κ) : Option α := ops.foldl (latestStep k) none

/-! ## Trees and their entries -/

section Cut

variable {β : Type*} {p : β → Bool} {l r : List β} {c : β}

theorem dropWhile_right (h : ∀ a ∈ l, p a) (hc : p c) :
    (l ++ c :: r).dropWhile p = r.dropWhile p ∧
      (l ++ c :: r).takeWhile p = l ++ c :: r.takeWhile p := by
  rw [List.dropWhile_append_of_pos h, List.takeWhile_append_of_pos h, List.dropWhile_cons_of_pos hc,
    List.takeWhile_cons_of_pos hc]
  exact ⟨rfl, rfl⟩

theorem dropWhile_left (hc : ¬ p c) :
    (l ++ c :: r).dropWhile p = l.dropWhile p ++ c :: r ∧
      (l ++ c :: r).takeWhile p = l.takeWhile p := by
  induction l with
  | nil => exact ⟨List.dropWhile_cons_of_neg hc, List.takeWhile_cons_of_neg hc⟩
  | cons a l ih =>
    by_cases ha : p a
    · rw [List.cons_append, List.dropWhile_cons_of_pos ha, List.takeWhile_cons_of_pos ha,
        List.dropWhile_cons_of_pos ha, List.takeWhile_cons_of_pos ha, ih.1, ih.2]
      exact ⟨rfl, rfl⟩
    · rw [List.cons_append, List.dropWhile_cons_of_neg ha, List.takeWhile_cons_of_neg ha,
        List.dropWhile_cons_of_neg ha, List.takeWhile_cons_of_neg ha]
      exact ⟨rfl, rfl⟩

end Cut

variable {t l r : SearchTree κ α} {k k' : κ} {x x' : α} {es : List (κ × α)}

/-- The entries before the lower bound. -/
def before (k : κ) (es : List (κ × α)) : List (κ × α) := es.takeWhile fun p => lt p.1 k

/-- The entries from the lower bound on. -/
def rest (k : κ) (es : List (κ × α)) : List (κ × α) := es.dropWhile fun p => lt p.1 k

theorem before_append_rest (k : κ) (es : List (κ × α)) : before k es ++ rest k es = es :=
  List.takeWhile_append_dropWhile

theorem lt_of_mem_before {p : κ × α} (h : p ∈ before k es) : lt p.1 k := by
  simpa using List.mem_takeWhile_imp h

theorem not_lt_of_rest {p : κ × α} {ps : List (κ × α)} (h : rest k es = p :: ps) :
    ¬ lt p.1 k := by
  have hhead := List.head?_dropWhile_not (fun p : κ × α => decide (lt p.1 k)) es
  rw [← rest, h, List.head?_cons] at hhead
  simpa using hhead

/-- The keys that come before `k` are a beginning. -/
def Cut (k : κ) (es : List (κ × α)) : Prop := es.Pairwise fun p q => lt q.1 k → lt p.1 k

theorem Cut.left (h : Cut k (node l k' x' r).entries) : Cut k l.entries :=
  (List.pairwise_append.1 h).1

theorem Cut.right (h : Cut k (node l k' x' r).entries) : Cut k r.entries :=
  (List.pairwise_cons.1 (List.pairwise_append.1 h).2.1).2

theorem Cut.split_right (h : Cut k (node l k' x' r).entries) (hlt : lt k' k) :
    rest k (node l k' x' r).entries = rest k r.entries ∧
      before k (node l k' x' r).entries = l.entries ++ (k', x') :: before k r.entries := by
  refine dropWhile_right (fun p hp => ?_) (decide_eq_true hlt)
  have hbefore := (List.pairwise_append.1 h).2.2 p hp (k', x') List.mem_cons_self
  exact decide_eq_true (hbefore hlt)

theorem split_left (l r : SearchTree κ α) (x' : α) (hlt : ¬ lt k' k) :
    rest k (node l k' x' r).entries = rest k l.entries ++ (k', x') :: r.entries ∧
      before k (node l k' x' r).entries = before k l.entries :=
  dropWhile_left (by simpa using hlt)

/-- **The lower bound** is the first entry that does not come before `k`. -/
theorem lowerBound_eq (h : Cut k t.entries) (y : Option (κ × α)) :
    t.lowerBound k y = (rest k t.entries).head?.or y := by
  induction t generalizing y with
  | leaf => rfl
  | node l k' x r ihl ihr =>
    rw [lowerBound]
    by_cases hlt : lt k' k
    · rw [if_pos hlt, (h.split_right hlt).1, ihr h.right]
    · rw [if_neg hlt, (split_left l r x hlt).1, ihl h.left, List.head?_append, List.head?_cons]
      cases (rest k l.entries).head? <;> rfl

theorem entries_add (h : Cut k t.entries) :
    (t.add k x).entries = before k t.entries ++ (k, x) :: rest k t.entries := by
  induction t with
  | leaf => rfl
  | node l k' x' r ihl ihr =>
    rw [add]
    by_cases hlt : lt k' k
    · obtain ⟨hrest, hbefore⟩ := h.split_right hlt
      rw [if_pos hlt, entries, ihr h.right, hrest, hbefore, List.append_assoc, List.cons_append]
    · obtain ⟨hrest, hbefore⟩ := split_left l r x' hlt
      rw [if_neg hlt, entries, ihl h.left, hrest, hbefore, List.append_assoc, List.cons_append]

theorem entries_overwrite (h : Cut k t.entries) {p : κ × α} {ps : List (κ × α)}
    (hp : rest k t.entries = p :: ps) :
    (t.overwrite k x).entries = before k t.entries ++ (p.1, x) :: ps := by
  induction t generalizing ps with
  | leaf => cases hp
  | node l k' x' r ihl ihr =>
    rw [overwrite]
    by_cases hlt : lt k' k
    · obtain ⟨hrest, hbefore⟩ := h.split_right hlt
      rw [hrest] at hp
      rw [if_pos hlt, entries, ihr h.right hp, hbefore, List.append_assoc, List.cons_append]
    · obtain ⟨hrest, hbefore⟩ := split_left l r x' hlt
      rw [hrest] at hp
      rw [if_neg hlt, lowerBound_eq h.left, hbefore]
      cases hl : rest k l.entries with
      | nil =>
        rw [hl, List.nil_append] at hp
        obtain ⟨rfl, rfl⟩ := List.cons.inj hp
        have hall := before_append_rest k l.entries
        rw [hl, List.append_nil] at hall
        rw [hall]
        rfl
      | cons q qs =>
        rw [hl, List.cons_append] at hp
        obtain ⟨rfl, rfl⟩ := List.cons.inj hp
        have hleft := ihl h.left hl
        simp [entries, hleft]

/-! ## Sorted entries -/

section Sorted

variable [CompareOrd κ] {S : Set κ}

theorem not_eqv_of_lt {a b : κ} (h : lt a b) : ¬ eqv a b :=
  fun heqv => ((CompareOrd.eqv_iff a b).1 heqv).1 h

theorem lt_trans_on (hS : WeakOn S) {a b c : κ} (ha : a ∈ S) (hb : b ∈ S) (hc : c ∈ S)
    (hab : lt a b) (hbc : lt b c) : lt a c := by
  by_contra hac
  exact hS b hb c hc a ha (CompareOrd.asymm b c hbc) hac hab

theorem transOn (hS : WeakOn S) : EqvMap.TransOn S := by
  intro a ha b hb c hc hab hbc
  obtain ⟨hab, hba⟩ := (CompareOrd.eqv_iff a b).1 hab
  obtain ⟨hbc, hcb⟩ := (CompareOrd.eqv_iff b c).1 hbc
  exact (CompareOrd.eqv_iff a c).2 ⟨hS c hc b hb a ha hbc hab, hS a ha b hb c hc hba hcb⟩

/-- Entries in order, with keys of a set. -/
structure Sorted (S : Set κ) (es : List (κ × α)) : Prop where
  on : ∀ p ∈ es, p.1 ∈ S
  sorted : es.Pairwise fun p q => lt p.1 q.1

omit [CompareOrd κ] in
theorem Sorted.keys {m : EqvMap κ α} (h : Sorted S m.entries) : ∀ k ∈ m.keys, k ∈ S := by
  intro k hk
  obtain ⟨p, hp, rfl⟩ := List.mem_map.1 hk
  exact h.on p hp

theorem Sorted.cut (hS : WeakOn S) (h : Sorted S es) (hk : k ∈ S) : Cut k es :=
  h.sorted.imp_of_mem fun hp hq hlt hqk => lt_trans_on hS (h.on _ hp) (h.on _ hq) hk hlt hqk

/-- Where a key belongs in sorted entries. -/
inductive Place (k : κ) (es : List (κ × α)) : Prop where
  | new (hlt : ∀ p ∈ rest k es, lt k p.1)
  | found (p : κ × α) (ps : List (κ × α)) (hrest : rest k es = p :: ps) (heqv : eqv p.1 k)
      (hlt : ∀ q ∈ ps, lt k q.1)

theorem Sorted.place (hS : WeakOn S) (h : Sorted S es) (hk : k ∈ S) : Place k es := by
  cases hrest : rest k es with
  | nil => exact .new fun p hp => absurd (hrest ▸ hp) List.not_mem_nil
  | cons p ps =>
    have hes : before k es ++ p :: ps = es := by
      rw [← hrest]
      exact before_append_rest k es
    have hmem (q : κ × α) (hq : q ∈ p :: ps) : q.1 ∈ S :=
      h.on q (hes ▸ List.mem_append_right _ hq)
    have hlater : ∀ q ∈ ps, lt p.1 q.1 := by
      have hsorted := h.sorted
      rw [← hes] at hsorted
      exact (List.pairwise_cons.1 (List.pairwise_append.1 hsorted).2.1).1
    have hfirst := not_lt_of_rest hrest
    have hp := hmem p List.mem_cons_self
    by_cases hlt : lt k p.1
    · refine .new fun q hq => ?_
      rw [hrest] at hq
      rcases List.mem_cons.1 hq with rfl | hq
      · exact hlt
      · exact lt_trans_on hS hk hp (hmem q (List.mem_cons_of_mem p hq)) hlt (hlater q hq)
    · have heqv : eqv p.1 k := (CompareOrd.eqv_iff p.1 k).2 ⟨hfirst, hlt⟩
      refine .found p ps hrest heqv fun q hq => ?_
      have hqS := hmem q (List.mem_cons_of_mem p hq)
      by_contra hkq
      exact hS q.1 hqS k hk p.1 hp hkq hfirst (hlater q hq)

theorem not_eqv_of_mem_before {p : κ × α} (h : p ∈ before k es) : ¬ eqv p.1 k :=
  not_eqv_of_lt (lt_of_mem_before h)

theorem not_eqv_of_gt {a b : κ} (h : lt b a) : ¬ eqv a b :=
  fun heqv => ((CompareOrd.eqv_iff a b).1 heqv).2 h

/-- The entry with an equivalent key. -/
theorem find?_eq_rest (es : List (κ × α)) :
    es.find? (fun p => eqv p.1 k) = (rest k es).find? fun p => eqv p.1 k := by
  have hbefore : (before k es).find? (fun p => eqv p.1 k) = none := by
    rw [List.find?_eq_none]
    intro p hp
    simpa using not_eqv_of_mem_before hp
  have happend : (before k es ++ rest k es).find? (fun p => eqv p.1 k) =
      ((before k es).find? fun p => eqv p.1 k).or ((rest k es).find? fun p => eqv p.1 k) :=
    List.find?_append
  rw [before_append_rest, hbefore, Option.none_or] at happend
  exact happend

/-- **A lookup** in a sorted tree. -/
theorem find_eq (hS : WeakOn S) (h : Sorted S t.entries) (hk : k ∈ S) :
    t.find k = (t.entries.find? fun p => eqv p.1 k).map Prod.snd := by
  rw [find, lowerBound_eq (h.cut hS hk), Option.or_none, find?_eq_rest]
  cases h.place hS hk with
  | new hlt =>
    have hnone : (rest k t.entries).find? (fun p => eqv p.1 k) = none := by
      rw [List.find?_eq_none]
      intro p hp
      simpa using not_eqv_of_gt (hlt p hp)
    rw [hnone]
    cases hrest : rest k t.entries with
    | nil => rfl
    | cons p ps =>
      rw [hrest] at hlt
      exact if_pos (hlt p List.mem_cons_self)
  | found p ps hrest heqv hlt =>
    have hfound : (p :: ps).find? (fun p => eqv p.1 k) = some p :=
      List.find?_cons_of_pos (decide_eq_true heqv)
    rw [hrest, List.head?_cons, hfound]
    exact if_neg ((CompareOrd.eqv_iff p.1 k).1 heqv).2

/-- The entries after the insertion of a new key. -/
theorem entries_insert_new {m : EqvMap κ α} (hlt : ∀ p ∈ rest k m.entries, lt k p.1) :
    (m.insert k x).entries = before k m.entries ++ (k, x) :: rest k m.entries := by
  have hcontains : ¬ m.contains k = true := by
    rw [EqvMap.contains_eq_true]
    rintro ⟨k', hk', heqv⟩
    obtain ⟨p, hp, rfl⟩ := List.mem_map.1 hk'
    rw [← before_append_rest k m.entries] at hp
    rcases List.mem_append.1 hp with hp | hp
    · exact not_eqv_of_mem_before hp heqv
    · exact not_eqv_of_gt (hlt p hp) heqv
  rw [EqvMap.insert, dif_neg hcontains]
  rfl

/-- The entries after an assignment to a key that is there. -/
theorem entries_insert_found {m : EqvMap κ α} {p : κ × α} {ps : List (κ × α)}
    (hrest : rest k m.entries = p :: ps) (heqv : eqv p.1 k) (hlt : ∀ q ∈ ps, lt k q.1) :
    (m.insert k x).entries = before k m.entries ++ (p.1, x) :: ps := by
  have hlist : m.entries = before k m.entries ++ p :: ps := by
    rw [← hrest, before_append_rest]
  have hmem : p ∈ m.entries := by
    rw [hlist]
    exact List.mem_append_right _ List.mem_cons_self
  have hcontains : m.contains k = true :=
    EqvMap.contains_eq_true.2 ⟨p.1, EqvMap.mem_keys_of_mem hmem, heqv⟩
  have hkeep (qs : List (κ × α)) (hqs : ∀ q ∈ qs, ¬ eqv q.1 k) :
      qs.map (fun q => if eqv q.1 k then (q.1, x) else q) = qs :=
    (List.map_congr_left fun q hq => if_neg (hqs q hq)).trans (List.map_id qs)
  have hmap : m.overwritten k x = (before k m.entries ++ p :: ps).map
      fun q => if eqv q.1 k then (q.1, x) else q :=
    congrArg _ hlist
  rw [EqvMap.insert, dif_pos hcontains]
  show m.overwritten k x = _
  rw [hmap, List.map_append, List.map_cons, if_pos heqv,
    hkeep _ fun q hq => not_eqv_of_mem_before hq, hkeep _ fun q hq => not_eqv_of_gt (hlt q hq)]

/-- **An assignment** to a sorted tree. -/
theorem entries_assign (hS : WeakOn S) {m : EqvMap κ α} (hm : t.entries = m.entries)
    (h : Sorted S t.entries) (hk : k ∈ S) : (t.assign k x).entries = (m.insert k x).entries := by
  have hcut := h.cut hS hk
  rw [assign, lowerBound_eq hcut, Option.or_none]
  cases h.place hS hk with
  | new hlt =>
    rw [entries_insert_new (hm ▸ hlt), ← hm, ← entries_add hcut]
    cases hrest : rest k t.entries with
    | nil => rfl
    | cons p ps =>
      rw [hrest] at hlt
      rw [List.head?_cons]
      simp only [hlt p List.mem_cons_self, if_true]
  | found p ps hrest heqv hlt =>
    rw [entries_insert_found (hm ▸ hrest) heqv hlt, ← hm, ← entries_overwrite hcut hrest, hrest,
      List.head?_cons]
    simp only [((CompareOrd.eqv_iff p.1 k).1 heqv).2, if_false]

/-- The entries after an assignment are sorted. -/
theorem Sorted.insert (hS : WeakOn S) {m : EqvMap κ α} (h : Sorted S m.entries) (hk : k ∈ S) :
    Sorted S (m.insert k x).entries := by
  obtain ⟨hon, hsorted⟩ := h
  have hplace := Sorted.place hS ⟨hon, hsorted⟩ hk
  rw [← before_append_rest k m.entries] at hon hsorted
  obtain ⟨hbefore, hrest, hcross⟩ := List.pairwise_append.1 hsorted
  cases hplace with
  | new hlt =>
    rw [entries_insert_new hlt]
    refine ⟨fun p hp => ?_, List.pairwise_append.2 ⟨hbefore, ?_, fun p hp q hq => ?_⟩⟩
    · rcases List.mem_append.1 hp with hp | hp
      · exact hon p (List.mem_append_left _ hp)
      · rcases List.mem_cons.1 hp with rfl | hp
        · exact hk
        · exact hon p (List.mem_append_right _ hp)
    · exact List.pairwise_cons.2 ⟨hlt, hrest⟩
    · rcases List.mem_cons.1 hq with rfl | hq
      · exact lt_of_mem_before hp
      · exact hcross p hp q hq
  | found p ps hp heqv hlt =>
    rw [entries_insert_found hp heqv hlt]
    rw [hp] at hon hrest hcross
    obtain ⟨hfirst, hps⟩ := List.pairwise_cons.1 hrest
    refine ⟨fun q hq => ?_, List.pairwise_append.2 ⟨hbefore, ?_, fun q hq r hr => ?_⟩⟩
    · rcases List.mem_append.1 hq with hq | hq
      · exact hon q (List.mem_append_left _ hq)
      · rcases List.mem_cons.1 hq with rfl | hq
        · exact hon p (List.mem_append_right _ List.mem_cons_self)
        · exact hon q (List.mem_append_right _ (List.mem_cons_of_mem p hq))
    · exact List.pairwise_cons.2 ⟨hfirst, hps⟩
    · rcases List.mem_cons.1 hr with rfl | hr
      · exact hcross q hq p List.mem_cons_self
      · exact hcross q hq r (List.mem_cons_of_mem p hr)

/-! ## Maps that trees hold -/

/-- Trees with the entries of the map are looked up, and assigned to, as the map is. -/
structure HeldOn (S : Set κ) (m : EqvMap κ α) : Prop where
  find : ∀ t : SearchTree κ α, t.entries = m.entries → ∀ k ∈ S, t.find k = m.find k
  assign : ∀ t : SearchTree κ α, t.entries = m.entries → ∀ k ∈ S, ∀ x,
    (t.assign k x).entries = (m.insert k x).entries

omit [CompareOrd κ] in
theorem HeldOn.mono {m : EqvMap κ α} {S T : Set κ} (h : HeldOn T m) (hST : S ⊆ T) : HeldOn S m :=
  ⟨fun t ht k hk => h.find t ht k (hST hk), fun t ht k hk => h.assign t ht k (hST hk)⟩

omit [CompareOrd κ] in
theorem Sorted.empty : Sorted S (∅ : EqvMap κ α).entries :=
  ⟨nofun, List.Pairwise.nil⟩

/-- **Sorted entries** are held by trees. -/
theorem Sorted.heldOn (hS : WeakOn S) {m : EqvMap κ α} (h : Sorted S m.entries) : HeldOn S m := by
  refine ⟨fun t ht k hk => ?_, fun t ht k hk x => ?_⟩
  · rw [find_eq hS (ht ▸ h) hk, ht]
    rfl
  · exact entries_assign hS ht (ht ▸ h) hk

omit [CompareOrd κ] in
/-- An empty map is held by the empty tree. -/
theorem heldOn_empty (S : Set κ) : HeldOn S (∅ : EqvMap κ α) := by
  have hleaf (t : SearchTree κ α) (ht : t.entries = (∅ : EqvMap κ α).entries) : t = leaf := by
    cases t with
    | leaf => rfl
    | node l k x r => exact absurd ht (List.append_ne_nil_of_right_ne_nil _ (List.cons_ne_nil _ _))
  refine ⟨fun t ht k hk => ?_, fun t ht k hk x => ?_⟩
  · rw [hleaf t ht]
    rfl
  · rw [hleaf t ht]
    rfl

/-! ## Runs -/

/-- The tree has the entries of the map, in order. -/
structure Stands (S : Set κ) (t : SearchTree κ α) (m : EqvMap κ α) : Prop where
  entries_eq : t.entries = m.entries
  sorted : Sorted S m.entries

theorem Stands.step (hS : WeakOn S) {m : EqvMap κ α} (h : Stands S t m)
    {balance : SearchTree κ α → SearchTree κ α} (hbalance : Keeps balance) {op : Op κ α}
    (hop : op.On S) : Stands S (step balance t op) (mapStep m op) := by
  obtain ⟨hentries, hsorted⟩ := h
  cases op with
  | clear => exact ⟨rfl, .empty⟩
  | assign k x =>
    have hassign := (hsorted.heldOn hS).assign t hentries k hop x
    exact ⟨(hbalance _).trans hassign, hsorted.insert hS hop⟩

/-- **A run of the tree** is one of an `EqvMap`. -/
theorem entries_run (hS : WeakOn S) {balance : SearchTree κ α → SearchTree κ α}
    (hbalance : Keeps balance) {ops : List (Op κ α)} (hops : ∀ op ∈ ops, op.On S) :
    Stands S (Runs.run (step balance) leaf ops) (Runs.run mapStep ∅ ops) := by
  induction ops using List.reverseRecOn with
  | nil => exact ⟨rfl, .empty⟩
  | append_singleton ops op ih =>
    rw [Runs.run_concat, Runs.run_concat]
    have hlast := hops op (List.mem_append_right _ List.mem_cons_self)
    exact (ih fun op hop => hops op (List.mem_append_left _ hop)).step hS hbalance hlast

theorem find_run (hS : WeakOn S) {ops : List (Op κ α)} (hops : ∀ op ∈ ops, op.On S) (hk : k ∈ S) :
    (Runs.run mapStep ∅ ops).find k = latest ops k := by
  induction ops using List.reverseRecOn with
  | nil => rfl
  | append_singleton ops op ih =>
    have hinit : ∀ op ∈ ops, op.On S := fun op hop => hops op (List.mem_append_left _ hop)
    have hlast := hops op (List.mem_append_right _ List.mem_cons_self)
    have hkeeps : Keeps fun t : SearchTree κ α => t := fun _ => rfl
    have hsorted := (entries_run hS hkeeps hinit).sorted
    rw [Runs.run_concat, latest, List.foldl_append, ← latest, ← ih hinit]
    cases op with
    | clear => rfl
    | assign k' x => exact EqvMap.find_insert (transOn hS) hsorted.keys hlast hk x

end Sorted

/-! ## Where trees lose entries -/

/-- Two assignments, of a key and one that it comes before. -/
theorem run_two {a c : κ} (hca : lt c a) (u v : α) :
    Runs.run (step fun t => spine t.entries) leaf [.assign c u, .assign a v] =
      node (node leaf c u leaf) a v leaf := by
  simp [step, assign, lowerBound, add, entries, spine, hca]

/-- A lookup of a third key there. -/
theorem find_two {a b c : κ} (hbc : ¬ lt c b) (u v : α) :
    (node (node leaf c u leaf) a v leaf).find b =
      if lt a b then none else if lt b c then none else some u := by
  simp only [find, lowerBound, if_neg hbc]
  by_cases hab : lt a b
  · simp only [if_pos hab]
  · simp only [if_neg hab]

/-- The assignment of a third key that comes after both. -/
theorem run_three {a b c : κ} (hca : lt c a) (hab : lt a b) (u v w : α) :
    Runs.run (step fun t => spine t.entries) leaf [.assign c u, .assign a v, .assign b w] =
      node (node (node leaf c u leaf) a v leaf) b w leaf := by
  have hlast : Runs.run (step fun t => spine t.entries) leaf
      ([.assign c u, .assign a v] ++ [.assign b w]) =
        step (fun t => spine t.entries) (node (node leaf c u leaf) a v leaf) (.assign b w) := by
    rw [Runs.run_concat, run_two hca]
  refine hlast.trans ?_
  simp [step, assign, lowerBound, add, entries, spine, hab]

variable [CompareOrd κ] {S : Set κ} [Nontrivial α]

/-- **A lookup that finds another value**, or none. -/
theorem exists_lost {a b c : κ} (ha : a ∈ S) (hb : b ∈ S) (hc : c ∈ S) (hab : ¬ lt b a)
    (hbc : ¬ lt c b) (hca : lt c a) :
    ∃ ops : List (Op κ α), (∀ op ∈ ops, op.On S) ∧ ∃ k ∈ S,
      (Runs.run (step fun t => spine t.entries) leaf ops).find k ≠ latest ops k := by
  obtain ⟨u, v, huv⟩ := exists_pair_ne α
  by_cases hab' : lt a b
  · by_cases hbc' : lt b c
    · -- The third key becomes the root, and comes before the first, which is to the left.
      refine ⟨[.assign c u, .assign a v, .assign b v], by simp [Op.On, ha, hb, hc], c, hc, ?_⟩
      have hlatest : latest [.assign c u, .assign a v, .assign b v] c = some u := by
        simp [latest, latestStep, eqv_refl, not_eqv_of_gt hca, not_eqv_of_lt hbc']
      rw [run_three hca hab', hlatest, find, lowerBound, if_pos hbc']
      exact nofun
    · have heqv : eqv c b := (CompareOrd.eqv_iff c b).2 ⟨hbc, hbc'⟩
      refine ⟨[.assign c u, .assign a v], by simp [Op.On, ha, hc], b, hb, ?_⟩
      have hlatest : latest [.assign c u, .assign a v] b = some u := by
        simp [latest, latestStep, heqv, not_eqv_of_lt hab']
      rw [run_two hca, find_two hbc, if_pos hab', hlatest]
      exact nofun
  · have heqv : eqv a b := (CompareOrd.eqv_iff a b).2 ⟨hab', hab⟩
    refine ⟨[.assign c u, .assign a v], by simp [Op.On, ha, hc], b, hb, ?_⟩
    have hlatest : latest [.assign c u, .assign a v] b = some v := by
      simp [latest, latestStep, heqv]
    rw [run_two hca, find_two hbc, if_neg hab', hlatest]
    by_cases hbc' : lt b c
    · rw [if_pos hbc']
      exact nofun
    · rw [if_neg hbc']
      exact fun heq => huv (Option.some.inj heq)

/-- **Lookups find the values assigned last**, whatever the balancing, exactly if *not coming
before* is transitive. -/
theorem finds_latest_iff :
    (∀ balance : SearchTree κ α → SearchTree κ α, Keeps balance →
      ∀ ops : List (Op κ α), (∀ op ∈ ops, op.On S) → ∀ k ∈ S,
        (Runs.run (step balance) leaf ops).find k = latest ops k) ↔ WeakOn S := by
  refine ⟨fun h a ha b hb c hc hab hbc hca => ?_, fun hS balance hbalance ops hops k hk => ?_⟩
  · obtain ⟨ops, hops, k, hk, hlost⟩ := exists_lost (α := α) ha hb hc hab hbc hca
    exact hlost (h _ (fun t => entries_spine t.entries) ops hops k hk)
  · obtain ⟨hentries, hsorted⟩ := entries_run hS hbalance hops
    rw [(hsorted.heldOn hS).find _ hentries k hk]
    exact find_run hS hops hk

end SearchTree
