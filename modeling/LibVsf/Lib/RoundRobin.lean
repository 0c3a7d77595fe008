import Mathlib.Algebra.BigOperators.Group.List.Basic
import Mathlib.Algebra.Order.Group.Abs
import Mathlib.Data.List.Induction
import Mathlib.Data.List.Pairwise
import Mathlib.Data.List.TakeWhile
import Mathlib.Tactic.Linarith

/-!
# Dealing out in turn

Items with keys are sorted in a multimap, which puts an item behind those of the same key
(`emplace`). Then they are dealt out to places: each gets the next one, and after the last place
comes the first again (`deal`).

**Theorem (`deal_balanced`).** If the items are dealt out in the order of a weight between `l` and
`u`, where `l ≤ 0 ≤ u`, the loads of two places differ by at most `u - l`, however many items there
are.

The proof follows the places in the order in which they come next. A place that comes before another
one has got no more than it, up to `l`, and no less than what it gets next, up to `l` again
(`Spread`).
-/

namespace RoundRobin

variable {ν α κ β : Type*}

/-! ## A multimap -/

section Emplace

variable [LinearOrder κ]

/-- `emplace` of a multimap, as a list that is sorted by its keys. -/
def emplace (m : List (κ × α)) (key : κ) (a : α) : List (κ × α) :=
  m.takeWhile (fun x => x.1 ≤ key) ++ (key, a) :: m.dropWhile (fun x => x.1 ≤ key)

/-- The multimap of items by their keys. -/
def sortOn (key : α → κ) (as : List α) : List (κ × α) :=
  as.foldl (fun m a => emplace m (key a) a) []

def Sorted (m : List (κ × α)) : Prop := m.Pairwise fun x y => x.1 ≤ y.1

theorem emplace_perm (m : List (κ × α)) (key : κ) (a : α) :
    (emplace m key a).Perm ((key, a) :: m) := by
  refine List.perm_middle.trans (List.Perm.cons _ ?_)
  rw [List.takeWhile_append_dropWhile]

/-- The keys after those that are at most `key` are greater. -/
theorem lt_of_mem_dropWhile {m : List (κ × α)} (h : Sorted m) {key : κ} {x : κ × α}
    (hx : x ∈ m.dropWhile fun x => x.1 ≤ key) : key < x.1 := by
  induction m with
  | nil => cases hx
  | cons y m ih =>
    rw [Sorted, List.pairwise_cons] at h
    by_cases hy : y.1 ≤ key
    · rw [List.dropWhile_cons_of_pos (by simpa using hy)] at hx
      exact ih h.2 hx
    · rw [List.dropWhile_cons_of_neg (by simpa using hy)] at hx
      rcases List.mem_cons.1 hx with rfl | hx
      · exact lt_of_not_ge hy
      · exact (lt_of_not_ge hy).trans_le (h.1 x hx)

theorem sorted_emplace {m : List (κ × α)} (h : Sorted m) (key : κ) (a : α) :
    Sorted (emplace m key a) := by
  have htake (x : κ × α) (hx : x ∈ m.takeWhile fun x => x.1 ≤ key) : x.1 ≤ key := by
    simpa using List.mem_takeWhile_imp hx
  have hdrop (x : κ × α) (hx : x ∈ m.dropWhile fun x => x.1 ≤ key) : key < x.1 :=
    lt_of_mem_dropWhile h hx
  refine List.pairwise_append.2 ⟨?_, List.pairwise_cons.2 ⟨?_, ?_⟩, ?_⟩
  · exact h.sublist (List.takeWhile_sublist _)
  · exact fun x hx => (hdrop x hx).le
  · exact h.sublist (List.dropWhile_sublist _)
  · intro x hx y hy
    rcases List.mem_cons.1 hy with rfl | hy
    · exact htake x hx
    · exact (htake x hx).trans (hdrop y hy).le

theorem sortOn_concat (key : α → κ) (as : List α) (a : α) :
    sortOn key (as ++ [a]) = emplace (sortOn key as) (key a) a := by
  simp [sortOn]

theorem sorted_sortOn (key : α → κ) (as : List α) : Sorted (sortOn key as) := by
  induction as using List.reverseRecOn with
  | nil => exact List.Pairwise.nil
  | append_singleton as a ih =>
    rw [sortOn_concat]
    exact sorted_emplace ih _ _

theorem sortOn_perm (key : α → κ) (as : List α) :
    (sortOn key as).Perm (as.map fun a => (key a, a)) := by
  induction as using List.reverseRecOn with
  | nil => exact List.Perm.refl _
  | append_singleton as a ih =>
    rw [sortOn_concat, List.map_append]
    refine (emplace_perm _ _ _).trans ((List.Perm.cons _ ih).trans ?_)
    exact (List.perm_append_singleton _ _).symm

end Emplace

/-! ## Dealing out -/

/-- Each item goes to the next of the places `rest`, or to the first of all places if there is none
left; `none` if there is no place. -/
def deal (places : List ν) : List ν → List α → Option (List (α × ν))
  | _, [] => some []
  | place :: rest, a :: as => (deal places rest as).map ((a, place) :: ·)
  | [], a :: as =>
    match places with
    | [] => none
    | place :: rest => (deal places rest as).map ((a, place) :: ·)

theorem deal_nil (places rest : List ν) : deal places rest ([] : List α) = some [] := by
  cases rest <;> rfl

/-- Without a place left it goes on with all of them. -/
theorem deal_again (places : List ν) (as : List α) : deal places [] as = deal places places as := by
  cases as with
  | nil => rw [deal_nil, deal_nil]
  | cons a as => cases places <;> rfl

theorem exists_deal {places : List ν} (h : places ≠ []) (rest : List ν) (as : List α) :
    ∃ out, deal places rest as = some out := by
  have hcons (place : ν) (rest : List ν) (a : α) (as : List α)
      (ih : ∀ rest, ∃ out, deal places rest as = some out) :
      ∃ out, deal places (place :: rest) (a :: as) = some out := by
    obtain ⟨out, hout⟩ := ih rest
    exact ⟨(a, place) :: out, by rw [deal, hout, Option.map_some]⟩
  induction as generalizing rest with
  | nil => exact ⟨[], deal_nil places rest⟩
  | cons a as ih =>
    cases rest with
    | cons place rest => exact hcons place rest a as ih
    | nil =>
      obtain ⟨place, rest, rfl⟩ := List.exists_cons_of_ne_nil h
      rw [deal_again]
      exact hcons place rest a as ih

/-- The items, none lost and none twice. -/
theorem map_fst_deal {places rest : List ν} {as : List α} {out : List (α × ν)}
    (h : deal places rest as = some out) : out.map Prod.fst = as := by
  induction as generalizing rest out with
  | nil =>
    rw [deal_nil] at h
    obtain rfl := Option.some.inj h
    rfl
  | cons a as ih =>
    have hcons (place : ν) (rest : List ν) (h : deal places (place :: rest) (a :: as) = some out) :
        out.map Prod.fst = a :: as := by
      rw [deal, Option.map_eq_some_iff] at h
      obtain ⟨out', hout', rfl⟩ := h
      rw [List.map_cons, ih hout']
    cases rest with
    | cons place rest => exact hcons place rest h
    | nil =>
      cases places with
      | nil => cases h
      | cons place rest => exact hcons place rest h

theorem snd_mem_deal {places rest : List ν} (hrest : ∀ p ∈ rest, p ∈ places) {as : List α}
    {out : List (α × ν)} (h : deal places rest as = some out) : ∀ x ∈ out, x.2 ∈ places := by
  induction as generalizing rest out with
  | nil =>
    rw [deal_nil] at h
    obtain rfl := Option.some.inj h
    exact fun x hx => absurd hx List.not_mem_nil
  | cons a as ih =>
    have hcons (place : ν) (rest : List ν) (hrest : ∀ p ∈ place :: rest, p ∈ places)
        (h : deal places (place :: rest) (a :: as) = some out) : ∀ x ∈ out, x.2 ∈ places := by
      rw [deal, Option.map_eq_some_iff] at h
      obtain ⟨out', hout', rfl⟩ := h
      obtain ⟨hplace, hrest⟩ := List.forall_mem_cons.1 hrest
      exact List.forall_mem_cons.2 ⟨hplace, ih hrest hout'⟩
    cases rest with
    | cons place rest => exact hcons place rest hrest h
    | nil =>
      rw [deal_again] at h
      cases places with
      | nil => cases h
      | cons place rest => exact hcons place rest (fun p hp => hp) h

/-! ## Loads -/

section Load

variable [DecidableEq ν] [AddCommMonoid β]

/-- What a place has got. -/
def load (weight : α → β) (out : List (α × ν)) (place : ν) : β :=
  ((out.filter fun x => x.2 = place).map fun x => weight x.1).sum

theorem load_cons (weight : α → β) (a : α) (place : ν) (out : List (α × ν)) (p : ν) :
    load weight ((a, place) :: out) p =
      (if p = place then weight a else 0) + load weight out p := by
  by_cases h : p = place
  · subst h
    simp [load]
  · simp [load, h, Ne.symm h]

end Load

section Balanced

variable [CommRing β] [LinearOrder β]

/-- A place that comes before another one has no greater load, up to `l`, and falls behind by no
more than `u`, up to `l`. -/
def Spread (l u : β) (w : ν → β) (places : List ν) : Prop :=
  places.Pairwise fun a b => l ≤ w b - w a ∧ w b - w a ≤ u - l

theorem Spread.congr {l u : β} {w w' : ν → β} {places : List ν} (h : Spread l u w places)
    (hw : ∀ p ∈ places, w' p = w p) : Spread l u w' places := by
  refine List.Pairwise.imp_of_mem (fun ha hb hab => ?_) h
  rw [hw _ ha, hw _ hb]
  exact hab

variable [IsStrictOrderedRing β]

/-- The next place gets an item that is no lighter than the last one, and comes last. -/
theorem Spread.next {l u y : β} {w w' : ν → β} {place : ν} {rest : List ν}
    (h : Spread l u w (place :: rest)) (hnodup : (place :: rest).Nodup) (hle : u ≤ y)
    (hplace : w' place = w place + y) (hrest : ∀ p, p ≠ place → w' p = w p) :
    Spread l y w' (rest ++ [place]) := by
  obtain ⟨hfirst, hothers⟩ := List.pairwise_cons.1 h
  have hne (p : ν) (hp : p ∈ rest) : p ≠ place := by
    rintro rfl
    exact (List.nodup_cons.1 hnodup).1 hp
  refine List.pairwise_append.2 ⟨?_, List.pairwise_singleton _ _, ?_⟩
  · refine List.Pairwise.imp_of_mem (fun {a b} ha hb hab => ?_) hothers
    rw [hrest a (hne a ha), hrest b (hne b hb)]
    exact ⟨hab.1, hab.2.trans (by linarith)⟩
  · intro a ha b hb
    obtain rfl := List.mem_singleton.1 hb
    have hbetween := hfirst a ha
    rw [hrest a (hne a ha), hplace]
    exact ⟨by linarith [hbetween.2], by linarith [hbetween.1]⟩

theorem Spread.mono {l u v : β} {w : ν → β} {places : List ν} (h : Spread l u w places)
    (hle : u ≤ v) : Spread l v w places :=
  List.Pairwise.imp (fun hab => ⟨hab.1, hab.2.trans (by linarith)⟩) h

variable [DecidableEq ν]

/-- Of the places in the order in which they come next, the spread is that of the last item. -/
theorem spread_deal {weight : α → β} {l u v : β} {w : ν → β} {done rest : List ν} {as : List α}
    {out : List (α × ν)} (hnodup : (done ++ rest).Nodup) (hspread : Spread l u w (rest ++ done))
    (hsorted : as.Pairwise fun a b => weight a ≤ weight b)
    (hweight : ∀ a ∈ as, u ≤ weight a ∧ weight a ≤ v) (huv : u ≤ v)
    (hout : deal (done ++ rest) rest as = some out) :
    ∃ done' rest', done' ++ rest' = done ++ rest ∧
      Spread l v (fun p => w p + load weight out p) (rest' ++ done') := by
  induction as generalizing u w done rest out with
  | nil =>
    rw [deal_nil] at hout
    obtain rfl := Option.some.inj hout
    exact ⟨done, rest, rfl, (hspread.mono huv).congr fun p _ => by simp [load]⟩
  | cons a as ih =>
    have hcons (done : List ν) (place : ν) (rest : List ν) (hnodup : (done ++ place :: rest).Nodup)
        (hspread : Spread l u w (place :: rest ++ done))
        (hout : deal (done ++ place :: rest) (place :: rest) (a :: as) = some out) :
        ∃ done' rest', done' ++ rest' = done ++ place :: rest ∧
          Spread l v (fun p => w p + load weight out p) (rest' ++ done') := by
      rw [deal, Option.map_eq_some_iff] at hout
      obtain ⟨out', hout', rfl⟩ := hout
      obtain ⟨ha, has⟩ := List.forall_mem_cons.1 hweight
      obtain ⟨hle, hsorted⟩ := List.pairwise_cons.1 hsorted
      have hassoc : done ++ [place] ++ rest = done ++ place :: rest := by simp
      have hrotated : (place :: (rest ++ done)).Nodup :=
        (List.perm_append_comm.nodup_iff).1 hnodup
      have hnext : Spread l (weight a) (fun p => w p + if p = place then weight a else 0)
          (rest ++ (done ++ [place])) := by
        rw [← List.append_assoc]
        refine Spread.next hspread hrotated ha.1 (by simp) fun p hp => by simp [hp]
      rw [← hassoc] at hnodup hout' ⊢
      obtain ⟨done', rest', heq, hfinal⟩ := ih hnodup hnext hsorted
        (fun b hb => ⟨hle b hb, (has b hb).2⟩) ha.2 hout'
      refine ⟨done', rest', heq, hfinal.congr fun p _ => ?_⟩
      rw [load_cons, add_assoc]
    cases rest with
    | cons place rest => exact hcons done place rest hnodup hspread hout
    | nil =>
      rw [List.append_nil] at hnodup hout ⊢
      rw [deal_again] at hout
      cases done with
      | nil => cases hout
      | cons place rest =>
        exact hcons [] place rest hnodup (by simpa using hspread) hout

/-- **The loads of two places differ by no more than the weights of items**, if the items are dealt
out in the order of their weights. -/
theorem deal_balanced {weight : α → β} {l u : β} (hl : l ≤ 0) (hu : 0 ≤ u) {places : List ν}
    (hnodup : places.Nodup) {as : List α} (hsorted : as.Pairwise fun a b => weight a ≤ weight b)
    (hweight : ∀ a ∈ as, l ≤ weight a ∧ weight a ≤ u) {out : List (α × ν)}
    (hout : deal places places as = some out) {a b : ν} (ha : a ∈ places) (hb : b ∈ places) :
    |load weight out a - load weight out b| ≤ u - l := by
  have hstart : Spread l l (fun _ : ν => (0 : β)) (places ++ []) :=
    List.pairwise_of_forall fun _ _ => ⟨by linarith, by linarith⟩
  have hnodup' : ([] ++ places).Nodup := hnodup
  obtain ⟨done, rest, heq, hspread⟩ := spread_deal hnodup' hstart hsorted hweight
    (hl.trans hu) hout
  have hmem (p : ν) (hp : p ∈ places) : p ∈ rest ++ done := by
    rw [List.mem_append, or_comm, ← List.mem_append, heq]
    exact hp
  have hsymm : Std.Symm fun a b => |load weight out a - load weight out b| ≤ u - l :=
    ⟨fun a b h => by rwa [abs_sub_comm]⟩
  refine List.Pairwise.forall_of_forall
    (R := fun a b => |load weight out a - load weight out b| ≤ u - l)
    (fun p _ => ?_) (hspread.imp fun {p q} h => ?_) (hmem a ha) (hmem b hb)
  · rw [sub_self, abs_zero]
    linarith
  · rw [abs_sub_comm, abs_le]
    simp only [zero_add] at h
    exact ⟨by linarith [h.1], h.2⟩

end Balanced

end RoundRobin
