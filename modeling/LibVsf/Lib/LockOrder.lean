import LibVsf.Lib.Runs
import Mathlib.Algebra.BigOperators.Group.Finset.Basic
import Mathlib.Algebra.Order.BigOperators.Group.Finset
import Mathlib.Data.Fintype.Pi
import Mathlib.Data.Set.Finite.Lemmas

/-!
# Locks that are acquired in order

Parties run programs that acquire and release locks, exclusively or shared, and wait for counters
that other parties raise. A counter may have a raiser, a party that repeats a program that raises
it; one that has none is only waited for by programs that have raised it before.

Locks and counters have ranks. A program is `Ordered` if it acquires a lock, or waits for a counter,
only while the locks it holds have smaller ranks, and ends without a lock. What a raiser acquires or
waits for has a greater rank than what it raises.

**Theorem (`finishes`).** Then from every state that is reachable all programs under way can be
brought to their end, if only raisers begin programs again. Only the programs of the calls that are
made have to keep to this.

**Theorem (`keeps_waiting`).** Parties that wait for a counter wait for ever if nobody but one of
them would raise it.

The proof takes a party that waits for a resource of the greatest rank. It does not wait for a lock,
whose holder would wait for a greater one; so it waits for a counter, and no party keeps the raiser
from its loop.
-/

namespace LockOrder

open Runs

variable {ι χ κ φ : Type*}

/-- A step of a program. -/
inductive Instr (κ φ : Type*) where
  | acquire (k : κ)
  | acquireShared (k : κ)
  | release (k : κ)
  /-- Waits until the counter is what is needed. -/
  | await (f : φ)
  | raise (f : φ)
  | reset (f : φ)
deriving DecidableEq

/-- Programs of parties, `ι`, for calls, `χ`. -/
structure System (ι χ κ φ : Type*) where
  program : ι → χ → List (Instr κ φ)
  /-- The raiser, and the call it repeats. -/
  raiser : φ → Option (ι × χ)
  need : φ → ℕ
  lockRank : κ → ℕ
  flagRank : φ → ℕ

/-- The rest of each party's program, the locks it holds, with `true` for an exclusive one, and the
counters. -/
structure State (ι κ φ : Type*) where
  rest : ι → List (Instr κ φ)
  held : ι → List (κ × Bool)
  count : φ → ℕ

/-- What a party holds after a step. -/
def hold [DecidableEq κ] (held : List (κ × Bool)) : Instr κ φ → List (κ × Bool)
  | .acquire k => (k, true) :: held
  | .acquireShared k => (k, false) :: held
  | .release k => held.filter fun x => x.1 ≠ k
  | _ => held

/-- The counters after a step. -/
def counted [DecidableEq φ] (count : φ → ℕ) : Instr κ φ → φ → ℕ
  | .raise f => Function.update count f (count f + 1)
  | .reset f => Function.update count f 0
  | _ => count

namespace System

variable (S : System ι χ κ φ)

/-- A step that does not have to wait. -/
def Ready (s : State ι κ φ) : Instr κ φ → Prop
  | .acquire k => ∀ i b, (k, b) ∉ s.held i
  | .acquireShared k => ∀ i, (k, true) ∉ s.held i
  | .await f => S.need f ≤ s.count f
  | _ => True

instance [Fintype ι] [DecidableEq κ] (s : State ι κ φ) : DecidablePred (S.Ready s)
  | .acquire k => inferInstanceAs (Decidable (∀ i b, (k, b) ∉ s.held i))
  | .acquireShared k => inferInstanceAs (Decidable (∀ i, (k, true) ∉ s.held i))
  | .await f => inferInstanceAs (Decidable (S.need f ≤ s.count f))
  | .release _ => inferInstanceAs (Decidable True)
  | .raise _ => inferInstanceAs (Decidable True)
  | .reset _ => inferInstanceAs (Decidable True)

/-- A party takes its next step, or begins a call. -/
inductive Event (ι χ : Type*) where
  | exec (i : ι)
  | call (i : ι) (c : χ)

end System

section State

variable [DecidableEq ι] [DecidableEq κ] [DecidableEq φ]

def State.exec (s : State ι κ φ) (i : ι) (instr : Instr κ φ) (is : List (Instr κ φ)) :
    State ι κ φ where
  rest := Function.update s.rest i is
  held := Function.update s.held i (hold (s.held i) instr)
  count := counted s.count instr

def State.begin (s : State ι κ φ) (i : ι) (is : List (Instr κ φ)) : State ι κ φ :=
  { s with rest := Function.update s.rest i is }

/-- Nobody is in a call. -/
def State.idle (count : φ → ℕ) : State ι κ φ where
  rest _ := []
  held _ := []
  count := count

end State

namespace System

variable [Fintype ι] [DecidableEq ι] [DecidableEq κ] [DecidableEq φ] (S : System ι χ κ φ)

def step (s : State ι κ φ) : Event ι χ → State ι κ φ
  | .exec i =>
    match s.rest i with
    | [] => s
    | instr :: is => if S.Ready s instr then s.exec i instr is else s
  | .call i c =>
    match s.rest i with
    | [] => s.begin i (S.program i c)
    | _ :: _ => s

/-- A step that ends calls under way: no party but a raiser begins a call. -/
def Continues : Event ι χ → Prop
  | .exec _ => True
  | .call i c => ∃ f, S.raiser f = some (i, c)

end System

/-! ## Ordered programs -/

namespace System

variable (S : System ι χ κ φ)

/-- The rank of what a step may have to wait for. -/
def rank : Instr κ φ → Option ℕ
  | .acquire k => some (S.lockRank k)
  | .acquireShared k => some (S.lockRank k)
  | .await f => some (S.flagRank f)
  | _ => none

/-- A party with these locks may take the step. -/
def Fits (held : List (κ × Bool)) : Instr κ φ → Prop
  | .acquire k => ∀ x ∈ held, S.lockRank x.1 < S.lockRank k
  | .acquireShared k => ∀ x ∈ held, S.lockRank x.1 < S.lockRank k
  | .await f => ∀ x ∈ held, S.lockRank x.1 < S.flagRank f
  | .release k => ∃ x ∈ held, x.1 = k
  | _ => True

/-- Every step fits what is held before it. -/
def Takes [DecidableEq κ] : List (κ × Bool) → List (Instr κ φ) → Prop
  | _, [] => True
  | held, instr :: is => S.Fits held instr ∧ Takes (hold held instr) is

/-- A program that may be run with these locks, and leaves none. -/
def Ordered [DecidableEq κ] (held : List (κ × Bool)) (is : List (Instr κ φ)) : Prop :=
  S.Takes held is ∧ is.foldl hold held = []

/-- What the program may have to wait for has a greater rank. -/
def Above (n : ℕ) (is : List (Instr κ φ)) : Prop :=
  ∀ instr ∈ is, ∀ m, S.rank instr = some m → n < m

end System

/-- A program that is not kept waiting by a counter, from this count on. -/
def Fed [DecidableEq κ] [DecidableEq φ] (need : ℕ) (f : φ) : ℕ → List (Instr κ φ) → Prop
  | _, [] => True
  | c, instr :: is =>
    (instr = .await f → need ≤ c) ∧ instr ≠ .reset f ∧
      Fed need f (if instr = .raise f then c + 1 else c) is

instance decidableFed [DecidableEq κ] [DecidableEq φ] (need : ℕ) (f : φ) :
    ∀ (c : ℕ) (is : List (Instr κ φ)), Decidable (Fed need f c is)
  | _, [] => isTrue trivial
  | c, instr :: is =>
    have := decidableFed need f (if instr = .raise f then c + 1 else c) is
    inferInstanceAs (Decidable (_ ∧ _ ∧ _))

namespace System

/-- What the programs of the calls `C` have to keep to. -/
structure Disciplined [DecidableEq κ] [DecidableEq φ] (S : System ι χ κ φ) (C : ι → χ → Prop) :
    Prop where
  ordered : ∀ i c, C i c → S.Ordered [] (S.program i c)
  /-- A counter without a raiser has been raised before it is waited for, and is not reset. -/
  fed : ∀ f, S.raiser f = none → ∀ i c, C i c → Fed (S.need f) f 0 (S.program i c)
  above : ∀ f r c, S.raiser f = some (r, c) → ∀ c', C r c' → S.Above (S.flagRank f) (S.program r c')
  repeats : ∀ f r c, S.raiser f = some (r, c) → C r c
  raises : ∀ f r c, S.raiser f = some (r, c) → .raise f ∈ S.program r c
  keeps : ∀ f r c, S.raiser f = some (r, c) → ∀ g, .reset g ∉ S.program r c

end System

/-! ## Programs made of sections -/

/-- The steps with a lock held. -/
def locked (k : κ) (is : List (Instr κ φ)) : List (Instr κ φ) :=
  .acquire k :: is ++ [.release k]

def lockedShared (k : κ) (is : List (Instr κ φ)) : List (Instr κ φ) :=
  .acquireShared k :: is ++ [.release k]

namespace System

theorem Fits.rank {S : System ι χ κ φ} {held : List (κ × Bool)} {instr : Instr κ φ}
    (h : S.Fits held instr) {n : ℕ} (hrank : S.rank instr = some n) :
    ∀ x ∈ held, S.lockRank x.1 < n := by
  cases instr with
  | acquire | acquireShared | await =>
    obtain rfl := Option.some.inj hrank
    exact h
  | release | raise | reset => cases hrank

section Above

variable {S : System ι χ κ φ} {is is' : List (Instr κ φ)}

theorem Above.append {n : ℕ} (h : S.Above n is) (h' : S.Above n is') : S.Above n (is ++ is') :=
  List.forall_mem_append.2 ⟨h, h'⟩

theorem Above.flatMap {α : Type*} {n : ℕ} {f : α → List (Instr κ φ)} (h : ∀ a, S.Above n (f a))
    (l : List α) : S.Above n (l.flatMap f) := by
  intro instr hinstr
  obtain ⟨a, -, ha⟩ := List.mem_flatMap.1 hinstr
  exact h a instr ha

theorem above_nil (n : ℕ) : S.Above n [] := fun _ h => absurd h List.not_mem_nil

theorem above_singleton {n : ℕ} {instr : Instr κ φ} (h : ∀ m, S.rank instr = some m → n < m) :
    S.Above n [instr] := by
  intro instr' hinstr'
  rw [List.mem_singleton.1 hinstr']
  exact h

theorem above_raise (n : ℕ) (f : φ) : S.Above n [.raise f] :=
  above_singleton fun _ h => by cases h

theorem above_acquire {n : ℕ} {k : κ} (hk : n < S.lockRank k) : S.Above n [.acquire k] :=
  above_singleton fun m hm => by
    obtain rfl := Option.some.inj hm
    exact hk

theorem above_await {n : ℕ} {f : φ} (hf : n < S.flagRank f) : S.Above n [.await f] :=
  above_singleton fun m hm => by
    obtain rfl := Option.some.inj hm
    exact hf

theorem above_release (n : ℕ) (k : κ) : S.Above n [.release k] :=
  above_singleton fun _ h => by cases h

theorem Above.locked {n : ℕ} {k : κ} (hk : n < S.lockRank k) (h : S.Above n is) :
    S.Above n (locked k is) :=
  ((above_acquire hk).append h).append (above_release n k)

theorem Above.lockedShared {n : ℕ} {k : κ} (hk : n < S.lockRank k) (h : S.Above n is) :
    S.Above n (lockedShared k is) := by
  have hfirst : S.Above n [.acquireShared k] := by
    refine above_singleton fun m hm => ?_
    obtain rfl := Option.some.inj hm
    exact hk
  exact (hfirst.append h).append (above_release n k)

end Above

section Sections

variable [DecidableEq κ] {S : System ι χ κ φ} {held : List (κ × Bool)}
  {is is' : List (Instr κ φ)}

/-- The steps may be taken with these locks, and leave them. -/
def Neutral (S : System ι χ κ φ) (held : List (κ × Bool)) (is : List (Instr κ φ)) : Prop :=
  S.Takes held is ∧ is.foldl hold held = held

theorem takes_append : S.Takes held (is ++ is') ↔
    S.Takes held is ∧ S.Takes (is.foldl hold held) is' := by
  induction is generalizing held with
  | nil => simp [Takes]
  | cons instr is ih =>
    simp only [List.cons_append, Takes, List.foldl_cons, ih, and_assoc]

theorem Ordered.tail {instr : Instr κ φ} (h : S.Ordered held (instr :: is)) :
    S.Ordered (hold held instr) is := ⟨h.1.2, h.2⟩

theorem neutral_nil : S.Neutral held [] := ⟨trivial, rfl⟩

theorem Neutral.append (h : S.Neutral held is) (h' : S.Neutral held is') :
    S.Neutral held (is ++ is') := by
  refine ⟨takes_append.2 ⟨h.1, ?_⟩, ?_⟩
  · rw [h.2]
    exact h'.1
  · rw [List.foldl_append, h.2, h'.2]

theorem Neutral.flatMap {α : Type*} {f : α → List (Instr κ φ)} (h : ∀ a, S.Neutral held (f a))
    (l : List α) : S.Neutral held (l.flatMap f) := by
  induction l with
  | nil => exact neutral_nil
  | cons a l ih =>
    rw [List.flatMap_cons]
    exact (h a).append ih

theorem neutral_await {f : φ} (h : ∀ x ∈ held, S.lockRank x.1 < S.flagRank f) :
    S.Neutral held [.await f] := ⟨⟨h, trivial⟩, rfl⟩

theorem neutral_raise (f : φ) : S.Neutral held [.raise f] := ⟨⟨trivial, trivial⟩, rfl⟩

theorem neutral_reset (f : φ) : S.Neutral held [.reset f] := ⟨⟨trivial, trivial⟩, rfl⟩

/-- **A section**: if the lock may be acquired, and what is done with it held leaves it held. -/
theorem neutral_section {k : κ} {b : Bool} {instr : Instr κ φ}
    (hinstr : hold held instr = (k, b) :: held) (hfits : S.Fits held instr)
    (hrank : ∀ x ∈ held, S.lockRank x.1 < S.lockRank k) (h : S.Neutral ((k, b) :: held) is) :
    S.Neutral held (instr :: is ++ [.release k]) := by
  have hfilter : held.filter (fun x => x.1 ≠ k) = held := by
    refine List.filter_eq_self.2 fun x hx => decide_eq_true fun hxk => ?_
    have hlt := hrank x hx
    rw [hxk] at hlt
    exact Nat.lt_irrefl _ hlt
  refine ⟨⟨hfits, takes_append.2 ⟨?_, ?_⟩⟩, ?_⟩
  · rw [hinstr]
    exact h.1
  · rw [hinstr, h.2]
    exact ⟨⟨(k, b), List.mem_cons_self, rfl⟩, trivial⟩
  · rw [List.cons_append, List.foldl_cons, List.foldl_append, hinstr, h.2]
    simpa [hold] using hfilter

theorem neutral_locked {k : κ} (hrank : ∀ x ∈ held, S.lockRank x.1 < S.lockRank k)
    (h : S.Neutral ((k, true) :: held) is) : S.Neutral held (locked k is) :=
  neutral_section rfl hrank hrank h

theorem neutral_lockedShared {k : κ} (hrank : ∀ x ∈ held, S.lockRank x.1 < S.lockRank k)
    (h : S.Neutral ((k, false) :: held) is) : S.Neutral held (lockedShared k is) :=
  neutral_section rfl hrank hrank h

theorem Neutral.ordered (h : S.Neutral [] is) : S.Ordered [] is := h

end Sections

end System

section Fed

variable [DecidableEq κ] [DecidableEq φ] {need c c' : ℕ} {f : φ} {is is' : List (Instr κ φ)}

theorem Fed.mono (h : Fed need f c is) (hle : c ≤ c') : Fed need f c' is := by
  induction is generalizing c c' with
  | nil => trivial
  | cons instr is ih =>
    refine ⟨fun hinstr => (h.1 hinstr).trans hle, h.2.1, ?_⟩
    refine ih h.2.2 ?_
    split_ifs
    · exact Nat.succ_le_succ hle
    · exact hle

theorem fed_append : Fed need f c (is ++ is') ↔
    Fed need f c is ∧ Fed need f (c + is.count (.raise f)) is' := by
  induction is generalizing c with
  | nil => simp [Fed]
  | cons instr is ih =>
    have hcount : (if instr = .raise f then c + 1 else c) + is.count (.raise f) =
        c + (instr :: is).count (.raise f) := by
      rw [List.count_cons]
      by_cases hinstr : instr = .raise f
      · simp only [hinstr, if_true, beq_self_eq_true]
        omega
      · simp [hinstr]
    simp only [List.cons_append, Fed, ih, hcount, and_assoc]

theorem Fed.append (h : Fed need f c is) (h' : Fed need f c is') : Fed need f c (is ++ is') :=
  fed_append.2 ⟨h, h'.mono (Nat.le_add_right c _)⟩

theorem Fed.locked (h : Fed need f c is) (k : κ) : Fed need f c (locked k is) := by
  have hbody : Fed need f c (.acquire k :: is) := by
    refine ⟨by simp, by simp, ?_⟩
    rw [if_neg (by simp)]
    exact h
  exact hbody.append ⟨by simp, by simp, trivial⟩

theorem Fed.flatMap {α : Type*} {g : α → List (Instr κ φ)} {l : List α}
    (h : ∀ a ∈ l, Fed need f c (g a)) : Fed need f c (l.flatMap g) := by
  induction l with
  | nil => trivial
  | cons a l ih =>
    rw [List.forall_mem_cons] at h
    rw [List.flatMap_cons]
    exact h.1.append (ih h.2)

theorem fed_raise (g : φ) : Fed need f c [(.raise g : Instr κ φ)] := by simp [Fed]

theorem fed_of_le (hle : need ≤ c) (h : .reset f ∉ is) : Fed need f c is := by
  induction is generalizing c with
  | nil => trivial
  | cons instr is ih =>
    rw [List.mem_cons, not_or] at h
    refine ⟨fun _ => hle, Ne.symm h.1, ?_⟩
    refine ih ?_ h.2
    split_ifs
    · exact Nat.le_succ_of_le hle
    · exact hle

theorem fed_of_notMem (hawait : .await f ∉ is) (h : .reset f ∉ is) : Fed need f c is := by
  induction is generalizing c with
  | nil => trivial
  | cons instr is ih =>
    rw [List.mem_cons, not_or] at hawait h
    exact ⟨fun hinstr => absurd hinstr.symm hawait.1, Ne.symm h.1, ih hawait.2 h.2⟩

end Fed

/-! ## What is needed on the way -/

/-- The counters are what a program needs where it waits for them, as it changes them itself. -/
def Supplied [DecidableEq φ] (need : φ → ℕ) : (φ → ℕ) → List (Instr κ φ) → Prop
  | _, [] => True
  | count, instr :: is =>
    (∀ f, instr = .await f → need f ≤ count f) ∧ Supplied need (counted count instr) is

section Supplied

variable [DecidableEq κ] [DecidableEq φ] {need : φ → ℕ} {is : List (Instr κ φ)}

theorem le_counted {f : φ} {instr : Instr κ φ} (h : instr ≠ .reset f) (count : φ → ℕ) :
    (if instr = .raise f then count f + 1 else count f) = counted count instr f := by
  cases instr with
  | raise g =>
    by_cases hfg : g = f
    · subst hfg
      simp [counted]
    · simp [counted, hfg, Function.update_of_ne (Ne.symm hfg)]
  | reset g =>
    have hfg : g ≠ f := fun hfg => h (congrArg Instr.reset hfg)
    simp [counted, Function.update_of_ne (Ne.symm hfg)]
  | acquire | acquireShared | release | await => simp [counted]

theorem Fed.reset_notMem {need c : ℕ} {f : φ} (h : Fed need f c is) : .reset f ∉ is := by
  induction is generalizing c with
  | nil => exact List.not_mem_nil
  | cons instr is ih =>
    rw [List.mem_cons, not_or]
    exact ⟨Ne.symm h.2.1, ih h.2.2⟩

theorem supplied_of_fed {count : φ → ℕ} (h : ∀ f, Fed (need f) f (count f) is) :
    Supplied need count is := by
  induction is generalizing count with
  | nil => trivial
  | cons instr is ih =>
    refine ⟨fun f => (h f).1, ih fun f => ?_⟩
    rw [← le_counted (h f).2.1 count]
    exact (h f).2.2

omit [DecidableEq κ] in
theorem supplied_of_notMem {count : φ → ℕ} (h : ∀ f, .await f ∉ is) : Supplied need count is := by
  induction is generalizing count with
  | nil => trivial
  | cons instr is ih =>
    refine ⟨fun f hf => ?_, ih fun f hf => h f (List.mem_cons_of_mem _ hf)⟩
    exact absurd (hf ▸ List.mem_cons_self) (h f)

/-- Without a reset, counters are only raised. -/
theorem le_foldl_counted (h : ∀ f, .reset f ∉ is) (count : φ → ℕ) (f : φ) :
    count f ≤ is.foldl counted count f ∧ (.raise f ∈ is → count f < is.foldl counted count f) := by
  induction is generalizing count with
  | nil => exact ⟨Nat.le_refl _, fun hf => absurd hf List.not_mem_nil⟩
  | cons instr is ih =>
    have hreset (g : φ) := not_or.1 (List.mem_cons.not.1 (h g))
    obtain ⟨hle, hlt⟩ := ih (fun g => (hreset g).2) (counted count instr)
    have hone := le_counted (Ne.symm (hreset f).1) count
    rw [List.foldl_cons]
    refine ⟨?_, fun hf => ?_⟩
    · split_ifs at hone <;> omega
    · rcases List.mem_cons.1 hf with rfl | hf
      · rw [if_pos rfl] at hone
        omega
      · have hmore := hlt hf
        split_ifs at hone <;> omega

end Supplied

/-! ## The invariant -/

namespace System

section Inv

variable [DecidableEq κ] [DecidableEq φ] {S : System ι χ κ φ} {s : State ι κ φ}

structure Inv (S : System ι χ κ φ) (s : State ι κ φ) : Prop where
  ordered : ∀ i, S.Ordered (s.held i) (s.rest i)
  fed : ∀ f, S.raiser f = none → ∀ i, Fed (S.need f) f (s.count f) (s.rest i)
  above : ∀ f r c, S.raiser f = some (r, c) → S.Above (S.flagRank f) (s.rest r)

theorem inv_idle (S : System ι χ κ φ) (count : φ → ℕ) : Inv S (State.idle count) where
  ordered _ := ⟨trivial, rfl⟩
  fed _ _ _ := trivial
  above _ _ _ _ := fun _ h => absurd h List.not_mem_nil

/-- A party that is not in a call holds nothing. -/
theorem Inv.held_nil (h : Inv S s) {i : ι} (hrest : s.rest i = []) : s.held i = [] := by
  have hordered := h.ordered i
  rw [hrest] at hordered
  exact hordered.2

/-- Every party in a call waits for something of at most this rank. -/
def Waiting (S : System ι χ κ φ) (n : ℕ) (s : State ι κ φ) : Prop :=
  ∀ i instr is, s.rest i = instr :: is → ∃ m, S.rank instr = some m ∧ m ≤ n

/-- Then the locks that are held have smaller ranks. -/
theorem Inv.lt_of_waiting (h : Inv S s) {n : ℕ} (hwaiting : Waiting S n s) {i : ι} {k : κ}
    {b : Bool} (hheld : (k, b) ∈ s.held i) : S.lockRank k < n := by
  cases hrest : s.rest i with
  | nil =>
    rw [h.held_nil hrest] at hheld
    cases hheld
  | cons instr is =>
    obtain ⟨m, hm, hle⟩ := hwaiting i instr is hrest
    have hordered := h.ordered i
    rw [hrest] at hordered
    exact (hordered.1.1.rank hm (k, b) hheld).trans_le hle

/-- The raiser of a counter of this rank or a greater one does not wait. -/
theorem Inv.raiser_rests (h : Inv S s) {n : ℕ} (hwaiting : Waiting S n s) {f : φ} {r : ι} {c : χ}
    (hraiser : S.raiser f = some (r, c)) (hrank : n ≤ S.flagRank f) : s.rest r = [] := by
  cases hrest : s.rest r with
  | nil => rfl
  | cons instr is =>
    obtain ⟨m, hm, hle⟩ := hwaiting r instr is hrest
    have habove := h.above f r c hraiser instr (by simp [hrest]) m hm
    omega

/-- Nobody's call has gone on; counters have only been raised. -/
structure Raised (s s' : State ι κ φ) : Prop where
  rest : s'.rest = s.rest
  held : s'.held = s.held
  count : ∀ f, s.count f ≤ s'.count f

theorem Inv.raised (h : Inv S s) {s' : State ι κ φ} (hraised : Raised s s') : Inv S s' := by
  refine ⟨fun i => ?_, fun g hg i => ?_, fun g r c hg => ?_⟩
  · rw [hraised.rest, hraised.held]
    exact h.ordered i
  · rw [hraised.rest]
    exact (h.fed g hg i).mono (hraised.count g)
  · rw [hraised.rest]
    exact h.above g r c hg

variable [DecidableEq ι]

theorem Inv.exec (h : Inv S s) {i : ι} {instr : Instr κ φ} {is : List (Instr κ φ)}
    (hrest : s.rest i = instr :: is) : Inv S (s.exec i instr is) := by
  refine ⟨fun j => ?_, fun f hf j => ?_, fun f r c hf => ?_⟩
  · by_cases hij : j = i
    · subst hij
      have hordered := h.ordered j
      rw [hrest] at hordered
      simp only [State.exec, Function.update_self]
      exact hordered.tail
    · simp only [State.exec, Function.update_of_ne hij]
      exact h.ordered j
  · have hfed := h.fed f hf i
    rw [hrest] at hfed
    have hcount := le_counted hfed.2.1 s.count
    by_cases hij : j = i
    · subst hij
      simp only [State.exec, Function.update_self]
      rw [← hcount]
      exact hfed.2.2
    · simp only [State.exec, Function.update_of_ne hij]
      refine (h.fed f hf j).mono ?_
      rw [← hcount]
      split_ifs <;> omega
  · have habove := h.above f r c hf
    by_cases hir : r = i
    · subst hir
      rw [hrest] at habove
      simp only [State.exec, Function.update_self]
      exact fun instr' hmem => habove instr' (List.mem_cons_of_mem _ hmem)
    · simp only [State.exec, Function.update_of_ne hir]
      exact habove

theorem Inv.begin {C : ι → χ → Prop} (hS : S.Disciplined C) (h : Inv S s) {i : ι}
    (hrest : s.rest i = []) {c : χ} (hc : C i c) : Inv S (s.begin i (S.program i c)) := by
  refine ⟨fun j => ?_, fun f hf j => ?_, fun f r c' hf => ?_⟩
  · by_cases hij : j = i
    · subst hij
      simp only [State.begin, Function.update_self, h.held_nil hrest]
      exact hS.ordered j c hc
    · simp only [State.begin, Function.update_of_ne hij]
      exact h.ordered j
  · by_cases hij : j = i
    · subst hij
      simp only [State.begin, Function.update_self]
      exact (hS.fed f hf j c hc).mono (Nat.zero_le _)
    · simp only [State.begin, Function.update_of_ne hij]
      exact h.fed f hf j
  · by_cases hir : r = i
    · subst hir
      simp only [State.begin, Function.update_self]
      exact hS.above f r c' hf c hc
    · simp only [State.begin, Function.update_of_ne hir]
      exact h.above f r c' hf

variable [Fintype ι]

theorem step_exec {i : ι} {instr : Instr κ φ} {is : List (Instr κ φ)}
    (hrest : s.rest i = instr :: is) (hready : S.Ready s instr) :
    S.step s (.exec i) = s.exec i instr is := by
  simp only [step, hrest, if_pos hready]

theorem step_call {i : ι} (hrest : s.rest i = []) (c : χ) :
    S.step s (.call i c) = s.begin i (S.program i c) := by
  simp only [step, hrest]

/-- **Every step keeps the invariant.** -/
theorem Inv.step {C : ι → χ → Prop} (hS : S.Disciplined C) (h : Inv S s) {e : Event ι χ}
    (he : ∀ i c, e = .call i c → C i c) : Inv S (S.step s e) := by
  cases e with
  | exec i =>
    cases hrest : s.rest i with
    | nil =>
      simp only [System.step, hrest]
      exact h
    | cons instr is =>
      simp only [System.step, hrest]
      split_ifs
      · exact h.exec hrest
      · exact h
  | call i c =>
    cases hrest : s.rest i with
    | nil =>
      rw [step_call hrest]
      exact h.begin hS hrest (he i c rfl)
    | cons instr is =>
      simp only [System.step, hrest]
      exact h

theorem inv_run {C : ι → χ → Prop} (hS : S.Disciplined C) (h : Inv S s) {es : List (Event ι χ)}
    (hes : ∀ i c, .call i c ∈ es → C i c) : Inv S (run S.step s es) := by
  induction es generalizing s with
  | nil => exact h
  | cons e es ih =>
    have he (i : ι) (c : χ) (heq : e = .call i c) : C i c := hes i c (heq ▸ List.mem_cons_self)
    exact ih (h.step hS he) fun i c hmem => hes i c (List.mem_cons_of_mem _ hmem)

end Inv

/-! ## A party alone -/

section Finishing

variable [Fintype ι] [DecidableEq ι] [DecidableEq κ] [DecidableEq φ] {S : System ι χ κ φ}
  {s : State ι κ φ}

/-- From here calls can be continued so that the property holds. -/
def CanReach (S : System ι χ κ φ) (s : State ι κ φ) (P : State ι κ φ → Prop) : Prop :=
  ∃ es, (∀ e ∈ es, S.Continues e) ∧ P (run S.step s es)

theorem CanReach.of_now {P : State ι κ φ → Prop} (h : P s) : CanReach S s P :=
  ⟨[], fun _ he => absurd he List.not_mem_nil, h⟩

theorem CanReach.of_step {P : State ι κ φ → Prop} {e : Event ι χ} (he : S.Continues e)
    (h : CanReach S (S.step s e) P) : CanReach S s P := by
  obtain ⟨es, hes, hP⟩ := h
  exact ⟨e :: es, List.forall_mem_cons.2 ⟨he, hes⟩, hP⟩

theorem CanReach.trans {P Q : State ι κ φ → Prop} (h : CanReach S s P)
    (hPQ : ∀ s', P s' → CanReach S s' Q) : CanReach S s Q := by
  obtain ⟨es, hes, hP⟩ := h
  obtain ⟨es', hes', hQ⟩ := hPQ _ hP
  refine ⟨es ++ es', List.forall_mem_append.2 ⟨hes, hes'⟩, ?_⟩
  rw [run_append]
  exact hQ

/-- **A party runs alone** up to some point of its program, if nobody else holds the locks it takes
on the way and the counters are what it needs. -/
theorem run_alone {i : ι} {is is' : List (Instr κ φ)} (hrest : s.rest i = is ++ is')
    (htakes : S.Takes (s.held i) is)
    (hfree : ∀ k, (.acquire k ∈ is ∨ .acquireShared k ∈ is) → ∀ j, j ≠ i → ∀ b, (k, b) ∉ s.held j)
    (hsupplied : Supplied S.need s.count is) :
    run S.step s (List.replicate is.length (.exec i)) =
      { rest := Function.update s.rest i is'
        held := Function.update s.held i (is.foldl hold (s.held i))
        count := is.foldl counted s.count } := by
  induction is generalizing s with
  | nil =>
    rw [List.nil_append] at hrest
    rw [← hrest, List.foldl_nil, List.foldl_nil, Function.update_eq_self, Function.update_eq_self]
    rfl
  | cons instr is ih =>
    rw [List.cons_append] at hrest
    obtain ⟨hfits, htakes⟩ := htakes
    obtain ⟨hneeds, hsupplied⟩ := hsupplied
    have hothers (k : κ) (hrank : S.rank instr = some (S.lockRank k))
        (hmem : .acquire k ∈ instr :: is ∨ .acquireShared k ∈ instr :: is) (j : ι) (b : Bool) :
        (k, b) ∉ s.held j := by
      by_cases hji : j = i
      · rw [hji]
        exact fun hmem => Nat.lt_irrefl _ (hfits.rank hrank (k, b) hmem)
      · exact hfree k hmem j hji b
    have hready : S.Ready s instr := by
      cases instr with
      | acquire k => exact hothers k rfl (Or.inl List.mem_cons_self)
      | acquireShared k => exact fun j => hothers k rfl (Or.inr List.mem_cons_self) j true
      | await f => exact hneeds f rfl
      | release | raise | reset => trivial
    show run S.step (S.step s (.exec i)) (List.replicate is.length (.exec i)) = _
    rw [step_exec hrest hready, ih]
    · simp only [State.exec, Function.update_idem, Function.update_self, List.foldl_cons]
    · simp only [State.exec, Function.update_self]
    · simp only [State.exec, Function.update_self]
      exact htakes
    · intro k hk j hji b
      simp only [State.exec, Function.update_of_ne hji]
      exact hfree k (hk.imp (List.mem_cons_of_mem _) (List.mem_cons_of_mem _)) j hji b
    · exact hsupplied

/-- It begins a call and runs up to some point. -/
theorem run_begun {i : ι} {c : χ} {is is' : List (Instr κ φ)} (hrest : s.rest i = [])
    (hheld : s.held i = []) (hprogram : S.program i c = is ++ is') (htakes : S.Takes [] is)
    (hfree : ∀ k, (.acquire k ∈ is ∨ .acquireShared k ∈ is) → ∀ j, j ≠ i → ∀ b, (k, b) ∉ s.held j)
    (hsupplied : Supplied S.need s.count is) :
    run S.step s (.call i c :: List.replicate is.length (.exec i)) =
      { rest := Function.update s.rest i is'
        held := Function.update s.held i (is.foldl hold [])
        count := is.foldl counted s.count } := by
  show run S.step (S.step s (.call i c)) (List.replicate is.length (.exec i)) = _
  have hbegun : (s.begin i (S.program i c)).rest i = is ++ is' := by
    simp only [State.begin, Function.update_self, hprogram]
  have htakes' : S.Takes ((s.begin i (S.program i c)).held i) is := by
    simp only [State.begin, hheld]
    exact htakes
  rw [step_call hrest, run_alone hbegun htakes' hfree hsupplied]
  simp only [State.begin, Function.update_idem, hheld]

/-- The state after a party has run its program to the end, with what it has raised. -/
structure Alone (s : State ι κ φ) (i : ι) (is : List (Instr κ φ)) (s' : State ι κ φ) : Prop where
  rest : s'.rest = Function.update s.rest i []
  held : s'.held = Function.update s.held i []
  count : ∀ f, s.count f ≤ s'.count f
  raised : ∀ f, .raise f ∈ is → s.count f < s'.count f

/-- **A party can finish alone** if nobody else holds the locks of its program and the counters are
what it needs. -/
theorem canReach_alone {i : ι} {is : List (Instr κ φ)} (hrest : s.rest i = is)
    (hordered : S.Ordered (s.held i) is)
    (hfree : ∀ k, (.acquire k ∈ is ∨ .acquireShared k ∈ is) → ∀ j, j ≠ i → ∀ b, (k, b) ∉ s.held j)
    (hfed : ∀ f, Fed (S.need f) f (s.count f) is) : CanReach S s (Alone s i is) := by
  have hcount := le_foldl_counted (fun f => (hfed f).reset_notMem) s.count
  refine ⟨List.replicate is.length (.exec i), fun e he => ?_, ?_⟩
  · rw [List.eq_of_mem_replicate he]
    trivial
  · rw [← List.append_nil is] at hrest
    rw [run_alone hrest hordered.1 hfree (supplied_of_fed hfed)]
    exact ⟨rfl, by simp only [hordered.2], fun f => (hcount f).1, fun f => (hcount f).2⟩

/-! ## All parties wait -/

/-- A raiser runs its loop once, if the counters of greater ranks are what is needed. -/
theorem canReach_raised {C : ι → χ → Prop} (hS : S.Disciplined C) (h : Inv S s) {n : ℕ}
    (hwaiting : Waiting S n s) {f : φ} {r : ι} {c : χ} (hraiser : S.raiser f = some (r, c))
    (hrank : n ≤ S.flagRank f)
    (habove : ∀ g, S.flagRank f < S.flagRank g → S.raiser g ≠ none → S.need g ≤ s.count g) :
    CanReach S s fun s' => Raised s s' ∧ s.count f < s'.count f := by
  have hrest := h.raiser_rests hwaiting hraiser hrank
  have hc := hS.repeats f r c hraiser
  have habove' := hS.above f r c hraiser c hc
  refine .of_step (e := .call r c) ⟨f, hraiser⟩ ?_
  rw [step_call hrest]
  refine (show CanReach S _ (Alone _ r (S.program r c)) from
    canReach_alone ?_ ?_ ?_ fun g => ?_).trans fun s' halone => .of_now ?_
  · simp only [State.begin, Function.update_self]
  · simp only [State.begin, h.held_nil hrest]
    exact hS.ordered r c hc
  · intro k hk j _ b hheld
    have hlt := h.lt_of_waiting hwaiting (i := j) hheld
    have hgt : S.flagRank f < S.lockRank k := by
      rcases hk with hk | hk
      · exact habove' _ hk _ rfl
      · exact habove' _ hk _ rfl
    omega
  · show Fed _ _ (s.count g) _
    by_cases hg : S.raiser g = none
    · exact (hS.fed g hg r c hc).mono (Nat.zero_le _)
    · by_cases hawait : .await g ∈ S.program r c
      · exact fed_of_le (habove g (habove' _ hawait _ rfl) hg)
          (hS.keeps f r c hraiser g)
      · exact fed_of_notMem hawait (hS.keeps f r c hraiser g)
  · refine ⟨⟨?_, ?_, halone.count⟩, halone.raised f (hS.raises f r c hraiser)⟩
    · rw [halone.rest]
      simp only [State.begin, Function.update_idem]
      rw [← hrest, Function.update_eq_self]
    · rw [halone.held]
      simp only [State.begin]
      rw [← h.held_nil hrest, Function.update_eq_self]

/-- **Parties that wait for a counter that is too low go on waiting** if no other program under way
raises it, and they are the raisers that would. -/
theorem keeps_waiting {f : φ} {W : ι → Prop} (hwaits : ∀ i, W i → ∃ is, s.rest i = .await f :: is)
    (hcount : s.count f < S.need f) (hraise : ∀ j, ¬ W j → .raise f ∉ s.rest j)
    (hraiser : ∀ g r c, S.raiser g = some (r, c) → .raise f ∈ S.program r c → W r)
    {es : List (Event ι χ)} (hes : ∀ e ∈ es, S.Continues e) {i : ι} (hi : W i) :
    (run S.step s es).rest i = s.rest i := by
  induction es generalizing s with
  | nil => rfl
  | cons e es ih =>
    rw [List.forall_mem_cons] at hes
    obtain ⟨he, hes⟩ := hes
    show (run S.step (S.step s e) es).rest i = _
    cases e with
    | exec j =>
      cases hj : s.rest j with
      | nil =>
        simp only [System.step, hj]
        exact ih hwaits hcount hraise hes
      | cons instr js =>
        simp only [System.step, hj]
        split_ifs with hready
        · have hjW : ¬ W j := by
            intro hjW
            obtain ⟨is, his⟩ := hwaits j hjW
            obtain rfl := (List.cons.inj (hj.symm.trans his)).1
            exact absurd hready (Nat.not_le_of_lt hcount)
          have hnot := hraise j hjW
          rw [hj, List.mem_cons, not_or] at hnot
          have hne (k : ι) (hk : W k) : k ≠ j := fun hkj => hjW (hkj ▸ hk)
          have hrest (k : ι) (hk : W k) : (s.exec j instr js).rest k = s.rest k :=
            Function.update_of_ne (hne k hk) _ _
          rw [← hrest i hi]
          refine ih (fun k hk => ?_) ?_ (fun k hk => ?_) hes
          · rw [hrest k hk]
            exact hwaits k hk
          · show counted s.count instr f < _
            by_cases hreset : instr = .reset f
            · rw [hreset]
              simpa [counted] using Nat.zero_lt_of_lt hcount
            · rw [← le_counted hreset, if_neg (Ne.symm hnot.1)]
              exact hcount
          · by_cases hkj : k = j
            · rw [hkj]
              simp only [State.exec, Function.update_self]
              exact hnot.2
            · simp only [State.exec, Function.update_of_ne hkj]
              exact hraise k hk
        · exact ih hwaits hcount hraise hes
    | call j c =>
      obtain ⟨g, hg⟩ := he
      cases hj : s.rest j with
      | nil =>
        have hjW : ¬ W j := by
          intro hjW
          obtain ⟨is, his⟩ := hwaits j hjW
          rw [hj] at his
          cases his
        rw [step_call hj]
        have hne (k : ι) (hk : W k) : k ≠ j := fun hkj => hjW (hkj ▸ hk)
        have hrest (k : ι) (hk : W k) : (s.begin j (S.program j c)).rest k = s.rest k :=
          Function.update_of_ne (hne k hk) _ _
        rw [← hrest i hi]
        refine ih (fun k hk => ?_) hcount (fun k hk => ?_) hes
        · rw [hrest k hk]
          exact hwaits k hk
        · by_cases hkj : k = j
          · rw [hkj]
            simp only [State.begin, Function.update_self]
            exact fun hmem => hjW (hraiser g j c hg hmem)
          · simp only [State.begin, Function.update_of_ne hkj]
            exact hraise k hk
      | cons instr js =>
        simp only [System.step, hj]
        exact ih hwaits hcount hraise hes

variable [Fintype φ]

/-- **The counters of a rank and above can be raised to what is needed**, the greatest first. -/
theorem canReach_needed {C : ι → χ → Prop} (hS : S.Disciplined C) (h : Inv S s) {n : ℕ}
    (hwaiting : Waiting S n s) :
    CanReach S s fun s' => Raised s s' ∧
      ∀ f, n ≤ S.flagRank f → S.raiser f ≠ none → S.need f ≤ s'.count f := by
  induction hd : ∑ f, (S.need f - s.count f) using Nat.strong_induction_on generalizing s with
  | _ d ih =>
    subst hd
    by_cases hall : ∀ f, n ≤ S.flagRank f → S.raiser f ≠ none → S.need f ≤ s.count f
    · exact .of_now ⟨⟨rfl, rfl, fun _ => Nat.le_refl _⟩, hall⟩
    · have hex : {f | n ≤ S.flagRank f ∧ S.raiser f ≠ none ∧ s.count f < S.need f}.Nonempty := by
        push Not at hall
        obtain ⟨f, hrank, hraiser, hcount⟩ := hall
        exact ⟨f, hrank, hraiser, hcount⟩
      obtain ⟨f, ⟨hrank, hne, hcount⟩, hmax⟩ :=
        Set.exists_max_image _ S.flagRank (Set.toFinite _) hex
      obtain ⟨⟨r, c⟩, hraiser⟩ := Option.ne_none_iff_exists'.1 hne
      refine (canReach_raised hS h hwaiting hraiser hrank fun g hg hgne => ?_).trans
        fun s' ⟨hraised, hlt⟩ => ?_
      · by_contra hneed
        have hle := hmax g ⟨hrank.trans hg.le, hgne, Nat.lt_of_not_le hneed⟩
        omega
      · have hwaiting' : Waiting S n s' := by
          intro i instr is hrest
          rw [hraised.rest] at hrest
          exact hwaiting i instr is hrest
        have hsum : ∑ g, (S.need g - s'.count g) < ∑ g, (S.need g - s.count g) := by
          refine Finset.sum_lt_sum (fun g _ => Nat.sub_le_sub_left (hraised.count g) _)
            ⟨f, Finset.mem_univ f, ?_⟩
          omega
        refine (ih _ hsum (h.raised hraised) hwaiting' rfl).trans fun s'' ⟨hraised', hneed⟩ =>
          .of_now ?_
        have hrest := hraised'.rest.trans hraised.rest
        have hheld := hraised'.held.trans hraised.held
        refine ⟨⟨hrest, hheld, fun g => ?_⟩, hneed⟩
        exact (hraised.count g).trans (hraised'.count g)

/-! ## Finishing -/

/-- Some party can take its next step, perhaps after counters have been raised. -/
theorem canReach_ready {C : ι → χ → Prop} (hS : S.Disciplined C) (h : Inv S s)
    (hbusy : ∃ i, s.rest i ≠ []) : CanReach S s fun s' => Raised s s' ∧
      ∃ i instr is, s'.rest i = instr :: is ∧ S.Ready s' instr := by
  by_cases hready : ∃ i instr is, s.rest i = instr :: is ∧ S.Ready s instr
  · exact .of_now ⟨⟨rfl, rfl, fun _ => Nat.le_refl _⟩, hready⟩
  · push Not at hready
    -- A party waits for something of the greatest rank.
    have hrank (i : ι) (instr : Instr κ φ) (is : List (Instr κ φ))
        (hrest : s.rest i = instr :: is) : ∃ m, S.rank instr = some m := by
      have hnot := hready i instr is hrest
      cases instr with
      | acquire | acquireShared | await => exact ⟨_, rfl⟩
      | release | raise | reset => exact absurd trivial hnot
    obtain ⟨i, hi, hmax⟩ := Set.exists_max_image {i | s.rest i ≠ []}
      (fun i => ((s.rest i).head?.bind S.rank).getD 0) (Set.toFinite _) hbusy
    obtain ⟨instr, is, hrest⟩ := List.exists_cons_of_ne_nil hi
    obtain ⟨n, hn⟩ := hrank i instr is hrest
    have hwaiting : Waiting S n s := by
      intro j instr' is' hrest'
      obtain ⟨m, hm⟩ := hrank j instr' is' hrest'
      refine ⟨m, hm, ?_⟩
      have hle := hmax j (by simp [hrest'])
      simpa [hrest', hrest, hm, hn] using hle
    -- It does not wait for a lock: a holder would wait for more.
    have hnotHeld (k : κ) (hk : S.rank instr = some (S.lockRank k)) (j : ι) (b : Bool) :
        (k, b) ∉ s.held j := by
      intro hheld
      have hlt := h.lt_of_waiting hwaiting hheld
      rw [hn, Option.some.injEq] at hk
      omega
    have hnot := hready i instr is hrest
    cases instr with
    | acquire k => exact absurd (fun j b => hnotHeld k rfl j b) hnot
    | acquireShared k => exact absurd (fun j => hnotHeld k rfl j true) hnot
    | release | raise | reset => exact absurd trivial hnot
    | await f =>
      have hraiser : S.raiser f ≠ none := by
        intro hnone
        have hfed := h.fed f hnone i
        rw [hrest] at hfed
        exact hnot (hfed.1 rfl)
      refine (canReach_needed hS h hwaiting).trans fun s' ⟨hraised, hneed⟩ => .of_now ?_
      refine ⟨hraised, i, .await f, is, by rw [hraised.rest, hrest], hneed f ?_ hraiser⟩
      exact (Option.some.inj hn).ge

theorem canReach_idle {C : ι → χ → Prop} (hS : S.Disciplined C) (h : Inv S s) :
    CanReach S s fun s' => ∀ i, s'.rest i = [] ∧ s'.held i = [] := by
  induction hn : ∑ i, (s.rest i).length using Nat.strong_induction_on generalizing s with
  | _ n ih =>
    subst hn
    by_cases hbusy : ∃ i, s.rest i ≠ []
    · refine (canReach_ready hS h hbusy).trans fun s' ⟨hraised, i, instr, is, hrest, hready⟩ => ?_
      refine .of_step (e := .exec i) trivial ?_
      rw [step_exec hrest hready]
      refine ih _ ?_ ((h.raised hraised).exec hrest) rfl
      refine Finset.sum_lt_sum (fun j _ => ?_) ⟨i, Finset.mem_univ i, ?_⟩
      · by_cases hji : j = i
        · subst hji
          simp only [State.exec, Function.update_self]
          rw [← hraised.rest, hrest, List.length_cons]
          exact Nat.le_succ _
        · simp only [State.exec, Function.update_of_ne hji, hraised.rest]
          exact Nat.le_refl _
      · simp only [State.exec, Function.update_self]
        rw [← hraised.rest, hrest, List.length_cons]
        exact Nat.lt_succ_self _
    · push Not at hbusy
      exact .of_now fun i => ⟨hbusy i, h.held_nil (hbusy i)⟩

/-- **All calls can be finished**, from every state that is reachable, and leave no lock behind. -/
theorem finishes {C : ι → χ → Prop} (hS : S.Disciplined C) (count : φ → ℕ) {es : List (Event ι χ)}
    (hes : ∀ i c, .call i c ∈ es → C i c) :
    CanReach S (run S.step (State.idle count) es) fun s => ∀ i, s.rest i = [] ∧ s.held i = [] :=
  canReach_idle hS (inv_run hS (inv_idle S count) hes)

end Finishing

end System

end LockOrder
