import LibVsf.Lib.EqvMap
import LibVsf.Lib.ToleranceOrder
import Mathlib.Algebra.Order.Ring.Int

/-!
# `VmId` and its order

A VM is identified by the time it was seen to start and its pid. `ps` gives the time a process
has been running, so two listings of one VM may disagree on its start by a second or two, and
`operator==` and `operator<` of `vm_base.cpp` compare start times with a tolerance of two
seconds. Every `std::set<VmId>` and `std::map<VmId, ...>` of the library uses this `operator<`.

`VmId.lt_strictWeakOn_iff` says on which sets of ids the containers' requirement is met.
-/

namespace LibVsf

/-- `struct VmId`. The default constructor's value is `{}`, "no VM". -/
structure VmId where
  startTimestamp : Int := 0
  pid : Int := 0
deriving DecidableEq, Repr, Inhabited

/-- `difftime`, exact. -/
def difftime (lv rv : Int) : Int := lv - rv

namespace VmId

/-- `operator==`. -/
def eqv (lv rv : VmId) : Prop :=
  |difftime lv.startTimestamp rv.startTimestamp| ≤ 2 ∧ lv.pid = rv.pid

/-- `operator<`: by pid when the starts are at most two seconds apart, otherwise the VM that
started later comes first. -/
def lt (lv rv : VmId) : Prop :=
  if |difftime lv.startTimestamp rv.startTimestamp| ≤ 2 then lv.pid < rv.pid
  else difftime lv.startTimestamp rv.startTimestamp > 2

instance (lv rv : VmId) : Decidable (eqv lv rv) := by unfold eqv; infer_instance

instance (lv rv : VmId) : Decidable (lt lv rv) := by unfold lt; infer_instance

instance : EqvOrd VmId where
  eqv := VmId.eqv
  lt := VmId.lt
  eqv_refl a := by simp [VmId.eqv, difftime]
  eqv_symm a b := by
    intro h
    obtain ⟨hnear, hpid⟩ := h
    refine ⟨?_, hpid.symm⟩
    simp only [difftime] at hnear ⊢
    rwa [abs_sub_comm]

/-! ## The order as a comparison with a tolerance -/

theorem eqv_eq : eqv = ToleranceOrder.Eqv 2 startTimestamp pid := rfl

theorem lt_eq : lt = ToleranceOrder.Lt 2 startTimestamp pid := by
  funext a b
  simp only [lt, ToleranceOrder.Lt, ToleranceOrder.Near, difftime]
  split_ifs with h
  · have hle : a.startTimestamp - b.startTimestamp ≤ 2 := (abs_le.1 h).2
    simp [h, not_lt.2 hle]
  · simp [h]

/-- What a container of VMs `S` needs of `operator<`, with `operator==` for the ids it cannot
tell apart. -/
def StrictWeakOn (S : Set VmId) : Prop := ToleranceOrder.StrictWeakOn lt eqv S

/-- Three VMs started in close succession, `z` more than two seconds after `x`, with pids in
the order of the starts. -/
def CloseStarts (x y z : VmId) : Prop :=
  |difftime x.startTimestamp y.startTimestamp| ≤ 2 ∧
    |difftime y.startTimestamp z.startTimestamp| ≤ 2 ∧
    difftime z.startTimestamp x.startTimestamp > 2 ∧ x.pid ≤ y.pid ∧ y.pid ≤ z.pid

theorem closeStarts_iff {x y z : VmId} :
    CloseStarts x y z ↔ ToleranceOrder.Chain 2 startTimestamp pid x y z :=
  ⟨fun ⟨h₁, h₂, h₃, h₄, h₅⟩ => ⟨h₁, h₂, h₃, h₄, h₅⟩,
    fun ⟨h₁, h₂, h₃, h₄, h₅⟩ => ⟨h₁, h₂, h₃, h₄, h₅⟩⟩

theorem strictWeakOn_iff_no_closeStarts (S : Set VmId) :
    ToleranceOrder.StrictWeakOn lt eqv S ↔
      ¬ ∃ x ∈ S, ∃ y ∈ S, ∃ z ∈ S, CloseStarts x y z := by
  rw [lt_eq, eqv_eq, ToleranceOrder.strictWeakOn_iff (by decide)]
  simp [closeStarts_iff]

/-- **`operator<` orders a set of VMs lawfully exactly when no three of them were started in
close succession with pids in the order of the starts.** -/
theorem lt_strictWeakOn_iff (S : Set VmId) :
    StrictWeakOn S ↔ ¬ ∃ x ∈ S, ∃ y ∈ S, ∃ z ∈ S, CloseStarts x y z :=
  strictWeakOn_iff_no_closeStarts S

/-- A VM started every two seconds: the first comes before the second, the second before the
third, and the third before the first. -/
theorem not_strictWeakOn_univ : ¬ StrictWeakOn Set.univ := by
  intro h
  have htrans := h.trans ⟨0, 1⟩ trivial ⟨2, 2⟩ trivial ⟨4, 3⟩ trivial
  have hlt : lt ⟨0, 1⟩ ⟨4, 3⟩ := htrans (by decide) (by decide)
  exact absurd hlt (by decide)

end VmId

/-! ## VMs -/

/-- `class VM`: a handle on the VM with this id. -/
structure VM where
  vmId : VmId
deriving DecidableEq

/-- `operator<` of VMs. -/
def VM.lt (lv rv : VM) : Prop := lv.vmId.lt rv.vmId

/-- `init_vms` returns a `std::set<VM>`: it is lawfully ordered under the same condition on the
ids of its VMs. -/
theorem VM.initVms_ordered_iff (S : Set VM) :
    ToleranceOrder.StrictWeakOn VM.lt (fun a b => a.vmId.eqv b.vmId) S ↔
      ¬ ∃ x ∈ S, ∃ y ∈ S, ∃ z ∈ S, VmId.CloseStarts x.vmId y.vmId z.vmId := by
  have h := ToleranceOrder.strictWeakOn_comap VM.vmId (r := VmId.lt) (e := VmId.eqv) S
  rw [show VM.lt = fun a b => VmId.lt a.vmId b.vmId from rfl, h,
    VmId.strictWeakOn_iff_no_closeStarts]
  simp

end LibVsf
