import Mathlib.Data.List.Basic

/-! The places of the members of a C structure: each behind the one before, rounded up to
its own alignment. -/
namespace Layout

variable {μ : Type}

def roundUp (n align : Nat) : Nat := n + (align - n % align) % align

theorem roundUpAligned {n align : Nat} (aligned : align ∣ n) : roundUp n align = n := by
  rw [roundUp, Nat.mod_eq_zero_of_dvd aligned, Nat.sub_zero, Nat.mod_self, Nat.add_zero]

def places (size align : μ → Nat) : Nat → List μ → List Nat
  | _, [] => []
  | start, m :: members =>
    roundUp start (align m) :: places size align (roundUp start (align m) + size m) members

variable {size align : μ → Nat}

theorem placesUniform {width start : Nat} {members : List μ} (sizes : ∀ m ∈ members, size m = width)
    (aligns : ∀ m ∈ members, align m ∣ width) (aligned : width ∣ start) :
    places size align start members = (List.range members.length).map fun i => start + width * i := by
  induction members generalizing start with
  | nil => rfl
  | cons m members ih =>
    have here := roundUpAligned (Nat.dvd_trans (aligns m List.mem_cons_self) aligned)
    have rest := ih (fun m' member => sizes m' (List.mem_cons_of_mem _ member))
      (fun m' member => aligns m' (List.mem_cons_of_mem _ member)) (Nat.dvd_add aligned (Nat.dvd_refl width))
    rw [places, here, sizes m List.mem_cons_self, rest, List.length_cons, List.range_succ_eq_map, List.map_cons,
      List.map_map, Nat.mul_zero, Nat.add_zero]
    congr 1
    refine List.map_congr_left fun i _ => ?_
    rw [Function.comp_apply, Nat.mul_succ]
    omega

end Layout
