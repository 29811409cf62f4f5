import AmdgpuPro.Vm.PageTable

set_option autoImplicit false

/-!
# Destinations of a walk over page tables

`amdgpu_vm_update_ptes` goes from table to table, and advances the destination by the number of
entries times the size of a page. The product is one of 32 bits, and a page table can have
`2 ^ 20` entries: then it is zero for a whole table.

## Main definitions

* `Amdgpu.walkDst` — the destination of each page of a range.
* `NoWholeTable` — no page of the range comes after a whole table of `2 ^ 20` entries.

## Main results

* `Amdgpu.walkDst_add`, `walkDst_next` — the destination inside of a table, and in the next one.
* `walkDst_eq` — with no such table the destinations follow each other.
-/

namespace Amdgpu

namespace VmConfig

variable (cfg : VmConfig)

/-- A page table has `2 ^ 20` entries at most. -/
theorem pteCount_le : cfg.pteCount ≤ 2 ^ 20 := by
  obtain ⟨k, hk, hvm⟩ := cfg.vmSize_pow
  have hsize : cfg.vmSize ≤ 2 ^ 10 := hvm ▸ Nat.pow_le_pow_right (by norm_num) hk
  have hle := cfg.two_pow_blockSize_le
  unfold pteCount
  omega

end VmConfig

section Walk

variable (cfg : VmConfig)

/-- The tables that a walk from page `start` on has filled as a whole when it comes to page `q`. -/
def wholeTables (start q : ℕ) : ℕ :=
  q / cfg.pteCount - (start + cfg.pteCount - 1) / cfg.pteCount

/-- The destination of page `q` in a walk that starts with `dst` at page `start`. -/
def walkDst (start : ℕ) (dst : BitVec 64) (q : ℕ) : BitVec 64 :=
  dst + BitVec.ofNat 64 ((q - start) * gpuPageSize) -
    if cfg.pteCount = 2 ^ 20 then BitVec.ofNat 64 (2 ^ 32 * wholeTables cfg start q) else 0

/-- No page of the range `[a, b)` comes after a whole table of `2 ^ 20` entries. -/
def NoWholeTable (a b : ℕ) : Prop :=
  cfg.pteCount = 2 ^ 20 → ∀ j, a ≤ j * 2 ^ 20 → b ≤ (j + 1) * 2 ^ 20

variable {cfg} {start q : ℕ} {dst : BitVec 64}

theorem NoWholeTable.mono {a b a' b' : ℕ} (h : NoWholeTable cfg a b) (ha : a ≤ a') (hb : b' ≤ b) :
    NoWholeTable cfg a' b' :=
  fun hN j hj => hb.trans (h hN j (ha.trans hj))

/-- The first table is not whole when the walk comes to its pages. -/
theorem wholeTables_of_div_le (h : q / cfg.pteCount ≤ start / cfg.pteCount) :
    wholeTables cfg start q = 0 := by
  have hN := cfg.pteCount_pos
  have hle : start / cfg.pteCount ≤ (start + cfg.pteCount - 1) / cfg.pteCount :=
    Nat.div_le_div_right (by omega)
  exact Nat.sub_eq_zero_of_le (h.trans hle)

@[simp] theorem walkDst_start : walkDst cfg start dst start = dst := by
  simp [walkDst, wholeTables_of_div_le]

/-- Inside of a table the destinations follow each other. -/
theorem walkDst_add {k : ℕ} (hle : start ≤ q) (h : (q + k) / cfg.pteCount = q / cfg.pteCount) :
    walkDst cfg start dst (q + k) =
      walkDst cfg start dst q + BitVec.ofNat 64 (k * gpuPageSize) := by
  have hsum : (q + k - start) * gpuPageSize = (q - start) * gpuPageSize + k * gpuPageSize := by
    rw [← Nat.add_mul]
    congr 1
    omega
  unfold walkDst wholeTables
  rw [h, hsum, BitVec.ofNat_add, ← BitVec.add_assoc, BitVec.add_sub_comm]

/-- The advance of the destination, with the product of 32 bits. -/
theorem advanceDst_eq (dst : BitVec 64) (n : ℕ) :
    advanceDst dst n = dst + BitVec.ofNat 64 (n * gpuPageSize % 2 ^ 32) := by
  unfold advanceDst
  congr 1
  refine BitVec.eq_of_toNat_eq ?_
  simp only [BitVec.toNat_setWidth, BitVec.toNat_mul, BitVec.toNat_ofNat, gpuPageSize]
  omega

theorem advanceDst_of_lt {n : ℕ} (h : n < 2 ^ 20) (dst : BitVec 64) :
    advanceDst dst n = dst + BitVec.ofNat 64 (n * gpuPageSize) := by
  rw [advanceDst_eq, Nat.mod_eq_of_lt (by unfold gpuPageSize; omega)]

/-- The next table begins behind the rest of the table of a page. -/
theorem add_sub_mod_div (q : ℕ) :
    (q + (cfg.pteCount - q % cfg.pteCount)) / cfg.pteCount = q / cfg.pteCount + 1 := by
  have hN := cfg.pteCount_pos
  have hmod := Nat.mod_lt q hN
  have hq := Nat.div_add_mod q cfg.pteCount
  have heq : q + (cfg.pteCount - q % cfg.pteCount) = cfg.pteCount * (q / cfg.pteCount + 1) := by
    rw [Nat.mul_succ]
    omega
  rw [heq, Nat.mul_div_cancel_left _ hN]

/-- A whole table of `2 ^ 20` entries more. -/
theorem wholeTables_next (hle : start ≤ q) (hq : cfg.pteCount ∣ q) :
    wholeTables cfg start (q + cfg.pteCount) = wholeTables cfg start q + 1 := by
  have hN := cfg.pteCount_pos
  have hfirst : (start + cfg.pteCount - 1) / cfg.pteCount ≤ q / cfg.pteCount := by
    obtain ⟨c, rfl⟩ := hq
    rw [Nat.mul_div_cancel_left _ hN]
    refine Nat.lt_succ_iff.mp ((Nat.div_lt_iff_lt_mul hN).mpr ?_)
    rw [Nat.succ_mul, Nat.mul_comm c]
    omega
  unfold wholeTables
  rw [Nat.add_div_right q hN]
  omega

/-- From one table to the next the destination advances as the driver computes it. -/
theorem walkDst_next (hle : start ≤ q) (hq : q = start ∨ cfg.pteCount ∣ q) :
    walkDst cfg start dst (q + (cfg.pteCount - q % cfg.pteCount)) =
      advanceDst (walkDst cfg start dst q) (cfg.pteCount - q % cfg.pteCount) := by
  have hN := cfg.pteCount_pos
  have hmod := Nat.mod_lt q hN
  have hdiv : (q + (cfg.pteCount - q % cfg.pteCount)) / cfg.pteCount = _ := add_sub_mod_div q
  have hsum : ∀ n, (q + n - start) * gpuPageSize = (q - start) * gpuPageSize + n * gpuPageSize := by
    intro n
    rw [← Nat.add_mul]
    congr 1
    omega
  by_cases hfull : cfg.pteCount = 2 ^ 20
  · by_cases hdvd : cfg.pteCount ∣ q
    · -- a whole table: the product is zero
      rw [Nat.mod_eq_zero_of_dvd hdvd, Nat.sub_zero, advanceDst_eq, walkDst, walkDst, if_pos hfull,
        if_pos hfull, wholeTables_next hle hdvd, hsum, hfull]
      have hzero : 2 ^ 20 * gpuPageSize % 2 ^ 32 = 0 := by decide
      have hone : 2 ^ 20 * gpuPageSize = 2 ^ 32 := by decide
      rw [hzero, hone, Nat.mul_succ, BitVec.ofNat_add, BitVec.ofNat_add]
      generalize BitVec.ofNat 64 (2 ^ 32) = x
      generalize BitVec.ofNat 64 ((q - start) * gpuPageSize) = y
      generalize BitVec.ofNat 64 (2 ^ 32 * wholeTables cfg start q) = z
      bv_omega
    · -- the first table, which is not whole
      obtain rfl := hq.resolve_right hdvd
      have hpos : q % cfg.pteCount ≠ 0 := fun h => hdvd (Nat.dvd_of_mod_eq_zero h)
      have hup : (q + cfg.pteCount - 1) / cfg.pteCount = q / cfg.pteCount + 1 := by
        have hsplit := Nat.div_add_mod q cfg.pteCount
        have heq : q + cfg.pteCount - 1 =
            cfg.pteCount * (q / cfg.pteCount + 1) + (q % cfg.pteCount - 1) := by
          rw [Nat.mul_succ]
          omega
        have hsmall : (q % cfg.pteCount - 1) / cfg.pteCount = 0 := Nat.div_eq_of_lt (by omega)
        rw [heq, Nat.mul_add_div hN, hsmall, Nat.add_zero]
      have hnone : wholeTables cfg q (q + (cfg.pteCount - q % cfg.pteCount)) = 0 := by
        rw [wholeTables, hdiv, hup, Nat.sub_self]
      rw [advanceDst_of_lt (by omega), walkDst_start, walkDst, hnone, Nat.add_sub_cancel_left]
      simp
  · have hlt : cfg.pteCount < 2 ^ 20 := lt_of_le_of_ne cfg.pteCount_le hfull
    have heq : ∀ p, walkDst cfg start dst p =
        dst + BitVec.ofNat 64 ((p - start) * gpuPageSize) := fun p => by
      rw [walkDst, if_neg hfull]
      exact BitVec.sub_zero _
    rw [advanceDst_of_lt (by omega), heq, heq, hsum, BitVec.ofNat_add, BitVec.add_assoc]

/-- **Destinations of a range** with no page after a whole table of `2 ^ 20` entries: they follow
each other. -/
theorem walkDst_eq {last : ℕ} (h : NoWholeTable cfg start last) (hq : q < last) :
    walkDst cfg start dst q = dst + BitVec.ofNat 64 ((q - start) * gpuPageSize) := by
  unfold walkDst
  split_ifs with hfull
  · have hnone : wholeTables cfg start q = 0 := by
      refine Nat.sub_eq_zero_of_le ?_
      rw [hfull]
      have hend := h hfull ((start + 2 ^ 20 - 1) / 2 ^ 20) (by omega)
      omega
    rw [hnone, Nat.mul_zero]
    simp
  · exact BitVec.sub_zero _

end Walk

end Amdgpu
