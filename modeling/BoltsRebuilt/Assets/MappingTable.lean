/-
# The mapping table

`src/gpu/native/native_asset_mapping_table.h`: `NativeAssetMappingTable`, a hash
table of fixed capacity with linear probing.  A cell belongs to the generation it
was stored in; clearing the table begins a new generation and touches no cell, until
the number wraps and the tags are swept.

The capacity, the probe limit and the width of the generation number are the
template's parameters; the width defaults to 32 bits as there.  What a lookup returns is
`Live`: stored under that very key in the current generation (`live_of_find`).  A store
adds its own value and nothing else (`live_store`), a clear leaves nothing live
(`not_live_clear`).
-/

import Mathlib.Algebra.GroupWithZero.Nat
import Mathlib.Algebra.Ring.Int.Defs
import Mathlib.Data.BitVec
import Mathlib.Logic.Function.Basic

namespace BoltsRebuilt
namespace Assets

/-- `Cell`. -/
structure Cell (V : Type) (w : ℕ := 32) where
  key : BitVec 64
  value : V
  generation : BitVec w

/-- `NativeAssetMappingTable`: `cells_`, `generation_` and `size_`. -/
structure MappingTable (V : Type) (w : ℕ := 32) where
  cells : ℕ → Cell V w
  generation : BitVec w
  size : ℕ

/-- `Lookup`. -/
structure Lookup (V : Type) (w : ℕ := 32) where
  value : Option V
  key : BitVec 64
  slot : ℕ
  generation : BitVec w

namespace MappingTable

variable {V : Type} {w : ℕ} (capacity probeLimit : ℕ)

/-- A table of default values. -/
def initial (v : V) : MappingTable V w := ⟨fun _ => ⟨0, v, 0⟩, 1, 0⟩

/-- `Bucket`; the capacity is a power of two. -/
def bucket (key : BitVec 64) : ℕ :=
  let key := (key ^^^ key >>> 30) * 0xbf58476d1ce4e5b9
  let key := (key ^^^ key >>> 27) * 0x94d049bb133111eb
  (key ^^^ key >>> 31).toNat % capacity

/-- The loop of `Find`, with the probes that are left. -/
def findFrom (t : MappingTable V w) (key : BitVec 64) : ℕ → ℕ → Lookup V w
  | 0, _ => ⟨none, key, capacity, t.generation⟩
  | probes + 1, slot =>
      let cell := t.cells slot
      if cell.generation ≠ t.generation then ⟨none, key, slot, t.generation⟩
      else if cell.key = key then ⟨some cell.value, key, slot, t.generation⟩
      else findFrom t key probes ((slot + 1) % capacity)

/-- `Find`. -/
def find (t : MappingTable V w) (key : BitVec 64) : Lookup V w :=
  t.findFrom capacity key probeLimit (bucket capacity key)

open Function in
/-- `Store`: whether the value was taken, and the table. -/
def store (t : MappingTable V w) (lookup : Lookup V w) (value : V) : Bool × MappingTable V w :=
  if capacity ≤ lookup.slot ∨ lookup.generation ≠ t.generation then (false, t)
  else
    let cell := t.cells lookup.slot
    if cell.generation = t.generation ∧ cell.key ≠ lookup.key then (false, t)
    else
      (true,
        { t with
          cells := update t.cells lookup.slot ⟨lookup.key, value, t.generation⟩
          size := if cell.generation ≠ t.generation then t.size + 1 else t.size })

/-- `Clear`: whether the generation wrapped, and the table. -/
def clear (t : MappingTable V w) : Bool × MappingTable V w :=
  if t.generation + 1 ≠ 0 then (false, { t with generation := t.generation + 1, size := 0 })
  else
    (true,
      { cells := fun i => if i < capacity then { t.cells i with generation := 0 } else t.cells i
        generation := 1
        size := 0 })

/-- A value of the current generation, under its key. -/
def Live (t : MappingTable V w) (key : BitVec 64) (value : V) : Prop :=
  ∃ slot < capacity, t.cells slot = ⟨key, value, t.generation⟩

/-- No cell is ahead of the table, and zero is nobody's generation. -/
structure WellFormed (t : MappingTable V w) : Prop where
  started : t.generation ≠ 0
  tags : ∀ slot < capacity, (t.cells slot).generation.toNat ≤ t.generation.toNat

variable {capacity probeLimit} {t : MappingTable V w} {lookup : Lookup V w} {key : BitVec 64}
  {v v' : V}

/-- The first generation is not the one of empty cells. -/
theorem one_ne_zero (hw : 0 < w) : (1 : BitVec w) ≠ 0 := by
  have hone : (1 : BitVec w).toNat = 1 := Nat.mod_eq_of_lt (Nat.one_lt_two_pow (by omega))
  intro h
  rw [h] at hone
  exact absurd hone (by simp)

/-- An empty table is well formed: its generation is the first, and every cell is of the generation
before. -/
theorem wellFormed_initial (hw : 0 < w) : (initial v : MappingTable V w).WellFormed capacity where
  started := one_ne_zero hw
  tags := fun _ _ => Nat.zero_le _

/-- An empty table holds no key, whatever its cells were filled with. -/
theorem not_live_initial (hw : 0 < w) : ¬(initial v : MappingTable V w).Live capacity key v' := by
  rintro ⟨slot, -, hcell⟩
  exact one_ne_zero hw (congrArg Cell.generation hcell).symm

/-- A value that a lookup finds is live: it stands under the key that was asked for, in the current
generation. -/
theorem live_of_findFrom {probes slot : ℕ} (hslot : slot < capacity)
    (h : (t.findFrom capacity key probes slot).value = some v) : t.Live capacity key v := by
  induction probes generalizing slot with
  | zero => exact absurd h nofun
  | succ probes ih =>
      rw [findFrom] at h
      split at h
      next => exact absurd h nofun
      next htag =>
        split at h
        next hkey =>
          refine ⟨slot, hslot, ?_⟩
          have hvalue : (t.cells slot).value = v := Option.some.inj h
          rw [not_not] at htag
          rw [← hkey, ← hvalue, ← htag]
        next => exact ih (Nat.mod_lt _ (by omega)) h

/-- A key's bucket is a slot of the table. -/
theorem bucket_lt (hc : 0 < capacity) : bucket capacity key < capacity := Nat.mod_lt _ hc

/-- What a lookup returns was stored under its key in this generation. -/
theorem live_of_find (hc : 0 < capacity) (h : (t.find capacity probeLimit key).value = some v) :
    t.Live capacity key v :=
  live_of_findFrom (bucket_lt hc) h

/-- A lookup remembers the key it was made for. -/
theorem find_key : (t.find capacity probeLimit key).key = key := by
  rw [find]
  generalize bucket capacity key = slot
  induction probeLimit generalizing slot with
  | zero => rfl
  | succ probes ih =>
      rw [findFrom]
      split
      · rfl
      · split
        · rfl
        · exact ih _

/-- A store adds its own value and nothing else. -/
theorem live_store (h : (t.store capacity lookup v).2.Live capacity key v') :
    t.Live capacity key v' ∨ key = lookup.key ∧ v' = v := by
  rw [store] at h
  dsimp only at h
  split at h
  · exact .inl h
  · split at h
    · exact .inl h
    · obtain ⟨slot, hslot, hcell⟩ := h
      dsimp only at hcell
      by_cases heq : slot = lookup.slot
      · rw [heq, Function.update_self] at hcell
        obtain ⟨rfl, rfl, -⟩ := Cell.mk.inj hcell
        exact .inr ⟨rfl, rfl⟩
      · rw [Function.update_of_ne heq] at hcell
        exact .inl ⟨slot, hslot, hcell⟩

/-- Storing keeps the table well formed, found or not. -/
theorem WellFormed.store (h : t.WellFormed capacity) : (t.store capacity lookup v).2.WellFormed capacity := by
  rw [MappingTable.store]
  dsimp only
  split
  · exact h
  · split
    · exact h
    · refine ⟨h.started, fun slot hslot => ?_⟩
      dsimp only
      by_cases heq : slot = lookup.slot
      · rw [heq, Function.update_self]
      · rw [Function.update_of_ne heq]
        exact h.tags slot hslot

/-- A generation that does not wrap to zero goes up by one. -/
theorem toNat_succ {x : BitVec w} (h : x + 1 ≠ 0) : (x + 1).toNat = x.toNat + 1 := by
  have hlt := x.isLt
  have hadd : (x + 1).toNat = (x.toNat + 1) % 2 ^ w := by
    rw [BitVec.toNat_add]
    show (x.toNat + 1 % 2 ^ w) % 2 ^ w = _
    rw [Nat.add_mod_mod]
  by_cases hx : x.toNat + 1 < 2 ^ w
  · rw [hadd]
    exact Nat.mod_eq_of_lt hx
  · refine absurd (BitVec.eq_of_toNat_eq ?_) h
    have htop : x.toNat + 1 = 2 ^ w := by omega
    rw [hadd, htop, Nat.mod_self]
    rfl

/-- Clearing keeps the table well formed, also where its generation wraps. -/
theorem WellFormed.clear (hw : 0 < w) (h : t.WellFormed capacity) : (t.clear capacity).2.WellFormed capacity := by
  rw [MappingTable.clear]
  split
  next hwrap =>
    refine ⟨hwrap, fun slot hslot => ?_⟩
    have := h.tags slot hslot
    dsimp only
    rw [toNat_succ hwrap]
    omega
  next =>
    refine ⟨one_ne_zero hw, fun slot hslot => ?_⟩
    dsimp only
    rw [if_pos hslot]
    exact Nat.zero_le _

/-- A new generation starts empty, whether the number wraps or not. -/
theorem not_live_clear (hw : 0 < w) (h : t.WellFormed capacity) : ¬(t.clear capacity).2.Live capacity key v := by
  rintro ⟨slot, hslot, hcell⟩
  have htag := congrArg Cell.generation hcell
  rw [MappingTable.clear] at htag
  split at htag
  next hwrap =>
    have hle := h.tags slot hslot
    dsimp only at htag
    rw [htag, toNat_succ hwrap] at hle
    omega
  next =>
    dsimp only at htag
    rw [if_pos hslot] at htag
    exact one_ne_zero hw htag.symm

end MappingTable

end Assets
end BoltsRebuilt
