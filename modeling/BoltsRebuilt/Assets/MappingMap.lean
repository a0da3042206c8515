/-
# The mapping table is a finite map

`src/gpu/native/native_asset_mapping_table.h`, all of it.

A lookup hands out a token: the cell it ended at.  The token may be stored with
much later, after other stores and after clears, so what makes a store safe is
not that the table still looks as it did.  Within a generation a cell that is
live stays live under its key, so the cells before the token's stay passed over
(`Token.store`); after a clear the token's generation is over, until the number
has gone round a full cycle.

`Chained` is the invariant of linear probing: every live cell stands on the probe
chain of its key, after live cells of other keys.  A key is then live at one place
at most, and there a lookup finds it (`find_value_iff`).

`mappingTable_exact`: over any run, a lookup returns the value of the last accepted
store of its key since the last clear.
-/

import BoltsRebuilt.Assets.MappingTable
import Mathlib.Algebra.Order.Group.Nat
import Mathlib.Data.Finset.Card

namespace BoltsRebuilt
namespace Assets
namespace MappingTable

variable {V : Type} {w : ℕ} (capacity probeLimit : ℕ)

/-- The cell a lookup of `key` comes to after `n` others. -/
def probe (key : BitVec 64) (n : ℕ) : ℕ := (bucket capacity key + n) % capacity

/-- The cell belongs to the current generation. -/
def Occupied (t : MappingTable V w) (slot : ℕ) : Prop := (t.cells slot).generation = t.generation

instance (t : MappingTable V w) : DecidablePred t.Occupied :=
  fun _ => inferInstanceAs (Decidable (_ = _))

/-- The first `n` cells of a chain are live under other keys. -/
def Passed (t : MappingTable V w) (key : BitVec 64) (n : ℕ) : Prop :=
  ∀ i < n, t.Occupied (probe capacity key i) ∧ (t.cells (probe capacity key i)).key ≠ key

/-- Every live cell is on the chain of its key, after live cells of other keys. -/
def Chained (t : MappingTable V w) : Prop :=
  ∀ slot < capacity, t.Occupied slot → ∃ n < probeLimit,
    probe capacity (t.cells slot).key n = slot ∧ t.Passed capacity (t.cells slot).key n

/-- A lookup that may be stored with in its own generation: none of the cells, or
one at the end of a chain that is passed over. -/
def Token (t : MappingTable V w) (lookup : Lookup V w) : Prop :=
  lookup.generation = t.generation ∧
    (lookup.slot < capacity → ∃ n < probeLimit, probe capacity lookup.key n = lookup.slot ∧
      t.Passed capacity lookup.key n)

variable {capacity probeLimit} {t : MappingTable V w} {lookup : Lookup V w} {key : BitVec 64}
  {value v : V}

/-- A probe looks inside the table. -/
theorem probe_lt (hc : 0 < capacity) (n : ℕ) : probe capacity key n < capacity := Nat.mod_lt _ hc

/-- One more probe looks at the next slot, around the end. -/
theorem probe_succ (n : ℕ) :
    (probe capacity key n + 1) % capacity = probe capacity key (n + 1) := by
  rw [probe, probe, Nat.mod_add_mod, Nat.add_assoc]

/-- The first probe looks at the key's own bucket. -/
theorem probe_zero : probe capacity key 0 = bucket capacity key := by
  rw [probe, Nat.add_zero]
  unfold bucket
  simp only [Nat.mod_mod]

/-! ### Lookup -/

/-- How the loop of `Find` ends, after `n` cells it passed over. -/
theorem findFrom_cases (probes n : ℕ) (hn : t.Passed capacity key n) :
    (t.findFrom capacity key probes (probe capacity key n) = ⟨none, key, capacity, t.generation⟩ ∧
      t.Passed capacity key (n + probes)) ∨
    ∃ m, n ≤ m ∧ m < n + probes ∧ t.Passed capacity key m ∧
      let slot := probe capacity key m
      (¬t.Occupied slot ∧
        t.findFrom capacity key probes (probe capacity key n) = ⟨none, key, slot, t.generation⟩) ∨
      (t.Occupied slot ∧ (t.cells slot).key = key ∧
        t.findFrom capacity key probes (probe capacity key n) =
          ⟨some (t.cells slot).value, key, slot, t.generation⟩) := by
  induction probes generalizing n with
  | zero => exact .inl ⟨rfl, hn⟩
  | succ probes ih =>
      rw [findFrom]
      dsimp only
      split
      next hstale =>
        exact .inr ⟨n, le_rfl, by omega, hn, .inl ⟨hstale, rfl⟩⟩
      next hlive =>
        rw [not_not] at hlive
        split
        next hkey => exact .inr ⟨n, le_rfl, by omega, hn, .inr ⟨hlive, hkey, rfl⟩⟩
        next hkey =>
          have hn' : t.Passed capacity key (n + 1) := by
            intro i hi
            rcases Nat.lt_succ_iff_lt_or_eq.1 hi with hi | rfl
            · exact hn i hi
            · exact ⟨hlive, hkey⟩
          rw [probe_succ]
          rcases ih (n + 1) hn' with ⟨hfind, hpassed⟩ | ⟨m, hle, hlt, hrest⟩
          · refine .inl ⟨hfind, ?_⟩
            rwa [show n + (probes + 1) = n + 1 + probes by omega]
          · exact .inr ⟨m, by omega, by omega, hrest⟩

/-- How `Find` ends: all probes passed cells of other keys, or one of them met the key itself or a
cell that is not of this generation. -/
theorem find_cases (t : MappingTable V w) (capacity probeLimit : ℕ) (key : BitVec 64) :
    (t.find capacity probeLimit key = ⟨none, key, capacity, t.generation⟩ ∧
      t.Passed capacity key probeLimit) ∨
    ∃ m < probeLimit, t.Passed capacity key m ∧
      let slot := probe capacity key m
      (¬t.Occupied slot ∧ t.find capacity probeLimit key = ⟨none, key, slot, t.generation⟩) ∨
      (t.Occupied slot ∧ (t.cells slot).key = key ∧
        t.find capacity probeLimit key = ⟨some (t.cells slot).value, key, slot, t.generation⟩) := by
  have hnone : t.Passed capacity key 0 := fun i hi => absurd hi (Nat.not_lt_zero i)
  have h := findFrom_cases probeLimit 0 hnone
  rw [probe_zero, Nat.zero_add] at h
  rcases h with h | ⟨m, -, hlt, hrest⟩
  · exact .inl h
  · exact .inr ⟨m, hlt, hrest⟩

/-- A lookup hands out a token. -/
theorem token_find : t.Token capacity probeLimit (t.find capacity probeLimit key) := by
  rcases find_cases t capacity probeLimit key with
    ⟨hfind, -⟩ | ⟨m, hm, hpassed, ⟨-, hfind⟩ | ⟨-, -, hfind⟩⟩
  · rw [hfind]
    exact ⟨rfl, fun hlt => absurd hlt (Nat.lt_irrefl _)⟩
  · rw [hfind]
    exact ⟨rfl, fun _ => ⟨m, hm, rfl, hpassed⟩⟩
  · rw [hfind]
    exact ⟨rfl, fun _ => ⟨m, hm, rfl, hpassed⟩⟩

/-- A key is live in one cell at most. -/
theorem Chained.unique (h : t.Chained capacity probeLimit) {i j : ℕ} (hi : i < capacity)
    (hj : j < capacity) (hoi : t.Occupied i) (hoj : t.Occupied j)
    (hkey : (t.cells i).key = (t.cells j).key) : i = j := by
  obtain ⟨n, -, hpi, hni⟩ := h i hi hoi
  obtain ⟨m, -, hpj, hmj⟩ := h j hj hoj
  rw [hkey] at hpi hni
  -- the chain of the key passes over the cell it comes to first
  rcases Nat.lt_trichotomy n m with hlt | rfl | hlt
  · refine absurd ?_ (hmj n hlt).2
    rw [hpi, hkey]
  · exact hpi.symm.trans hpj
  · refine absurd ?_ (hni m hlt).2
    rw [hpj]

/-- Where the cells are chained, a lookup finds what is live and nothing else. -/
theorem find_value_iff (hc : 0 < capacity) (h : t.Chained capacity probeLimit) :
    (t.find capacity probeLimit key).value = some v ↔ t.Live capacity key v := by
  refine ⟨live_of_find hc, fun ⟨slot, hslot, hcell⟩ => ?_⟩
  have hocc : t.Occupied slot := congrArg Cell.generation hcell
  have hkey : (t.cells slot).key = key := congrArg Cell.key hcell
  obtain ⟨n, hn, hprobe, hpassed⟩ := h slot hslot hocc
  rw [hkey] at hprobe hpassed
  rcases find_cases t capacity probeLimit key with
    ⟨-, hall⟩ | ⟨m, hm, hpm, ⟨hstale, -⟩ | ⟨hlive, hmkey, hfind⟩⟩
  · refine absurd ?_ (hall n hn).2
    rw [hprobe, hkey]
  · rcases Nat.lt_trichotomy n m with hlt | rfl | hlt
    · refine absurd ?_ (hpm n hlt).2
      rw [hprobe, hkey]
    · exact absurd (hprobe ▸ hocc) hstale
    · exact absurd (hpassed m hlt).1 hstale
  · have hsame : probe capacity key m = slot :=
      h.unique (probe_lt hc m) hslot hlive hocc (hmkey.trans hkey.symm)
    rw [hfind, hsame, hcell]

/-! ### Store -/

/-- The table with a value in a cell. -/
def put (t : MappingTable V w) (lookup : Lookup V w) (value : V) : MappingTable V w where
  cells := Function.update t.cells lookup.slot ⟨lookup.key, value, t.generation⟩
  generation := t.generation
  size := if t.Occupied lookup.slot then t.size else t.size + 1

/-- What a store does: it is refused and nothing changes, or the value is put in a
cell that is free or the key's. -/
theorem store_cases (t : MappingTable V w) (capacity : ℕ) (lookup : Lookup V w) (value : V) :
    (t.store capacity lookup value = (false, t) ∧
      (capacity ≤ lookup.slot ∨ lookup.generation ≠ t.generation ∨
        t.Occupied lookup.slot ∧ (t.cells lookup.slot).key ≠ lookup.key)) ∨
    (t.store capacity lookup value = (true, t.put lookup value) ∧ lookup.slot < capacity ∧
      lookup.generation = t.generation ∧
      (t.Occupied lookup.slot → (t.cells lookup.slot).key = lookup.key)) := by
  rw [store]
  dsimp only
  split
  next hbad => exact .inl ⟨rfl, hbad.imp_right .inl⟩
  next hgood =>
    rw [not_or, not_le, not_not] at hgood
    split
    next htaken => exact .inl ⟨rfl, .inr (.inr htaken)⟩
    next hfree =>
      refine .inr ⟨?_, hgood.1, hgood.2, fun hocc => ?_⟩
      · rw [put]
        simp only [Occupied, ne_eq, ite_not]
        rfl
      · by_contra hkey
        exact hfree ⟨hocc, hkey⟩

section Put

variable (hfree : t.Occupied lookup.slot → (t.cells lookup.slot).key = lookup.key)

/-- The slot that was found takes the key, the value and the current generation. -/
theorem put_cells_self : (t.put lookup value).cells lookup.slot = ⟨lookup.key, value, t.generation⟩ :=
  Function.update_self ..

/-- Every other slot is as before. -/
theorem put_cells_of_ne {slot : ℕ} (h : slot ≠ lookup.slot) :
    (t.put lookup value).cells slot = t.cells slot :=
  Function.update_of_ne h ..

/-- Occupied after a put are that slot and those occupied before. -/
theorem occupied_put {slot : ℕ} :
    (t.put lookup value).Occupied slot ↔ slot = lookup.slot ∨ t.Occupied slot := by
  by_cases h : slot = lookup.slot
  · rw [h, Occupied, put_cells_self]
    exact ⟨fun _ => .inl rfl, fun _ => rfl⟩
  · rw [Occupied, put_cells_of_ne h]
    exact ⟨.inr, fun hor => hor.resolve_left h⟩

include hfree

/-- A live cell stays live under its key when another entry is stored, since a store fills an empty
cell or the key's own. -/
theorem put_key {slot : ℕ} (h : t.Occupied slot) :
    ((t.put lookup value).cells slot).key = (t.cells slot).key := by
  by_cases hslot : slot = lookup.slot
  · rw [hslot, put_cells_self, hfree (hslot ▸ h)]
  · rw [put_cells_of_ne hslot]

/-- Slots that were passed stay passed, since a put empties none. -/
theorem Passed.put {n : ℕ} (h : t.Passed capacity key n) :
    (t.put lookup value).Passed capacity key n := by
  intro i hi
  obtain ⟨hocc, hkey⟩ := h i hi
  exact ⟨occupied_put.2 (.inr hocc), (put_key hfree hocc).symm ▸ hkey⟩

/-- Tokens handed out before a store stay tokens. -/
theorem Token.put {other : Lookup V w} (h : t.Token capacity probeLimit other) :
    (t.put lookup value).Token capacity probeLimit other := by
  refine ⟨h.1, fun hlt => ?_⟩
  obtain ⟨n, hn, hprobe, hpassed⟩ := h.2 hlt
  exact ⟨n, hn, hprobe, hpassed.put hfree⟩

/-- A store with a token keeps the cells chained. -/
theorem Chained.put (h : t.Chained capacity probeLimit) (htoken : t.Token capacity probeLimit lookup) :
    (t.put lookup value).Chained capacity probeLimit := by
  intro slot hslot hocc
  by_cases heq : slot = lookup.slot
  · subst heq
    obtain ⟨n, hn, hprobe, hpassed⟩ := htoken.2 hslot
    rw [put_cells_self]
    exact ⟨n, hn, hprobe, hpassed.put hfree⟩
  · have hold : t.Occupied slot := (occupied_put.1 hocc).resolve_left heq
    obtain ⟨n, hn, hprobe, hpassed⟩ := h slot hslot hold
    rw [put_cells_of_ne heq]
    exact ⟨n, hn, hprobe, hpassed.put hfree⟩

/-- After a store its key has its value, and the other keys what they had. -/
theorem live_put (hchained : t.Chained capacity probeLimit)
    (htoken : t.Token capacity probeLimit lookup) (hslot : lookup.slot < capacity) :
    (t.put lookup value).Live capacity key v ↔
      if key = lookup.key then v = value else t.Live capacity key v := by
  have hself : (t.put lookup value).Live capacity lookup.key value :=
    ⟨lookup.slot, hslot, put_cells_self⟩
  split
  next hkey =>
    subst hkey
    refine ⟨fun hlive => ?_, fun he => he ▸ hself⟩
    obtain ⟨i, hi, hcelli⟩ := hlive
    obtain ⟨j, hj, hcellj⟩ := hself
    have hij : i = j := (hchained.put hfree htoken).unique hi hj (congrArg Cell.generation hcelli)
      (congrArg Cell.generation hcellj) (by rw [hcelli, hcellj])
    rw [hij, hcellj] at hcelli
    exact (congrArg Cell.value hcelli).symm
  next hkey =>
    constructor
    · rintro ⟨slot, hlt, hcell⟩
      have hne : slot ≠ lookup.slot := by
        rintro rfl
        rw [put_cells_self] at hcell
        exact hkey (congrArg Cell.key hcell).symm
      rw [put_cells_of_ne hne] at hcell
      exact ⟨slot, hlt, hcell⟩
    · rintro ⟨slot, hlt, hcell⟩
      have hne : slot ≠ lookup.slot := by
        rintro rfl
        have := hfree (congrArg Cell.generation hcell)
        rw [hcell] at this
        exact hkey this
      exact ⟨slot, hlt, by rw [put_cells_of_ne hne, hcell]; rfl⟩

end Put

/-- The number of live cells. -/
def occupiedCells (t : MappingTable V w) (capacity : ℕ) : Finset ℕ :=
  (Finset.range capacity).filter t.Occupied

/-- As a set of slots, they grow by the one that was found. -/
theorem occupiedCells_put (hslot : lookup.slot < capacity) :
    (t.put lookup value).occupiedCells capacity =
      insert lookup.slot (t.occupiedCells capacity) := by
  ext slot
  simp only [occupiedCells, Finset.mem_filter, Finset.mem_range, Finset.mem_insert, occupied_put]
  constructor
  · rintro ⟨hlt, rfl | hocc⟩
    · exact .inl rfl
    · exact .inr ⟨hlt, hocc⟩
  · rintro (rfl | ⟨hlt, hocc⟩)
    · exact ⟨hslot, .inl rfl⟩
    · exact ⟨hlt, .inr hocc⟩

/-- So the count that the table keeps stays the number of its occupied cells. -/
theorem size_put (hslot : lookup.slot < capacity) (h : t.size = (t.occupiedCells capacity).card) :
    (t.put lookup value).size = ((t.put lookup value).occupiedCells capacity).card := by
  have hmem : lookup.slot ∈ t.occupiedCells capacity ↔ t.Occupied lookup.slot := by
    simp [occupiedCells, hslot]
  rw [occupiedCells_put hslot, put]
  dsimp only
  split
  next hocc => rw [Finset.insert_eq_of_mem (hmem.2 hocc), h]
  next hocc => rw [Finset.card_insert_of_notMem fun hin => hocc (hmem.1 hin), h]

/-! ### Clear -/

/-- After a clear no cell is live. -/
theorem not_occupied_clear (hw : 0 < w) (h : t.WellFormed capacity) {slot : ℕ}
    (hslot : slot < capacity) : ¬(t.clear capacity).2.Occupied slot := by
  intro hocc
  have hlive : (t.clear capacity).2.Live capacity ((t.clear capacity).2.cells slot).key
      ((t.clear capacity).2.cells slot).value := by
    refine ⟨slot, hslot, ?_⟩
    rw [← hocc]
  exact not_live_clear hw h hlive

/-- The number of a generation, counted from zero, goes up by one with each clear and comes round
after `2 ^ w - 1` of them; zero itself is never used. -/
theorem clear_generation (hw : 1 < w) (h : t.generation ≠ 0) :
    ((t.clear capacity).2.generation.toNat - 1) =
        (t.generation.toNat - 1 + 1) % (2 ^ w - 1) ∧
      (t.clear capacity).2.generation ≠ 0 := by
  have hlt := t.generation.isLt
  have hpos : 0 < t.generation.toNat :=
    Nat.pos_of_ne_zero fun he => h (BitVec.eq_of_toNat_eq he)
  have hcycle : 2 ^ 2 ≤ 2 ^ w := Nat.pow_le_pow_right (by decide) hw
  rw [clear]
  split
  next hnext =>
    have hsucc := toNat_succ hnext
    have hlt' := (t.generation + 1).isLt
    refine ⟨?_, hnext⟩
    show (t.generation + 1).toNat - 1 = _
    rw [hsucc, Nat.mod_eq_of_lt (by omega)]
    omega
  next hnext =>
    rw [not_not] at hnext
    have htop : t.generation.toNat + 1 = 2 ^ w := by
      by_contra hne
      have hadd : (t.generation + 1).toNat = t.generation.toNat + 1 := by
        rw [BitVec.toNat_add]
        show (t.generation.toNat + 1 % 2 ^ w) % 2 ^ w = _
        rw [Nat.add_mod_mod, Nat.mod_eq_of_lt (by omega)]
      rw [hnext] at hadd
      simp at hadd
    refine ⟨?_, one_ne_zero (by omega)⟩
    have hone : (1 : BitVec w).toNat = 1 := Nat.mod_eq_of_lt (show 1 < 2 ^ w by omega)
    show (1 : BitVec w).toNat - 1 = _
    rw [hone, show t.generation.toNat - 1 + 1 = 2 ^ w - 1 by omega, Nat.mod_self]

/-! ### Runs -/

/-- A table and the lookups handed out, each with the number of clears since. -/
structure Session (V : Type) (w : ℕ) where
  table : MappingTable V w
  lookups : List (Lookup V w × ℕ) := []

/-- A call and what it returned. -/
inductive Event (V : Type)
  | found (key : BitVec 64) (value : Option V)
  | stored (key : BitVec 64) (value : V) (accepted : Bool)
  | cleared

variable (capacity probeLimit) in
/-- One call.  A store takes any lookup handed out since fewer clears than a full
cycle of generations. -/
inductive Session.Step : Session V w → Event V → Session V w → Prop
  | find (s : Session V w) (key : BitVec 64) :
      Step s (.found key (s.table.find capacity probeLimit key).value)
        { s with lookups := (s.table.find capacity probeLimit key, 0) :: s.lookups }
  | store (s : Session V w) (lookup : Lookup V w) (clears : ℕ) (value : V)
      (hlookup : (lookup, clears) ∈ s.lookups) (hcycle : clears < 2 ^ w - 1) :
      Step s (.stored lookup.key value (s.table.store capacity lookup value).1)
        { s with table := (s.table.store capacity lookup value).2 }
  | clear (s : Session V w) :
      Step s .cleared
        { table := (s.table.clear capacity).2
          lookups := s.lookups.map fun l => (l.1, l.2 + 1) }

variable (capacity probeLimit) in
/-- The calls so far, last call first. -/
inductive Session.Runs (s₀ : Session V w) : List (Event V) → Session V w → Prop
  | nil : Runs s₀ [] s₀
  | cons {events : List (Event V)} {s s' : Session V w} {event : Event V}
      (hrun : Runs s₀ events s) (hstep : Session.Step capacity probeLimit s event s') :
      Runs s₀ (event :: events) s'

/-- The value of the last accepted store of a key since the last clear; the last
call comes first. -/
def lastStored (key : BitVec 64) : List (Event V) → Option V
  | [] => none
  | .cleared :: _ => none
  | .stored key' value true :: events => if key = key' then some value else lastStored key events
  | _ :: events => lastStored key events

variable (capacity probeLimit) in
/-- What holds between calls. -/
structure Session.Inv (s : Session V w) (events : List (Event V)) : Prop where
  wellFormed : s.table.WellFormed capacity
  chained : s.table.Chained capacity probeLimit
  contents : ∀ key value, s.table.Live capacity key value ↔ lastStored key events = some value
  size : s.table.size = (s.table.occupiedCells capacity).card
  tokens : ∀ lookup, (lookup, 0) ∈ s.lookups → s.table.Token capacity probeLimit lookup
  generations : ∀ lookup clears, (lookup, clears) ∈ s.lookups →
    s.table.generation.toNat - 1 = (lookup.generation.toNat - 1 + clears) % (2 ^ w - 1) ∧
      lookup.generation ≠ 0

/-- A session starts with an empty table, and no token has been handed out. -/
theorem Session.Inv.start (hw : 0 < w) (v : V) :
    Session.Inv capacity probeLimit { table := (initial v : MappingTable V w) } [] where
  wellFormed := wellFormed_initial hw
  chained := fun _ _ hocc => absurd hocc.symm (one_ne_zero hw)
  contents := fun _ _ => ⟨fun h => absurd h (not_live_initial hw), nofun⟩
  size := by
    symm
    rw [initial, Finset.card_eq_zero, occupiedCells, Finset.filter_eq_empty_iff]
    exact fun _ _ hocc => one_ne_zero hw hocc.symm
  tokens := nofun
  generations := nofun

/-- A lookup from an earlier generation is out of date for less than a cycle. -/
theorem Session.Inv.generation_eq_iff {s : Session V w} {events : List (Event V)}
    (h : s.Inv capacity probeLimit events) {clears : ℕ} (hlookup : (lookup, clears) ∈ s.lookups)
    (hcycle : clears < 2 ^ w - 1) : lookup.generation = s.table.generation ↔ clears = 0 := by
  obtain ⟨hgen, hne⟩ := h.generations lookup clears hlookup
  have hlt := lookup.generation.isLt
  have hpos : 0 < lookup.generation.toNat :=
    Nat.pos_of_ne_zero fun he => hne (BitVec.eq_of_toNat_eq he)
  have hpos' : 0 < s.table.generation.toNat :=
    Nat.pos_of_ne_zero fun he => h.wellFormed.started (BitVec.eq_of_toNat_eq he)
  constructor
  · intro he
    rw [← he] at hgen
    -- going on by fewer than a cycle comes back to the same number only at once
    by_cases hwrap : lookup.generation.toNat - 1 + clears < 2 ^ w - 1
    · rw [Nat.mod_eq_of_lt hwrap] at hgen
      omega
    · rw [Nat.mod_eq_sub_mod (by omega), Nat.mod_eq_of_lt (by omega)] at hgen
      omega
  · rintro rfl
    rw [Nat.add_zero, Nat.mod_eq_of_lt (by omega)] at hgen
    exact BitVec.eq_of_toNat_eq (by omega)

/-- **One call.**  What a call returns is right, and the invariant stays. -/
theorem Session.Inv.step (hw : 1 < w) (hc : 0 < capacity) {s s' : Session V w}
    {events : List (Event V)} {event : Event V} (h : s.Inv capacity probeLimit events)
    (hstep : Session.Step capacity probeLimit s event s') :
    s'.Inv capacity probeLimit (event :: events) ∧
      ∀ key value, event = .found key value → value = lastStored key events := by
  cases hstep with
  | find key =>
      refine ⟨{ h with tokens := fun lookup hl => ?_, generations := fun lookup clears hl => ?_ }, ?_⟩
      · rcases List.mem_cons.1 hl with hl | hl
        · obtain ⟨rfl, -⟩ := Prod.mk.inj hl
          exact token_find
        · exact h.tokens lookup hl
      · rcases List.mem_cons.1 hl with hl | hl
        · obtain ⟨rfl, rfl⟩ := Prod.mk.inj hl
          have hlt := s.table.generation.isLt
          have hpos : s.table.generation.toNat ≠ 0 := fun he =>
            h.wellFormed.started (BitVec.eq_of_toNat_eq he)
          have hgen : (s.table.find capacity probeLimit key).generation = s.table.generation :=
            token_find.1
          rw [hgen, Nat.add_zero,
            Nat.mod_eq_of_lt (show s.table.generation.toNat - 1 < 2 ^ w - 1 by omega)]
          exact ⟨rfl, h.wellFormed.started⟩
        · exact h.generations lookup clears hl
      · rintro key' value he
        obtain ⟨rfl, rfl⟩ := Event.found.inj he
        refine Option.ext fun v => ?_
        rw [find_value_iff hc h.chained, h.contents]
  | store lookup clears value hlookup hcycle =>
      rcases store_cases s.table capacity lookup value with ⟨hst, -⟩ | ⟨hst, hslot, hgen, hfree⟩
      · rw [hst]
        exact ⟨{ h with }, nofun⟩
      · rw [hst]
        obtain rfl : clears = 0 := (h.generation_eq_iff hlookup hcycle).1 hgen
        have htoken := h.tokens lookup hlookup
        have hwf : (s.table.put lookup value).WellFormed capacity := by
          have hstored : (s.table.store capacity lookup value).2.WellFormed capacity :=
            h.wellFormed.store
          rwa [hst] at hstored
        refine ⟨{ h with
          wellFormed := hwf
          chained := h.chained.put hfree htoken
          contents := fun key v => ?_
          size := size_put hslot h.size
          tokens := fun other hl => (h.tokens other hl).put hfree }, nofun⟩
        rw [live_put hfree h.chained htoken hslot, lastStored]
        split
        next => exact ⟨fun he => he ▸ rfl, fun he => (Option.some.inj he).symm⟩
        next => exact h.contents key v
  | clear =>
      have hnone : ∀ slot < capacity, ¬(s.table.clear capacity).2.Occupied slot :=
        fun slot => not_occupied_clear (by omega) h.wellFormed
      refine ⟨{
        wellFormed := h.wellFormed.clear (by omega)
        chained := fun slot hslot hocc => absurd hocc (hnone slot hslot)
        contents := fun _ _ => ⟨fun hl => absurd hl (not_live_clear (by omega) h.wellFormed), nofun⟩
        size := ?_
        tokens := fun lookup hl => ?_
        generations := fun lookup clears hl => ?_ }, nofun⟩
      · have hsize : (s.table.clear capacity).2.size = 0 := by
          rw [MappingTable.clear]
          split <;> rfl
        symm
        rw [hsize, Finset.card_eq_zero, occupiedCells, Finset.filter_eq_empty_iff]
        exact fun slot hslot => hnone slot (Finset.mem_range.1 hslot)
      · obtain ⟨l, -, he⟩ := List.mem_map.1 hl
        exact absurd (congrArg Prod.snd he) (Nat.succ_ne_zero _)
      · obtain ⟨⟨l, n⟩, hmem, he⟩ := List.mem_map.1 hl
        obtain ⟨rfl, rfl⟩ := Prod.mk.inj he
        obtain ⟨hgen, hne⟩ := h.generations l n hmem
        rw [(clear_generation hw h.wellFormed.started).1, hgen, Nat.mod_add_mod, Nat.add_assoc]
        exact ⟨rfl, hne⟩

/-- Every run of a session keeps the table's account, by induction on its events. -/
theorem Session.Runs.inv (hw : 1 < w) (hc : 0 < capacity) {v : V} {s : Session V w}
    {events : List (Event V)}
    (h : Session.Runs capacity probeLimit { table := initial v } events s) :
    s.Inv capacity probeLimit events := by
  induction h with
  | nil => exact .start (by omega) v
  | cons _ hstep ih => exact (ih.step hw hc hstep).1

/-- A run can be cut at any of its calls, into the run that leads to the call and the one that
follows it. -/
theorem Session.Runs.before {s₀ s : Session V w} {after before : List (Event V)} {event : Event V}
    (h : Session.Runs capacity probeLimit s₀ (after ++ event :: before) s) :
    ∃ s₁ s₂, Session.Runs capacity probeLimit s₀ before s₁ ∧
      Session.Step capacity probeLimit s₁ event s₂ := by
  induction after generalizing s with
  | nil =>
      cases h with
      | cons hrun hstep => exact ⟨_, _, hrun, hstep⟩
  | cons e after ih =>
      cases h with
      | cons hrun hstep => exact ih hrun

/-- **The mapping table is a finite map.**  In every run of lookups, stores and
clears, where a store may use any lookup handed out since fewer clears than a full
cycle of generations: each lookup returned the value of the last accepted store of
its key since the last clear before it, and nothing when there was none; so would
a lookup at the end; no key is live in two cells; the size is the number of live
cells; and a store is refused exactly when its lookup is from an earlier
generation, found no cell, or had its cell taken by another key since, in which
case the table stays as it is. -/
theorem mappingTable_exact (hw : 1 < w) (hc : 0 < capacity) (v : V) (s : Session V w)
    (events : List (Event V))
    (h : Session.Runs capacity probeLimit { table := initial v } events s) :
    (∀ after key value before, events = after ++ .found key value :: before →
        value = lastStored key before) ∧
      (∀ key, (s.table.find capacity probeLimit key).value = lastStored key events) ∧
      (∀ i < capacity, ∀ j < capacity, s.table.Occupied i → s.table.Occupied j →
        (s.table.cells i).key = (s.table.cells j).key → i = j) ∧
      s.table.size = (s.table.occupiedCells capacity).card ∧
      ∀ lookup clears value, (lookup, clears) ∈ s.lookups → clears < 2 ^ w - 1 →
        ((s.table.store capacity lookup value).1 = false ↔ clears ≠ 0 ∨ capacity ≤ lookup.slot ∨
          s.table.Occupied lookup.slot ∧ (s.table.cells lookup.slot).key ≠ lookup.key) ∧
        ((s.table.store capacity lookup value).1 = false →
          (s.table.store capacity lookup value).2 = s.table) := by
  have hinv := h.inv hw hc
  refine ⟨?_, fun key => ?_, fun i hi j hj => hinv.chained.unique hi hj, hinv.size, ?_⟩
  · rintro after key value before rfl
    obtain ⟨s₁, s₂, hrun, hstep⟩ := h.before
    exact ((hrun.inv hw hc).step hw hc hstep).2 key value rfl
  · refine Option.ext fun v => ?_
    rw [find_value_iff hc hinv.chained, hinv.contents]
  · intro lookup clears value hlookup hcycle
    have hgen := hinv.generation_eq_iff hlookup hcycle
    rcases store_cases s.table capacity lookup value with ⟨hst, hwhy⟩ | ⟨hst, hslot, hg, hfree⟩
    · rw [hst]
      refine ⟨⟨fun _ => ?_, fun _ => rfl⟩, fun _ => rfl⟩
      rcases hwhy with hwhy | hwhy | hwhy
      · exact .inr (.inl hwhy)
      · exact .inl fun he => hwhy (hgen.2 he)
      · exact .inr (.inr hwhy)
    · rw [hst]
      refine ⟨⟨nofun, fun hwhy => ?_⟩, nofun⟩
      rcases hwhy with hwhy | hwhy | ⟨hocc, hkey⟩
      · exact absurd (hgen.1 hg) hwhy
      · omega
      · exact absurd (hfree hocc) hkey

/-- The hypotheses are satisfiable: a lookup, a store with it, and a clear of a
table of eight cells, after which the stored value is gone. -/
theorem mappingTable_exact_cleared :
    let t : MappingTable ℕ 8 := initial 0
    let stored := (t.store 8 (t.find 8 3 5) 7).2
    (stored.find 8 3 5).value = some 7 ∧ ((stored.clear 8).2.find 8 3 5).value = none := by
  intro t stored
  have hfind : Session.Runs 8 3 { table := t } [.found 5 none]
      { table := t, lookups := [(t.find 8 3 5, 0)] } := .cons .nil (.find _ 5)
  have hstore : Session.Runs 8 3 { table := t } [.stored 5 7 true, .found 5 none]
      { table := stored, lookups := [(t.find 8 3 5, 0)] } :=
    .cons hfind (.store _ (t.find 8 3 5) 0 7 (by simp) (by decide))
  have hclear : Session.Runs 8 3 { table := t } [.cleared, .stored 5 7 true, .found 5 none]
      { table := (stored.clear 8).2, lookups := [(t.find 8 3 5, 1)] } := .cons hstore (.clear _)
  exact ⟨(mappingTable_exact (by decide) (by decide) 0 _ _ hstore).2.1 5,
    (mappingTable_exact (by decide) (by decide) 0 _ _ hclear).2.1 5⟩

end MappingTable
end Assets
end BoltsRebuilt
