import CabOS.Library.LittleEndian
import CabOS.Memory.VirtualMemoryInv

/-!
# The configuration space of PCIe

The table `MCFG` lists ranges of buses, each with the physical address of its configuration space.
When the table is read, the space of each entry is mapped, one megabyte for a bus, and the entry
keeps the virtual address.  An access adds the number of the bus to that address, not the distance
from the first bus of the entry: only an entry that starts at bus zero is accessed inside of what
was mapped (`configSpace_access`, `configSpace_outside`).
-/

namespace CabOS

open VirtualMemoryEntryContainer VirtualMemoryAllocation PagingOptions SortedTree List Nat

/-- Map `size` bytes of a device.  Of the region only the virtual address is used. -/
def MmioRegion.new (size : ℕ) : EStateM String VirtualMemoryEntryContainer ℕ := do
  match ← VirtualMemoryAllocation.new none ((size + pageSize - 1) / pageSize * pageSize)
      (present ||| writable ||| deviceMemory) with
  | some vma => return vma.base
  | none => throw "failed to allocate virtual address range for MMIO"

/-- A range of buses. -/
structure McfgEntry where
  baseAddress : ℕ
  startBusNumber : UInt8
  endBusNumber : UInt8
  deriving DecidableEq

/-- The entry is about the bus. -/
def McfgEntry.Covers (e : McfgEntry) (bus : UInt8) : Prop :=
  e.startBusNumber ≤ bus ∧ bus ≤ e.endBusNumber
  deriving Decidable

namespace Mcfg

/-- Map the space of the entry at `current`, which then has the virtual address. -/
def mapEntry (mem : Memory) (current : ℕ) : EStateM String VirtualMemoryEntryContainer McfgEntry :=
  do
  let entry : McfgEntry := ⟨readLE mem current 8, mem (current + 10), mem (current + 11)⟩
  let numBuses := (entry.endBusNumber - entry.startBusNumber).toNat + 1
  let virtAddr ← MmioRegion.new (numBuses * 32 * 8 * 4096)
  return { entry with baseAddress := virtAddr }

/-- Map the spaces of `n` entries. -/
def mapEntries (mem : Memory) (current : ℕ) : ℕ →
    EStateM String VirtualMemoryEntryContainer (List McfgEntry)
  | 0 => pure []
  | n + 1 => do
    let entry ← mapEntry mem current
    let entries ← mapEntries mem (current + 16) n
    return entry :: entries

/-- The entries of the table at `addr`.  The header has 36 bytes, and eight more are reserved. -/
def fromAddr (mem : Memory) (addr : ℕ) :
    EStateM String VirtualMemoryEntryContainer (Option (List McfgEntry)) := do
  let length := readLE mem (addr + 4) 4
  if (range 4).map (fun i => mem (addr + i)) ≠ [0x4D, 0x43, 0x46, 0x47] then
    return none
  if ((range length).map fun i => mem (addr + i)).sum ≠ 0 then
    return none
  return some (← mapEntries mem (addr + 44) ((length - 44) / 16))

end Mcfg

namespace Pcie

variable (entries : List McfgEntry) (bus : UInt8) (device function offset : ℕ)

/-- Where an access to an entry goes. -/
def address (e : McfgEntry) : ℕ :=
  wadd (wadd (wadd (wadd e.baseAddress (bus.toNat <<< 20)) (device <<< 15)) (function <<< 12))
  offset

/-- The first entry for a bus. -/
def covering : Option McfgEntry := entries.find? (·.Covers bus)

/-- `read_config_space`, on the memory `io`. -/
def readConfigSpace (io : Memory) : Option ℕ :=
  (covering entries bus).map fun e => readLE io (address bus device function offset e) 4

/-- `write_config_space`, with the memory afterwards. -/
def writeConfigSpace (value : ℕ) (io : Memory) : Option Unit × Memory :=
  match covering entries bus with
  | some e => (some (), writeLE io (address bus device function offset e) 4 value)
  | none => (none, io)

end Pcie

namespace Mcfg

variable {mem : Memory} {current : ℕ} {c c' : VirtualMemoryEntryContainer} {e : McfgEntry}
  {es : List McfgEntry}

/-- The container has a range of one megabyte for each bus of the entry. -/
def Mapped (c : VirtualMemoryEntryContainer) (e : McfgEntry) : Prop :=
  ∃ v ∈ c.active, v.base = e.baseAddress ∧
  v.length = ((e.endBusNumber - e.startBusNumber).toNat + 1) * 2 ^ 20

/-- A mapping leaves the container intact and the other ranges in use. -/
lemma mapEntry_spec (h : c.Inv) (hmap : mapEntry mem current c = .ok e c') :
    c'.Inv ∧ Mapped c' e ∧ ∀ v ∈ c.active, v ∈ c'.active := by
  obtain ⟨r, s, hnew, hr⟩ := exec_bind_eq_ok.mp hmap
  cases hr
  obtain ⟨a, t, hvma, ha⟩ := exec_bind_eq_ok.mp hnew
  set k := (mem (current + 11) - mem (current + 10)).toNat + 1 with hk
  have hsize : (k * 32 * 8 * 4096 + pageSize - 1) / pageSize * pageSize = k * 2 ^ 20 := by
    rw [pageSize]
    omega
  have hpage : k * 2 ^ 20 % pageSize = 0 := by
    rw [pageSize]
    omega
  rw [hsize] at hvma
  have hfits : ∃ f ∈ c.free, k * 2 ^ 20 ≤ f.length := by
    cases hlb : c.free.lowerBound (toLex (k * 2 ^ 20, 0)) with
    | none => simp [-Nat.reducePow, VirtualMemoryAllocation.new, hpage, takeBestFit, hlb] at hvma
    | some f =>
      obtain ⟨hf, hkey, -⟩ := lowerBound_eq_some hlb
      rw [VirtualMemoryEntry.freeKey, Prod.Lex.toLex_le_toLex] at hkey
      simp only at hkey
      exact ⟨f, hf, by omega⟩
  obtain ⟨f, hf, hle, hok⟩ := h.new_eq hpage hfits (present ||| writable ||| deviceMemory)
  rw [hok] at hvma
  cases hvma
  cases ha
  exact ⟨h.place hf (by omega) hle _, ⟨_, mem_insert.mpr (.inl rfl), rfl, rfl⟩,
    fun v hv => mem_insert.mpr (.inr hv)⟩

/-- In the end the spaces of all entries are mapped. -/
lemma mapEntries_spec {n : ℕ} (h : c.Inv) (hmap : mapEntries mem current n c = .ok es c') :
    c'.Inv ∧ (∀ e ∈ es, Mapped c' e) ∧ ∀ v ∈ c.active, v ∈ c'.active := by
  induction n generalizing current c es with
  | zero =>
    cases hmap
    exact ⟨h, by simp, fun v hv => hv⟩
  | succ n ih =>
    obtain ⟨e, s, hentry, hrest⟩ := exec_bind_eq_ok.mp hmap
    obtain ⟨es', s', hentries, hcons⟩ := exec_bind_eq_ok.mp hrest
    cases hcons
    obtain ⟨hs, ⟨v, hv, hbase, hlen⟩, hkept⟩ := mapEntry_spec h hentry
    obtain ⟨hc', hmapped, hkept'⟩ := ih hs hentries
    refine ⟨hc', ?_, fun v hv => hkept' v (hkept v hv)⟩
    simp only [mem_cons, forall_eq_or_imp]
    exact ⟨⟨v, hkept' v hv, hbase, hlen⟩, hmapped⟩

/-- After a table was accepted, the space of each of its entries is mapped. -/
lemma fromAddr_spec {addr : ℕ} (h : c.Inv) (hfrom : fromAddr mem addr c = .ok (some es) c')
    (he : e ∈ es) : c'.Inv ∧ Mapped c' e := by
  unfold fromAddr at hfrom
  split_ifs at hfrom
  · cases hfrom
  · cases hfrom
  · obtain ⟨es', s, hes, heq⟩ := exec_bind_eq_ok.mp hfrom
    cases heq
    have hspec := mapEntries_spec h hes
    exact ⟨hspec.1, hspec.2.1 e he⟩

end Mcfg

namespace Pcie

open Mcfg

/-- The parts of an address do not overlap. -/
lemma or_eq_add {bus device function : ℕ} (hdevice : device < 32) (hfunction : function < 8) :
    bus <<< 20 ||| device <<< 15 ||| function <<< 12 =
      bus * 2 ^ 20 + (device * 2 ^ 15 + function * 2 ^ 12) := by
  have hlow : function <<< 12 < 2 ^ 15 := by rw [shiftLeft_eq]; omega
  rw [Nat.or_assoc, ← shiftLeft_add_eq_or_of_lt hlow, ← shiftLeft_add_eq_or_of_lt]
  · simp only [shiftLeft_eq]
  · simp only [shiftLeft_eq]
    omega

/-- The bytes at an address tell it from the others. -/
lemma eq_of_readLE {a b : ℕ} (h : ∀ io : Memory, readLE io a 4 = readLE io b 4) : a = b := by
  have hmark := h fun x => if x = a then 1 else 0
  by_contra hne
  simp [readLE, Ne.symm hne] at hmark
  omega

/-- A bus without an entry is not accessed.  Otherwise the first entry of the bus is, at the place
of the register in the space of the entry, which was mapped: this exactly if the entry starts at bus
zero. -/
theorem configSpace_access (mem : Memory) (addr : ℕ) (c c' : VirtualMemoryEntryContainer)
    (es : List McfgEntry) (bus : UInt8) (device function offset : ℕ) (h : c.Inv)
    (hfrom : fromAddr mem addr c = .ok (some es) c') (hdevice : device < 32)
    (hfunction : function < 8)
    (hoffset : offset < 4096) (halign : 4 ∣ offset) :
    (∀ io value, (readConfigSpace es bus device function offset io = none ↔
      ∀ e ∈ es, ¬ e.Covers bus) ∧
      ((writeConfigSpace es bus device function offset value io).1 = none ↔
        ∀ e ∈ es, ¬ e.Covers bus)) ∧
    ∀ e, es.find? (·.Covers bus) = some e → ((∃ a, a = e.baseAddress +
          ((bus - e.startBusNumber).toNat <<< 20 ||| device <<< 15 ||| function <<< 12) + offset ∧
        (∀ io, readConfigSpace es bus device function offset io = some (readLE io a 4)) ∧
        (∀ io value,
          writeConfigSpace es bus device function offset value io =
            (some (), writeLE io a 4 value)) ∧
        ∃ v ∈ c'.active, v.base = e.baseAddress ∧ a + 4 ≤ v.base + v.length) ↔
        e.startBusNumber = 0) := by
  have hnone : covering es bus = none ↔ ∀ e ∈ es, ¬ e.Covers bus := by simp [covering]
  refine ⟨fun io value => ⟨by rw [readConfigSpace, Option.map_eq_none_iff, hnone], ?_⟩,
    fun e he => ?_⟩
  · rw [← hnone, writeConfigSpace]
    cases covering es bus <;> simp
  obtain ⟨hc', v, hv, hbase, hlen⟩ := fromAddr_spec h hfrom (mem_of_find?_eq_some he)
  have hin := (hc'.active_in v hv).2.2
  have hhigh : c'.high < 2 ^ 64 := hc'.high_lt
  have hcovers : e.Covers bus := by simpa using find?_some he
  have hlow := UInt8.le_iff_toNat_le.mp hcovers.1
  have hbus := UInt8.le_iff_toNat_le.mp hcovers.2
  have hend := e.endBusNumber.toNat_lt
  rw [or_eq_add hdevice hfunction, UInt8.toNat_sub_of_le _ _ hcovers.1]
  have haddress : address bus device function offset e =
      (e.baseAddress + (bus.toNat * 2 ^ 20 + (device * 2 ^ 15 + function * 2 ^ 12)) + offset) %
        usizeBound := by
    simp only [address, wadd, shiftLeft_eq, mod_add_mod]
    congr 1
    omega
  refine ⟨fun ⟨a, ha, hread, _, v', hv', hbase', hfits⟩ => ?_, fun hstart => ?_⟩
  · -- the access goes to the absolute number of the bus, so the two addresses differ by the first
    -- bus
    have hin' := (hc'.active_in v' hv').2.2
    have heq : address bus device function offset e = a := by
      refine eq_of_readLE fun io => ?_
      have hio := hread io
      rw [readConfigSpace, covering, he, Option.map_some] at hio
      exact Option.some.inj hio
    have hzero : e.startBusNumber.toNat = 0 := by
      rw [haddress, ha, usizeBound] at heq
      omega
    exact UInt8.toNat_inj.mp hzero
  · have hzero : e.startBusNumber.toNat = 0 := by rw [hstart]; rfl
    rw [hstart, UInt8.sub_zero] at hlen
    rw [hzero, Nat.sub_zero]
    have hreg : address bus device function offset e =
        e.baseAddress + (bus.toNat * 2 ^ 20 + (device * 2 ^ 15 + function * 2 ^ 12)) + offset :=
      haddress.trans (mod_eq_of_lt (by rw [usizeBound]; omega))
    refine ⟨_, hreg, fun io => ?_, fun io value => ?_, v, hv, hbase, by omega⟩
    · rw [readConfigSpace, covering, he, Option.map_some]
    · rw [writeConfigSpace, covering, he]

/-- A table with one entry, for the buses from `first` to one. -/
def oneEntry (first : UInt8) : Memory := fun i =>
  [0x4D, 0x43, 0x46, 0x47, 60].getD i
  (if i = 54 then first else if i = 55 then 1 else if i = 36 then 166 - first else 0)

/-- The kernel has one gigabyte, and the table is about the buses zero and one. -/
theorem configSpace_access_last :
    ∃ es c', fromAddr (oneEntry 0) 0 (.new (2 ^ 30) (2 ^ 31)) = .ok (some es) c' ∧
    ∃ a, a = 2 ^ 30 + (1 <<< 20 ||| 31 <<< 15 ||| 7 <<< 12) + 4092 ∧
      readConfigSpace es 1 31 7 4092 (fun _ => 0) = some (readLE (fun _ => 0) a 4) ∧
      ∃ v ∈ c'.active, v.base = 2 ^ 30 ∧ a + 4 ≤ v.base + v.length := by
  have hfrom : fromAddr (oneEntry 0) 0 (.new (2 ^ 30) (2 ^ 31)) = .ok (some [⟨2 ^ 30, 0, 1⟩]) _ :=
    exec_of_returnedValue (by decide +kernel)
  obtain ⟨a, ha, hread, -, hv⟩ := ((configSpace_access _ 0 _ _ _ 1 31 7 4092
    (inv_new (by decide) (by decide)) hfrom (by decide) (by decide) (by decide) (by decide)).2
    _ rfl).mpr rfl
  exact ⟨_, _, hfrom, a, ha, hread _, hv⟩

/-- The table is about bus one only, so that one megabyte is mapped: the first register is looked
for behind it. -/
theorem configSpace_outside :
    ∃ es c', fromAddr (oneEntry 1) 0 (.new (2 ^ 30) (2 ^ 31)) = .ok (some es) c' ∧
    es.find? (·.Covers 1) = some ⟨2 ^ 30, 1, 1⟩ ∧
    c'.active.toList.map (fun v => (v.base, v.length)) = [(2 ^ 30, 2 ^ 20)] ∧
    readConfigSpace es 1 0 0 0 (fun a => if a = 2 ^ 30 + 2 ^ 20 then 1 else 0) = some 1 :=
  ⟨[⟨2 ^ 30, 1, 1⟩], _, exec_of_returnedValue (by decide +kernel),
    by decide +kernel, by decide +kernel,
    by decide +kernel⟩

end Pcie

end CabOS
