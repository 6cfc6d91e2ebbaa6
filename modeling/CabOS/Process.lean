import CabOS.Library.Run
import CabOS.Memory.UserVirtualMemory

/-!
# Processes and the system call that maps memory

`Process.sysMmap` checks the arguments that come from user space and maps memory in the address
space of the process.  The end of a fixed range is computed modulo `2 ^ 64`, and a range whose end
wraps can pass the check (`MmapArgs.Wraps`).  `Process.sysMmap_run_iff` says that the mappings and
the free ranges divide the user window along a run if and only if no call of the run does so.
-/

namespace CabOS

open VirtualMemory

variable {V : Type} {c : MmapArgs}

namespace ProtectionFlags

/-- Pages may be read. -/
def read : BitVec 32 := 0b0001#32

/-- Pages may be written. -/
def write : BitVec 32 := 0b0010#32

/-- Pages may be executed. -/
def execute : BitVec 32 := 0b0100#32

/-- All flags. -/
def all : BitVec 32 := read ||| write ||| execute

end ProtectionFlags

namespace MappingFlags

/-- Writes reach the backing. -/
def mapShared : BitVec 32 := 0b0001#32

/-- Writes stay in the process. -/
def mapPrivate : BitVec 32 := 0b0010#32

/-- The address is not a hint. -/
def mapFixed : BitVec 32 := 0b10000#32

/-- There is no file. -/
def mapAnonymous : BitVec 32 := 0b100000#32

/-- All flags. -/
def all : BitVec 32 := mapShared ||| mapPrivate ||| mapFixed ||| mapAnonymous

end MappingFlags

/-- Page attributes of protection flags. -/
def protToPageFlags (prot : BitVec 32) : PagingOptions :=
  (if hasFlags prot ProtectionFlags.write then PagingOptions.writable else 0) |||
    (if hasFlags prot ProtectionFlags.execute then PagingOptions.executable else 0)

/-- An open file. -/
structure File (V : Type) where
  /-- The file. -/
  vnode : V

/-- A process: its address space and its open files. -/
structure Process (V : Type) where
  /-- The address space. -/
  virtualMemory : VirtualMemory V
  /-- The open files by descriptor. -/
  fdTable : Int32 → Option (File V)

/-- The arguments of the system call. -/
structure MmapArgs where
  /-- The wanted address. -/
  addr : BitVec 64
  /-- The number of bytes. -/
  length : BitVec 64
  /-- The protection flags. -/
  prot : BitVec 32
  /-- The mapping flags. -/
  flags : BitVec 32
  /-- The descriptor of the file. -/
  fd : Int32
  /-- Where in the file the mapping starts. -/
  offset : BitVec 64

/-- A checked system call. -/
structure MmapRequest (V : Type) where
  /-- The file to map; anonymous memory has none. -/
  file : Option (FileMapping V)
  /-- The number of bytes. -/
  length : ℕ
  /-- The attributes of the pages. -/
  pageFlags : PagingOptions
  /-- Whether writes reach the backing. -/
  shared : Bool
  /-- The base, if it is fixed. -/
  addr : Option ℕ

/-- The value of a system call that failed. -/
def mmapFailed : BitVec 64 := -1#64

namespace MmapArgs

/-- The file that the flags and the descriptor name. -/
def mmapFile (c : MmapArgs) (fdTable : Int32 → Option (File V)) :
    Except (BitVec 64) (Option (FileMapping V)) :=
  if hasFlags c.flags MappingFlags.mapAnonymous then .ok none
  else
    match fdTable c.fd with
    | some file => .ok (some ⟨file.vnode, c.offset.toNat, none⟩)
    | none => .error mmapFailed

/-- The base that the flags and the address fix. -/
def fixedAddr (c : MmapArgs) : Option ℕ :=
  if hasFlags c.flags MappingFlags.mapFixed ∧ c.addr ≠ 0 then some c.addr.toNat else none

/-- Whether the mapping is shared; a call that does not say so returns zero. -/
def sharing (c : MmapArgs) : Except (BitVec 64) Bool :=
  if hasFlags c.flags MappingFlags.mapShared then .ok true
  else if hasFlags c.flags MappingFlags.mapPrivate then .ok false
  else .error 0

/-- The request a call makes, or the value it returns at once. -/
def request (c : MmapArgs) (fdTable : Int32 → Option (File V)) :
    Except (BitVec 64) (MmapRequest V) :=
  match fromBits ProtectionFlags.all c.prot with
  | none => .error mmapFailed
  | some protFlags =>
    match fromBits MappingFlags.all c.flags with
    | none => .error mmapFailed
    | some _ =>
      match c.mmapFile fdTable with
      | .error r => .error r
      | .ok file =>
        match c.sharing with
        | .error r => .error r
        | .ok shared =>
          .ok ⟨file, c.length.toNat, protToPageFlags protFlags, shared, c.fixedAddr⟩

end MmapArgs

namespace Process

/-- The process that starts with the given open files. -/
def new (fdTable : Int32 → Option (File V)) : Process V := ⟨VirtualMemory.new, fdTable⟩

variable [VNode V]

/-- The system call. -/
def sysMmap (c : MmapArgs) : EStateM (Fault String) (Process V) (BitVec 64) := fun p =>
  match c.request p.fdTable with
  | .error r => .ok r p
  | .ok rq =>
    match VirtualMemory.mmap rq.file rq.length rq.pageFlags rq.shared rq.addr p.virtualMemory with
    | .ok base vm => .ok (BitVec.ofNat 64 base) { p with virtualMemory := vm }
    | .error (.err _) vm => .ok mmapFailed { p with virtualMemory := vm }
    | .error .panic vm => .error .panic { p with virtualMemory := vm }

end Process

/-! ## Runs of system calls -/

/-- The call passes all checks of its arguments and asks for a fixed range whose end is at least
`2 ^ 64`, and the highest free range that starts at or below its address reaches the wrapped end. -/
def MmapArgs.Wraps [VNode V] (c : MmapArgs) (p : Process V) : Prop :=
  ∃ rq a, c.request p.fdTable = .ok rq ∧ rq.addr = some a ∧ usizeBound ≤ a + rq.length ∧
    (∃ backing, VirtualMemory.prepareBacking rq.file rq.length rq.shared = .ok backing) ∧
    ∃ f, p.virtualMemory.freeSet.baseSet.upperBound a = some f ∧
    a + rq.length - usizeBound ≤ f.base + f.length

/-- The length and the fixed base of a request are words. -/
lemma MmapArgs.request_bounds {fdTable : Int32 → Option (File V)}
    {rq : MmapRequest V} (h : c.request fdTable = .ok rq) :
    rq.length < usizeBound ∧ ∀ a, rq.addr = some a → a < usizeBound := by
  have hfields : rq.length = c.length.toNat ∧ rq.addr = c.fixedAddr := by
    unfold MmapArgs.request at h
    split at h
    · cases h
    · split at h
      · cases h
      · split at h
        · cases h
        · split at h
          · cases h
          · cases h
            exact ⟨rfl, rfl⟩
  rw [hfields.1, hfields.2]
  refine ⟨c.length.isLt, fun a ha => ?_⟩
  unfold fixedAddr at ha
  split_ifs at ha
  cases ha
  exact c.addr.isLt

namespace Process

variable [VNode V] {p : Process V}

/-- The process after a call. -/
def after (p : Process V) (c : MmapArgs) : Process V := finalState (sysMmap c) p

/-- The call returns, leaves the window divided, and changes nothing if it returns an error. -/
def Keeps (p : Process V) (c : MmapArgs) : Prop :=
  ∃ r, sysMmap c p = .ok r (p.after c) ∧ (p.after c).virtualMemory.Tiled ∧
  (r = mmapFailed ∨ r = 0 → p.after c = p)

section

variable (h : p.virtualMemory.Inv)
include h

/-- A call that changes nothing keeps the window divided. -/
lemma keeps_of_unchanged {r : BitVec 64} (e : sysMmap c p = .ok r p) :
    p.Keeps c ∧ (p.after c).virtualMemory.Inv := by
  have hafter : p.after c = p := finalState_of_ok e
  refine ⟨⟨r, ?_, ?_, fun _ => hafter⟩, ?_⟩
  · rw [hafter, e]
  · rw [hafter]
    exact h.toTiled
  · rwa [hafter]

/-- A call that maps a free range keeps the window divided and does not return an error value. -/
lemma keeps_of_mapIn {f : Free} {m : Mapping V} (hf : f ∈ p.virtualMemory.freeSet.baseSet)
    (hbase : f.base ≤ m.base)
    (hend : m.base + m.length ≤ f.base + f.length) (e : sysMmap c p = .ok (BitVec.ofNat 64 m.base)
      { p with virtualMemory := p.virtualMemory.mapIn f m }) :
    p.Keeps c ∧ (p.after c).virtualMemory.Inv := by
  have hafter : p.after c = { p with virtualMemory := p.virtualMemory.mapIn f m } :=
    finalState_of_ok e
  have hinv := h.mapIn hf hbase hend
  have hwin := h.free_inside hf
  have hbits : (BitVec.ofNat 64 m.base).toNat = m.base := by
    rw [BitVec.toNat_ofNat]
    refine Nat.mod_eq_of_lt ?_
    simp only [userspaceEnd] at hwin
    omega
  simp only [userspaceStart, userspaceEnd] at hwin
  refine ⟨⟨_, by rw [hafter, e], ?_, ?_⟩, ?_⟩
  · rw [hafter]
    exact hinv.toTiled
  · rintro (hr | hr)
    · rw [hr] at hbits
      have : mmapFailed.toNat = 2 ^ 64 - 1 := by decide
      omega
    · rw [hr] at hbits
      have : (0 : BitVec 64).toNat = 0 := by decide
      omega
  · rw [hafter]
    exact hinv

/-- Unless its end wraps past the checks, a call keeps the window divided. -/
lemma keeps_of_not_wraps (hc : ¬ c.Wraps p) : p.Keeps c ∧ (p.after c).virtualMemory.Inv := by
  cases hrq : c.request p.fdTable with
  | error r => exact keeps_of_unchanged h (r := r) (by simp only [sysMmap, hrq])
  | ok rq =>
    obtain ⟨hlen, haddr⟩ := MmapArgs.request_bounds hrq
    by_cases hb : ∀ a, rq.addr = some a → a + rq.length < usizeBound
    · rcases h.mmap_cases rq.file rq.length rq.pageFlags rq.shared hb with
        ⟨f, hf, -, m, hbase, hend, e, -⟩ | ⟨m, e⟩
      · exact keeps_of_mapIn h hf hbase hend (by simp only [sysMmap, hrq, e])
      · exact keeps_of_unchanged h (r := mmapFailed) (by simp only [sysMmap, hrq, e])
    · -- a fixed range with a wrapped end: it must have been refused
      push Not at hb
      obtain ⟨a, ha, hwrap⟩ := hb
      rcases h.mmap_wrapped rq.file rq.pageFlags rq.shared (haddr a ha) hlen hwrap with
        ⟨⟨hprep, hf⟩, -⟩ | ⟨-, m, e⟩
      · exact absurd ⟨rq, a, hrq, ha, hwrap, hprep, hf⟩ hc
      · exact keeps_of_unchanged h (r := mmapFailed) (by simp only [sysMmap, hrq, ha, e])

/-- A call whose end wraps past the checks enters a mapping that leaves the window. -/
lemma not_tiled_of_wraps (hc : c.Wraps p) : ¬ (p.after c).virtualMemory.Tiled := by
  obtain ⟨rq, a, hrq, ha, hwrap, hprep, hf⟩ := hc
  obtain ⟨hlen, haddr⟩ := MmapArgs.request_bounds hrq
  rcases h.mmap_wrapped rq.file rq.pageFlags rq.shared (haddr a ha) hlen hwrap with
    ⟨-, t, m, hm, hbase, hmlen, e⟩ | ⟨hno, -⟩
  · have hafter : p.after c = { p with virtualMemory := t } :=
      finalState_of_ok (a := BitVec.ofNat 64 a) (by simp only [sysMmap, hrq, ha, e])
    intro htiled
    rw [hafter] at htiled
    have hin := htiled.inside m hm
    rw [hbase, hmlen] at hin
    simp only [userspaceEnd] at hin
    simp only [usizeBound] at hwrap
    omega
  · exact absurd ⟨hprep, hf⟩ hno

end

/-- Along a run of system calls from a new process, every call keeps the window divided and failed
calls change nothing, if and only if no call asks for a fixed range whose wrapped end passes the
check. -/
theorem sysMmap_run_iff (fdTable : Int32 → Option (File V)) (calls : List MmapArgs) :
    (Process.new fdTable).virtualMemory.Tiled ∧ (AlongRun after Keeps (Process.new fdTable) calls ↔
        AlongRun after (fun p c => ¬ c.Wraps p) (Process.new fdTable) calls) := by
  have hnew : (Process.new fdTable).virtualMemory.Inv := VirtualMemory.inv_new
  refine ⟨hnew.toTiled, ?_⟩
  refine alongRun_congr (I := fun p => p.virtualMemory.Inv) ?_ ?_ hnew calls
  · intro p c h
    constructor
    · rintro ⟨r, -, htiled, -⟩ hwraps
      exact not_tiled_of_wraps h hwraps htiled
    · exact fun hc => (keeps_of_not_wraps h hc).1
  · exact fun p c h hc => (keeps_of_not_wraps h hc).2

/-- A new process that asks for two pages at the last page of the address space gets them, and the
mapping leaves the window. -/
theorem sysMmap_last_page : sysMmap ⟨0xFFFFFFFFFFFFF000#64, 8192#64, 3#32, 0x32#32, 0, 0#64⟩
        (Process.new fun _ => none : Process OrdinaryFile) =
      .ok 0xFFFFFFFFFFFFF000#64 ((Process.new fun _ => none : Process OrdinaryFile).after
        ⟨0xFFFFFFFFFFFFF000#64, 8192#64, 3#32, 0x32#32, 0, 0#64⟩) ∧
    ¬ AlongRun after Keeps (Process.new fun _ => none : Process OrdinaryFile)
      [⟨0xFFFFFFFFFFFFF000#64, 8192#64, 3#32, 0x32#32, 0, 0#64⟩] := by
  refine ⟨rfl, ?_⟩
  rintro ⟨⟨r, -, htiled, -⟩, -⟩
  refine not_tiled_of_wraps VirtualMemory.inv_new ?_ htiled
  refine ⟨⟨none, 8192, PagingOptions.writable, false, some 0xFFFFFFFFFFFFF000⟩, 0xFFFFFFFFFFFFF000,
    rfl, rfl, by decide, ⟨.anonymous, rfl⟩, ⟨userspaceStart, userspaceEnd - userspaceStart⟩, ?_, ?_⟩
  · rfl
  · decide

end Process

end CabOS
