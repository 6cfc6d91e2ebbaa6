import CabOS.Library.Triple
import CabOS.Memory.KernelCores
import CabOS.Process

/-!
# Copies between the kernel and a process

`SyscallState.copyToUser` and `SyscallState.copyFromUser` move bytes page by page.  They look an
address up in the page table of the process, call the page fault handler if it has no translation,
and then use the frame through the direct map of physical memory, whatever the page may be used for.
The handler serves addresses below `userspaceEnd` from the mappings of the process and the others
from the allocations of the kernel.

The log records which addresses are handed to the copies and to the handler; nothing reads it.
`SyscallState.Logs P x` says that `x` records only what `P` allows.
-/

namespace CabOS

open AArch64 List

namespace PageFaultConditions

/-- The access was a write. -/
def write : BitVec 64 := 1#64 <<< 1

/-- The access came from a user program. -/
def user : BitVec 64 := 1#64 <<< 2

end PageFaultConditions

/-- The addresses that the kernel hands to the functions that use the memory of a process. -/
inductive UserAccess where
  | copyToUser (dst : BitVec 64) (count : ℕ)
  | copyFromUser (src : BitVec 64) (count : ℕ)
  | handlePageFault (address : BitVec 64)
  deriving DecidableEq, Repr

variable {count : ℕ} {e : UserAccess}

namespace UserAccess

/-- The first address. -/
def address : UserAccess → BitVec 64
  | .copyToUser dst _ => dst
  | .copyFromUser src _ => src
  | .handlePageFault a => a

/-- The number of addresses. -/
def length : UserAccess → ℕ
  | .copyToUser _ count => count
  | .copyFromUser _ count => count
  | .handlePageFault _ => 1

/-- The addresses lie in `[start, start + count)`, or there are none and the interval is empty, too.
-/
def Within (start : BitVec 64) (count : ℕ) (e : UserAccess) : Prop :=
  start.toNat ≤ e.address.toNat ∧ e.address.toNat + e.length ≤ start.toNat + count ∧
    (0 < count → e.address.toNat < start.toNat + count)

/-- The first address and all others lie in `[start, start + count)`. -/
def Inside (start : BitVec 64) (count : ℕ) (e : UserAccess) : Prop :=
  start.toNat ≤ e.address.toNat ∧ e.address.toNat < start.toNat + count ∧
    e.address.toNat + e.length ≤ start.toNat + count

lemma Within.inside {start : BitVec 64} (h : e.Within start count) (hpos : 0 < count) :
    e.Inside start count :=
  ⟨h.1, h.2.2 hpos, h.2.1⟩

/-- A part of an interval. -/
lemma Within.mono {start start' : BitVec 64} {count' : ℕ} (h : e.Within start' count')
    (hpos : 0 < count') (hstart : start.toNat ≤ start'.toNat)
    (hend : start'.toNat + count' ≤ start.toNat + count) : e.Within start count :=
  ⟨hstart.trans h.1, h.2.1.trans hend, fun _ => (h.2.2 hpos).trans_le hend⟩

end UserAccess

/-- An open file with the position of the next access. -/
structure OpenFile (V : Type) extends File V where
  offset : ℕ

/-- What a system call of a process works on. -/
structure SyscallState (V : Type) where
  /-- The mappings of the process, its page table, the physical memory and the page cache. -/
  memory : FaultContext V
  fdTable : Int32 → Option (OpenFile V)
  /-- The page table of the kernel. -/
  kernelSpace : BitVec 64
  /-- The allocations of the kernel. -/
  vmes : VirtualMemoryEntryContainer
  /-- What has been printed. -/
  console : List UInt8
  /-- The addresses that have been handed on, the latest first. -/
  log : List UserAccess

namespace SyscallState

variable {V α β : Type}

/-- Run a computation on the memory of the process. -/
def onMemory (x : EStateM PageFaultError (FaultContext V) α) :
    EStateM PageFaultError (SyscallState V) α :=
  fun s =>
    match x s.memory with
    | .ok a c => .ok a { s with memory := c }
    | .error e c => .error e { s with memory := c }

/-- Record addresses that are handed on. -/
def note (e : UserAccess) : EStateM PageFaultError (SyscallState V) Unit :=
  modify fun s => { s with log := e :: s.log }

/-- Give a page of the kernel a frame. -/
def handleKernelPageFault (cause address : BitVec 64) :
    EStateM PageFaultError (SyscallState V) Unit := do
  if hasFlags cause PageFaultConditions.present then
    pure ()
  else
    let s ← get
    match s.vmes.active.upperBound address.toNat with
    | some below =>
      if wadd below.base below.length > address.toNat then
        let frame ← onMemory (FaultContext.onVmm frameAlloc)
        onMemory (FaultContext.onVmm
          (vmap s.kernelSpace (address &&& ~~~0xFFF#64) frame KernelCores.kernelPage))
      else
        throw .panic
    | none => throw .panic

/-- Write bytes to physical memory; they lie in one frame. -/
def storeBytes (paddr : BitVec 64) (bytes : List UInt8) :
    EStateM PageFaultError (SyscallState V) Unit := do
  let s ← get
  let frame := paddr &&& ~~~0xFFF#64
  let offset := paddr.toNat % pageSize
  onMemory (FaultContext.storePage frame fun k =>
    if offset ≤ k then (bytes[k - offset]?).getD (pageByte (s.memory.vmm.mem frame) k)
    else pageByte (s.memory.vmm.mem frame) k)

/-- Read bytes from physical memory; they lie in one frame. -/
def loadBytes (paddr : BitVec 64) (count : ℕ) :
    EStateM PageFaultError (SyscallState V) (List UInt8) := do
  let s ← get
  pure ((List.range count).map fun k =>
    pageByte (s.memory.vmm.mem (paddr &&& ~~~0xFFF#64)) (paddr.toNat % pageSize + k))

/-- How many of `count` bytes from an address on lie in its page. -/
def toCopy (a : BitVec 64) (count : ℕ) : ℕ := min (pageSize - a.toNat % pageSize) count

lemma toCopy_le (a : BitVec 64) (count : ℕ) : toCopy a count ≤ count := min_le_right _ _

section

variable [ReadableVNode V]

/-- Serve a page fault of a process. -/
def handlePageFault (cause address : BitVec 64) : EStateM PageFaultError (SyscallState V) Unit := do
  note (.handlePageFault address)
  if address.toNat < userspaceEnd then
    onMemory (FaultContext.handleUserPageFault cause address.toNat)
  else
    handleKernelPageFault cause address

/-- The physical address of an address of the process, which is given a frame if it has none. -/
def userPhysAddr (cause a : BitVec 64) : EStateM PageFaultError (SyscallState V) (BitVec 64) := do
  let s ← get
  if (getPhysAddr s.memory.vmm.mem a s.memory.pageTable).isNone then
    handlePageFault cause a
  let s ← get
  match getPhysAddr s.memory.vmm.mem a s.memory.pageTable with
  | some paddr => pure paddr
  | none => throw (.err "Failed to get physical address")

/-- The loop of `copyToUser`, with a bound on its rounds. -/
def copyToUserLoop : ℕ → BitVec 64 → List UInt8 → EStateM PageFaultError (SyscallState V) Unit
  | 0, _, _ => pure ()
  | fuel + 1, dst, bytes =>
    if bytes.isEmpty then
      pure ()
    else do
      let paddr ← userPhysAddr (PageFaultConditions.user ||| PageFaultConditions.write) dst
      storeBytes paddr (bytes.take (toCopy dst bytes.length))
      copyToUserLoop fuel (dst + BitVec.ofNat 64 (toCopy dst bytes.length))
        (bytes.drop (toCopy dst bytes.length))

/-- Copy bytes to an address of the process.  Every round copies a byte. -/
def copyToUser (dst : BitVec 64) (bytes : List UInt8) :
    EStateM PageFaultError (SyscallState V) Unit := do
  note (.copyToUser dst bytes.length)
  copyToUserLoop bytes.length dst bytes

/-- The loop of `copyFromUser`, with a bound on its rounds. -/
def copyFromUserLoop : ℕ → BitVec 64 → ℕ → EStateM PageFaultError (SyscallState V) (List UInt8)
  | 0, _, _ => pure []
  | fuel + 1, src, count =>
    if count = 0 then
      pure []
    else do
      let paddr ← userPhysAddr PageFaultConditions.user src
      let head ← loadBytes paddr (toCopy src count)
      let rest ← copyFromUserLoop fuel (src + BitVec.ofNat 64 (toCopy src count))
        (count - toCopy src count)
      pure (head ++ rest)

/-- Copy bytes from an address of the process.  Every round copies a byte. -/
def copyFromUser (src : BitVec 64) (count : ℕ) :
    EStateM PageFaultError (SyscallState V) (List UInt8) := do
  note (.copyFromUser src count)
  copyFromUserLoop count src count

end

/-! ## What is recorded -/

/-- Since the log was `l`, only events of `P` have been recorded. -/
def LogIn (P : UserAccess → Prop) (l : List UserAccess) (s : SyscallState V) : Prop :=
  ∃ es, s.log = es ++ l ∧ ∀ e ∈ es, P e

/-- The computation records only events of `P`, also if it fails. -/
def Logs (P : UserAccess → Prop) (x : EStateM PageFaultError (SyscallState V) α) : Prop :=
  ∀ l, Maintains (LogIn P l) x

variable {P : UserAccess → Prop} {x : EStateM PageFaultError (SyscallState V) α} (paddr : BitVec 64)

lemma Logs.finalState (h : Logs P x) (s : SyscallState V) :
    ∃ es, (finalState x s).log = es ++ s.log ∧ ∀ e ∈ es, P e :=
  (h s.log).finalState ⟨[], rfl, by simp⟩

lemma Logs.mono {Q : UserAccess → Prop} (h : Logs P x) (hPQ : ∀ e, P e → Q e) : Logs Q x := by
  refine fun l => Maintains.of_finalState fun s hs => ?_
  obtain ⟨es, hlog, hes⟩ := hs
  obtain ⟨es', hlog', hes'⟩ := h.finalState s
  refine ⟨es' ++ es, by rw [hlog', hlog, List.append_assoc], fun e he => ?_⟩
  rcases List.mem_append.mp he with he | he
  · exact hPQ e (hes' e he)
  · exact hes e he

lemma Logs.bind {f : α → EStateM PageFaultError (SyscallState V) β} (h : Logs P x)
    (hf : ∀ a, Logs P (f a)) : Logs P (x >>= f) :=
  fun l => (h l).bind fun a => hf a l

lemma logs_pure (a : α) : Logs P (pure a : EStateM PageFaultError (SyscallState V) α) :=
  fun _ => .pure a

lemma logs_throw (e : PageFaultError) :
    Logs P (throw e : EStateM PageFaultError (SyscallState V) α) :=
  fun _ => .throw e

lemma logs_get : Logs P (get : EStateM PageFaultError (SyscallState V) (SyscallState V)) :=
  fun _ => .get

lemma Logs.ite {y : EStateM PageFaultError (SyscallState V) α} {c : Prop} [Decidable c]
    (hx : c → Logs P x) (hy : ¬ c → Logs P y) : Logs P (if c then x else y) :=
  fun l => .ite (fun hc => hx hc l) fun hc => hy hc l

/-- A change of the state that leaves the log alone. -/
lemma logs_modify {f : SyscallState V → SyscallState V} (hf : ∀ s, (f s).log = s.log) :
    Logs P (modify f : EStateM PageFaultError (SyscallState V) PUnit) := by
  refine fun l => .modifyState fun s hs => ?_
  obtain ⟨es, hlog, hes⟩ := hs
  exact ⟨es, (hf s).trans hlog, hes⟩

/-- Work on the memory of the process records nothing. -/
lemma logs_onMemory (x : EStateM PageFaultError (FaultContext V) α) : Logs P (onMemory x) := by
  refine fun l => ⟨fun s hs => ?_⟩
  unfold onMemory
  cases x s.memory with
  | ok a c => exact hs
  | error e c => exact hs

lemma logs_note (he : P e) : Logs (V := V) P (note e) := by
  refine fun l => .modifyState fun s hs => ?_
  obtain ⟨es, hlog, hes⟩ := hs
  exact ⟨e :: es, congrArg (e :: ·) hlog, List.forall_mem_cons.mpr ⟨he, hes⟩⟩

lemma logs_storeBytes (bytes : List UInt8) : Logs (V := V) P (storeBytes paddr bytes) :=
  logs_get.bind fun _ => logs_onMemory _

lemma logs_loadBytes (count : ℕ) : Logs (V := V) P (loadBytes paddr count) :=
  logs_get.bind fun _ => logs_pure _

lemma logs_handleKernelPageFault (cause address : BitVec 64) :
    Logs (V := V) P (handleKernelPageFault cause address) := by
  refine Logs.ite (fun _ => logs_pure _) fun _ => logs_get.bind fun s => ?_
  cases s.vmes.active.upperBound address.toNat with
  | none => exact logs_throw _
  | some below =>
    exact Logs.ite (fun _ => (logs_onMemory _).bind fun _ => logs_onMemory _) fun _ => logs_throw _

variable [ReadableVNode V] {a : BitVec 64} {fuel : ℕ}

/-- The handler is the only one to be called for an address without a translation. -/
lemma logs_userPhysAddr {cause : BitVec 64} (h : P (.handlePageFault a)) :
    Logs (V := V) P (userPhysAddr cause a) := by
  have hfault : Logs (V := V) P (handlePageFault cause a) :=
    (logs_note h).bind fun _ =>
      Logs.ite (fun _ => logs_onMemory _) fun _ => logs_handleKernelPageFault cause a
  have hrest : Logs (V := V) P (do
      let s ← get
      match getPhysAddr s.memory.vmm.mem a s.memory.pageTable with
      | some paddr => pure paddr
      | none => throw (.err "Failed to get physical address")) := by
    refine logs_get.bind fun s => ?_
    cases getPhysAddr s.memory.vmm.mem a s.memory.pageTable with
    | some paddr => exact logs_pure _
    | none => exact logs_throw _
  exact logs_get.bind fun s => Logs.ite (fun _ => hfault.bind fun _ => hrest) fun _ => hrest

lemma within_handlePageFault (h : 0 < count) : (UserAccess.handlePageFault a).Within a count :=
  ⟨le_rfl, Nat.add_le_add_left h _, fun h => Nat.lt_add_of_pos_right h⟩

/-- The address after some bytes of an interval that does not wrap. -/
lemma toNat_add_ofNat {n : ℕ} (hend : a.toNat + n < 2 ^ 64) :
    (a + BitVec.ofNat 64 n).toNat = a.toNat + n := by
  have hn : n % 2 ^ 64 = n := Nat.mod_eq_of_lt (lt_of_le_of_lt (Nat.le_add_left n _) hend)
  rw [BitVec.toNat_add, BitVec.toNat_ofNat, hn, Nat.mod_eq_of_lt hend]

/-- The addresses of a copy are those of its bytes. -/
lemma logs_copyToUserLoop : ∀ {dst : BitVec 64}
    {bytes : List UInt8}, dst.toNat + bytes.length < 2 ^ 64 →
    Logs (V := V) (·.Within dst bytes.length) (copyToUserLoop fuel dst bytes) := by
  induction fuel with
  | zero => exact fun _ => logs_pure _
  | succ fuel ih =>
    intro dst bytes hend
    refine Logs.ite (fun _ => logs_pure _) fun hne => ?_
    have hpos : 0 < bytes.length := List.length_pos_iff.mpr (by simpa using hne)
    have hle := toCopy_le dst bytes.length
    have hnext := toNat_add_ofNat (lt_of_le_of_lt (Nat.add_le_add_left hle _) hend)
    have hdrop : (bytes.drop (toCopy dst bytes.length)).length =
      bytes.length - toCopy dst bytes.length :=
      length_drop
    refine (logs_userPhysAddr (within_handlePageFault hpos)).bind fun paddr =>
      (logs_storeBytes _ _).bind fun _ => ?_
    rcases eq_zero_or_pos (bytes.length - toCopy dst bytes.length) with hzero | hrest
    · -- nothing is left, and the loop stops
      have hnil : bytes.drop (toCopy dst bytes.length) = [] :=
        length_eq_zero_iff.mp (hdrop.trans hzero)
      rw [hnil]
      cases fuel with
      | zero => exact logs_pure _
      | succ fuel => exact logs_pure _
    · refine (ih (by omega)).mono fun e he => ?_
      rw [hdrop] at he
      exact he.mono hrest (by omega) (by omega)

/-- The addresses of a copy are those of its bytes. -/
lemma logs_copyToUser {dst : BitVec 64} {bytes : List UInt8}
    (hend : dst.toNat + bytes.length < 2 ^ 64) :
    Logs (V := V) (·.Within dst bytes.length) (copyToUser dst bytes) :=
  (logs_note ⟨le_rfl, le_rfl, fun h => Nat.lt_add_of_pos_right h⟩).bind fun _ =>
  logs_copyToUserLoop hend

/-- What the loop of a copy records, whatever its addresses are. -/
lemma logs_copyFromUserLoop_true : ∀ (src : BitVec 64) (count : ℕ),
    Logs (V := V) (fun _ => True) (copyFromUserLoop fuel src count) := by
  induction fuel with
  | zero => exact fun _ _ => logs_pure _
  | succ fuel ih =>
    refine fun src count => Logs.ite (fun _ => logs_pure _) fun _ => ?_
    exact (logs_userPhysAddr trivial).bind fun paddr =>
      (logs_loadBytes _ _).bind fun _ => (ih _ _).bind fun _ => logs_pure _

/-- The addresses of a copy are those of its bytes. -/
lemma logs_copyFromUserLoop : ∀ {src : BitVec 64} {count : ℕ}, src.toNat + count < 2 ^ 64 →
    Logs (V := V) (·.Within src count) (copyFromUserLoop fuel src count) := by
  induction fuel with
  | zero => exact fun _ => logs_pure _
  | succ fuel ih =>
    intro src count hend
    refine Logs.ite (fun _ => logs_pure _) fun hne => ?_
    have hpos : 0 < count := Nat.pos_of_ne_zero hne
    have hle := toCopy_le src count
    have hnext := toNat_add_ofNat (lt_of_le_of_lt (Nat.add_le_add_left hle _) hend)
    have hrest : Logs (V := V) (·.Within src count)
        (copyFromUserLoop fuel (src + BitVec.ofNat 64 (toCopy src count))
          (count - toCopy src count)) := by
      rcases eq_zero_or_pos (count - toCopy src count) with hzero | hleft
      · -- nothing is left, and the loop stops
        rw [hzero]
        cases fuel with
        | zero => exact logs_pure _
        | succ fuel => exact logs_pure _
      · exact (ih (by omega)).mono fun e he => he.mono hleft (by omega) (by omega)
    exact (logs_userPhysAddr (within_handlePageFault hpos)).bind fun paddr =>
      (logs_loadBytes _ _).bind fun _ => hrest.bind fun _ => logs_pure _

/-- The addresses of a copy are those of its bytes. -/
lemma logs_copyFromUser {src : BitVec 64} (hend : src.toNat + count < 2 ^ 64) :
    Logs (V := V) (·.Within src count) (copyFromUser src count) :=
  (logs_note ⟨le_rfl, le_rfl, fun h => Nat.lt_add_of_pos_right h⟩).bind fun _ =>
  logs_copyFromUserLoop hend

end SyscallState

end CabOS
