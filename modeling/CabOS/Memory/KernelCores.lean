import CabOS.Memory.PageFault
import CabOS.Memory.VirtualMemory

/-!
# Kernel memory on several cores

Kernel memory that is allocated without a backing gets its frames when it is used.  A core that
touches a page without a frame leaves the access to the page fault handler, which finds the
allocation, takes a frame and maps it, one after the other and without a lock that covers the three.
When an allocation is dropped, its pages are unmapped and their frames are given back, then the
cores forget what they have cached of it, and at last its addresses become free.

`KernelCores.step` is one step of one core.  Each core has a buffer of translations, which it may
use as long as it is not told to forget them.  The log records what has been done to pages and
frames; no step reads it.
-/

namespace CabOS

open AArch64 Function

/-- The processors that the kernel is built for. -/
inductive Target where
  | aarch64
  | x86_64
  deriving DecidableEq, Repr

/-- The system that the kernel runs on: the processor, the number of cores and the page table of the
kernel. -/
structure KernelConfig where
  target : Target
  cores : ℕ
  space : BitVec 64

/-- A core is asked to forget the translations of a range; another core waits for it. -/
structure Shootdown where
  base : ℕ
  length : ℕ
  initiator : ℕ
  deriving DecidableEq, Repr

/-- What a core is doing. -/
inductive Activity where
  | running
  /-- It has touched a page without a frame. -/
  | faulted (address : BitVec 64)
  /-- The handler has found the allocation and given the lock back. -/
  | located (address : BitVec 64)
  /-- The handler has a frame for the page. -/
  | allocated (address frame : BitVec 64)
  /-- An allocation is dropped, and its pages below `length` are still to be unmapped. -/
  | unmapping (a : VirtualMemoryAllocation) (length : ℕ)
  /-- The pages of the allocation from `page` on are still to be forgotten. -/
  | flushing (a : VirtualMemoryAllocation) (page : ℕ)
  /-- The other cores have been asked to forget the pages of the allocation. -/
  | waiting (a : VirtualMemoryAllocation)
  /-- The addresses of the allocation are still to be given back. -/
  | releasing (a : VirtualMemoryAllocation)
  | panicked
  deriving DecidableEq, Repr

/-- What is recorded of pages and frames. -/
inductive PageEvent where
  /-- The handler was given the frame for the page. -/
  | handedOut (page : Path) (frame : BitVec 64)
  | mapped (page : Path)
  /-- The frame of the page was given back. -/
  | released (frame : BitVec 64)
  | written (page : Path) (offset : ℕ) (byte : UInt8)
  deriving DecidableEq, Repr

/-- The memory of the kernel and its cores. -/
structure KernelCores where
  /-- The addresses in use and those that are free. -/
  vmes : VirtualMemoryEntryContainer
  vmm : Vmm
  /-- The allocations that have not been dropped. -/
  live : List VirtualMemoryAllocation
  /-- The frames that other code has taken. -/
  lent : List (BitVec 64)
  activity : ℕ → Activity
  /-- The translations that each core has cached. -/
  tlb : ℕ → List (Path × BitVec 64)
  /-- The requests to a core that it has not looked at. -/
  queue : ℕ → List Shootdown
  /-- The request that a core is at work on. -/
  handling : ℕ → Option Shootdown
  /-- How many cores have not finished the request of a core. -/
  latch : ℕ → ℕ
  /-- What has been done, the latest first. -/
  log : List PageEvent

/-- The frame of the page of an address, from the page table. -/
def frameAt (mem : TableMem) (space a : BitVec 64) : Option (BitVec 64) :=
  getPhysAddr mem (a &&& ~~~0xFFF#64) space

/-- A frame with one byte replaced. -/
def setPageByte (page : Fin ptePerPage → BitVec 64) (k : ℕ) (b : UInt8) :
    Fin ptePerPage → BitVec 64 :=
  packPage fun j => if j = k then b else pageByte page j

/-- The steps of the cores. -/
inductive KernelStep where
  /-- A thread uses an address. -/
  | access (core : ℕ) (a : BitVec 64)
  /-- A thread writes a byte. -/
  | write (core : ℕ) (a : BitVec 64) (b : UInt8)
  /-- A core drops a cached translation for reasons of its own. -/
  | evict (core : ℕ) (page : Path)
  /-- The handler looks for the allocation of the address. -/
  | lookup (core : ℕ)
  | frameAlloc (core : ℕ)
  | virtualMap (core : ℕ)
  /-- Addresses are allocated without a backing. -/
  | create (core : ℕ) (start : Option ℕ) (length : ℕ) (options : PagingOptions)
  | drop (core : ℕ) (a : VirtualMemoryAllocation)
  /-- The next page of the dropped allocation is unmapped. -/
  | unmap (core : ℕ)
  /-- The cores are made or asked to forget the dropped allocation. -/
  | shootdownTlbs (core : ℕ)
  /-- A core takes a request from its queue. -/
  | popEvent (core : ℕ)
  /-- A core works on its request. -/
  | invalidate (core : ℕ)
  /-- The addresses of the dropped allocation are given back. -/
  | release (core : ℕ)
  /-- Other code takes a frame. -/
  | take
  /-- Other code gives a frame back. -/
  | giveBack (frame : BitVec 64)

namespace KernelCores

variable (k : KernelConfig) (s : KernelCores)

/-- The translation that a core has cached. -/
def cachedFrame (core : ℕ) (a : BitVec 64) : Option (BitVec 64) := (s.tlb core).lookup (pathOf a)

/-- The frame that a core uses for an address. -/
def translate (core : ℕ) (a : BitVec 64) : Option (BitVec 64) :=
  match s.cachedFrame core a with
  | some f => some f
  | none => frameAt s.vmm.mem k.space a

/-- The byte that a core reads. -/
def load (core : ℕ) (a : BitVec 64) : Option UInt8 :=
  (s.translate k core a).map fun f => pageByte (s.vmm.mem f) (a.toNat % pageSize)

/-- The core goes on with something else. -/
def setActivity (core : ℕ) (activity : Activity) : KernelCores :=
  { s with activity := update s.activity core activity }

/-- A core forgets a page. -/
def forget (core : ℕ) (page : Path) : KernelCores :=
  { s with tlb := update s.tlb core ((s.tlb core).filter fun e => e.1 ≠ page) }

/-- All cores forget a page. -/
def forgetAll (page : Path) : KernelCores :=
  { s with tlb := fun core => (s.tlb core).filter fun e => e.1 ≠ page }

/-- A thread uses an address: the translation is cached, or the page has no frame. -/
def access (core : ℕ) (a : BitVec 64) : KernelCores :=
  match s.cachedFrame core a with
  | some _ => s
  | none =>
    match frameAt s.vmm.mem k.space a with
    | some f => { s with tlb := update s.tlb core ((pathOf a, f) :: s.tlb core) }
    | none => s.setActivity core (.faulted a)

/-- A thread writes a byte. -/
def write (core : ℕ) (a : BitVec 64) (b : UInt8) : KernelCores :=
  match s.translate k core a with
  | none => s.access k core a
  | some f =>
    { s.access k core a with
      vmm := ⟨update s.vmm.mem f (setPageByte (s.vmm.mem f) (a.toNat % pageSize) b), s.vmm.free⟩
      log := .written (pathOf a) (a.toNat % pageSize) b :: s.log }

/-- The handler looks for the allocation of an address.  Threads of the kernel have no process. -/
def lookup (core : ℕ) (a : BitVec 64) : KernelCores :=
  if a.toNat < userspaceEnd then s.setActivity core .panicked
  else
    match s.vmes.active.upperBound a.toNat with
    | some below =>
      if wadd below.base below.length > a.toNat then s.setActivity core (.located a)
      else s.setActivity core .panicked
    | none => s.setActivity core .panicked

/-- The handler takes a frame; without one it waits. -/
def frameAlloc (core : ℕ) (a : BitVec 64) : KernelCores :=
  match AArch64.frameAlloc s.vmm with
  | .ok f t =>
    { s.setActivity core (.allocated a f) with vmm := t, log := .handedOut (pathOf a) f :: s.log }
  | .error .waiting _ => s
  | .error .unaligned _ => s.setActivity core .panicked

/-- The attributes of a page of the kernel. -/
def kernelPage : PagingOptions :=
  PagingOptions.present ||| PagingOptions.writable ||| PagingOptions.cacheable

/-- The handler maps the page, and the thread runs again.  Without a frame for a table it waits. -/
def virtualMap (core : ℕ) (a f : BitVec 64) : KernelCores :=
  match vmap k.space (a &&& ~~~0xFFF#64) f kernelPage s.vmm with
  | .ok _ t => { s.setActivity core .running with vmm := t, log := .mapped (pathOf a) :: s.log }
  | .error .waiting t => { s with vmm := t }
  | .error .unaligned t => { s.setActivity core .panicked with vmm := t }

/-- Addresses are allocated. -/
def create (core : ℕ) (start : Option ℕ) (length : ℕ) (options : PagingOptions) : KernelCores :=
  match VirtualMemoryAllocation.new start length options s.vmes with
  | .ok (some a) vmes => { s with vmes, live := a :: s.live }
  | .ok none vmes => { s with vmes }
  | .error _ vmes => { s.setActivity core .panicked with vmes }

/-- The next page of a dropped allocation is unmapped and its frame given back.  On x86 the core
itself forgets the page before that. -/
def unmap (core : ℕ) (a : VirtualMemoryAllocation) (length : ℕ) : KernelCores :=
  if length > 0 then
    let vaddr := BitVec.ofNat 64 (wadd a.base (length - pageSize))
    let s := match k.target with
      | .aarch64 => s
      | .x86_64 => s.forget core (pathOf vaddr)
    match vunmap k.space vaddr s.vmm with
    | .ok (some f) t =>
      { s.setActivity core (.unmapping a (length - pageSize)) with
        vmm := t, log := .released f :: s.log }
    | .ok none t => { s.setActivity core (.unmapping a (length - pageSize)) with vmm := t }
    | .error _ t => { s.setActivity core .panicked with vmm := t }
  else s.setActivity core (.flushing a 0)

/-- The cores forget a dropped allocation.  AArch64 has an instruction that tells all cores to
forget a page; on x86 each other core gets a request. -/
def flush (core : ℕ) (a : VirtualMemoryAllocation) (page : ℕ) : KernelCores :=
  match k.target with
  | .aarch64 =>
    if page < a.length then
      (s.forgetAll (pathOf (BitVec.ofNat 64 (wadd a.base page)))).setActivity core
      (.flushing a (page + pageSize))
    else s.setActivity core (.releasing a)
  | .x86_64 =>
    { s.setActivity core (.waiting a) with
      latch := update s.latch core (k.cores - 1)
      queue := fun c =>
        if c < k.cores ∧ c ≠ core then s.queue c ++ [⟨a.base, a.length, core⟩] else s.queue c }

/-- A core works on a request, page by page, and then counts the latch down. -/
def invalidate (core : ℕ) (e : Shootdown) : KernelCores :=
  if e.length > 0 then
    { s.forget core (pathOf (BitVec.ofNat 64 (wadd e.base (e.length - pageSize)))) with
      handling := update s.handling core (some { e with length := e.length - pageSize }) }
  else
    { s with
      handling := update s.handling core none
      latch := update s.latch e.initiator (s.latch e.initiator - 1) }

/-- The addresses of a dropped allocation are given back. -/
def release (core : ℕ) (a : VirtualMemoryAllocation) : KernelCores :=
  match VirtualMemoryAllocation.drop a s.vmes with
  | .ok _ vmes => { s.setActivity core .running with vmes }
  | .error _ vmes => { s.setActivity core .panicked with vmes }

/-- One step.  A step that a core cannot take changes nothing. -/
def step : KernelStep → KernelCores
  | .access core a => if s.activity core = .running then s.access k core a else s
  | .write core a b => if s.activity core = .running then s.write k core a b else s
  | .evict core page => s.forget core page
  | .lookup core =>
    match s.activity core with
    | .faulted a => s.lookup core a
    | _ => s
  | .frameAlloc core =>
    match s.activity core with
    | .located a => s.frameAlloc core a
    | _ => s
  | .virtualMap core =>
    match s.activity core with
    | .allocated a f => s.virtualMap k core a f
    | _ => s
  | .create core start length options =>
    if s.activity core = .running then s.create core start length options else s
  | .drop core a =>
    if s.activity core = .running ∧ a ∈ s.live then
      { s.setActivity core (.unmapping a a.length) with live := s.live.erase a }
    else s
  | .unmap core =>
    match s.activity core with
    | .unmapping a length => s.unmap k core a length
    | _ => s
  | .shootdownTlbs core =>
    match s.activity core with
    | .flushing a page => s.flush k core a page
    | .waiting a => if s.latch core = 0 then s.setActivity core (.releasing a) else s
    | _ => s
  | .popEvent core =>
    match s.handling core, s.queue core with
    | none, e :: queue =>
      { s with
        handling := update s.handling core (some e)
        queue := update s.queue core queue }
    | _, _ => s
  | .invalidate core =>
    match s.handling core with
    | some e => s.invalidate core e
    | none => s
  | .release core =>
    match s.activity core with
    | .releasing a => s.release core a
    | _ => s
  | .take =>
    match AArch64.frameAlloc s.vmm with
    | .ok f t => { s with vmm := t, lent := f :: s.lent }
    | .error _ _ => s
  | .giveBack frame =>
    if frame ∈ s.lent then
      { s with vmm := finalState (frameDealloc frame) s.vmm, lent := s.lent.erase frame }
    else s

/-- The state after a run. -/
def run (steps : List KernelStep) : KernelCores := steps.foldl (step k) s

/-- The cores before any page of the kernel is used. -/
def start (vmes : VirtualMemoryEntryContainer) (vmm : Vmm) : KernelCores where
  vmes := vmes
  vmm := vmm
  live := []
  lent := []
  activity := fun _ => .running
  tlb := fun _ => []
  queue := fun _ => []
  handling := fun _ => none
  latch := fun _ => 0
  log := []

end KernelCores

end CabOS
