import CabOS.Fs.Ramfs
import CabOS.Memory.UserCopy

/-!
# System calls on files

`SyscallState.doSysRead` and `SyscallState.doSysWrite` move bytes between a file and a buffer of the
process. Both take a buffer of the same size from the heap of the kernel first.  Reading checks the
user's addresses before it uses them, writing only after it has copied from them.

`SyscallState.bufferCall_within` says for which buffers the two calls hand on only addresses of the
buffer, and refuse it if it does not lie in user space.  `SyscallState.write_from_kernel` is a write
from an address of the kernel.
-/

namespace CabOS

open AArch64

/-- What the system calls use of files. -/
class SyscallVNode (V : Type) extends ReadableVNode V where
  /-- Write at an offset: the number of bytes that are written, and what a device such as the
  framebuffer stores in physical memory, each time bytes of one frame. -/
  writeUnaligned : V → ℕ → List UInt8 → Except FsError (ℕ × List (BitVec 64 × List UInt8))

/-- A file in memory is not a device. -/
instance : SyscallVNode RamInode where
  writeUnaligned node offset buffer := (node.writeUnaligned offset buffer).map fun r => (r.1, [])

/-- Whether an address is one of a user program: its highest bit is clear. -/
def isUserAddress (ptr : BitVec 64) : Bool := ptr >>> 63 &&& 1#64 = 0#64

/-- The value of a system call that failed. -/
def failed : BitVec 64 := -1#64

/-- The descriptor in an argument. -/
def descriptor (fd : BitVec 64) : Int32 := Int32.ofBitVec (fd.setWidth 32)

/-- The check that one of the two ends of a buffer is not a user address. -/
def outsideUser (bufPtr count : BitVec 64) : Bool :=
  !isUserAddress bufPtr || (decide (0 < count) && !isUserAddress (bufPtr + count - 1))

namespace SyscallState

variable {V α : Type} {bufPtr count : BitVec 64}

/-- Take a buffer from the heap, which has room for the sizes of `heapFits`. -/
def vecZeroed (heapFits : ℕ → Bool) (count : ℕ) : EStateM PageFaultError (SyscallState V) Unit :=
  if count = 0 ∨ (count < 2 ^ 63 ∧ heapFits count) then pure () else throw .panic

/-- The result of a call that can return an error; a panic stays one. -/
def attempt (x : EStateM PageFaultError (SyscallState V) α) :
    EStateM PageFaultError (SyscallState V) (Option α) := fun s =>
  match x s with
  | .ok a t => .ok (some a) t
  | .error (.err _) t => .ok none t
  | .error e t => .error e t

/-- The position in an open file moves on. -/
def advance (fd : Int32) (file : OpenFile V) (count : ℕ) :
    EStateM PageFaultError (SyscallState V) Unit :=
  modify fun s =>
    { s with fdTable :=
      Function.update s.fdTable fd (some { file with offset := wadd file.offset count }) }

/-- Print bytes. -/
def kprint (bytes : List UInt8) : EStateM PageFaultError (SyscallState V) Unit :=
  modify fun s => { s with console := s.console ++ bytes }

/-- A device stores bytes in physical memory. -/
def storeAll : List (BitVec 64 × List UInt8) → EStateM PageFaultError (SyscallState V) Unit
  | [] => pure ()
  | (paddr, bytes) :: stores => do
    storeBytes paddr bytes
    storeAll stores

section

variable [SyscallVNode V]

/-- Read from a file into a buffer of the process. -/
def doSysRead (heapFits : ℕ → Bool) (fd bufPtr count : BitVec 64) :
    EStateM PageFaultError (SyscallState V) (BitVec 64) := do
  vecZeroed heapFits count.toNat
  if outsideUser bufPtr count then
    pure failed
  else
    let s ← get
    match s.fdTable (descriptor fd) with
    | none => pure failed
    | some file =>
      match ReadableVNode.readUnaligned file.vnode file.offset count.toNat with
      | .error _ => pure failed
      | .ok bytes =>
        advance (descriptor fd) file bytes.length
        if count.toNat < bytes.length then
          throw .panic
        else
          match ← attempt (copyToUser bufPtr bytes) with
          | some _ => pure (BitVec.ofNat 64 bytes.length)
          | none => pure failed

/-- The last part of a write, after the bytes have been copied. -/
def writeFile (fd bufPtr count : BitVec 64) (buf : List UInt8) :
    EStateM PageFaultError (SyscallState V) (BitVec 64) := do
  let s ← get
  match s.fdTable (descriptor fd) with
  | none => pure failed
  | some file =>
    if outsideUser bufPtr count then
      pure failed
    else
      match SyscallVNode.writeUnaligned file.vnode file.offset buf with
      | .error _ => pure failed
      | .ok (n, stores) =>
        storeAll stores
        advance (descriptor fd) file n
        pure (BitVec.ofNat 64 n)

/-- What a write does with the result of its copy. -/
def writeBuffer (fd bufPtr count : BitVec 64) :
    Option (List UInt8) → EStateM PageFaultError (SyscallState V) (BitVec 64)
  | none => pure failed
  | some buf => do
    if fd = 1 ∨ fd = 2 then
      if outsideUser bufPtr count then
        pure failed
      else if buf.toByteArray.validateUTF8 then
        kprint buf
        pure count
      else
        writeFile fd bufPtr count buf
    else
      writeFile fd bufPtr count buf

/-- Write from a buffer of the process to a file or to the console. -/
def doSysWrite (heapFits : ℕ → Bool) (fd bufPtr count : BitVec 64) :
    EStateM PageFaultError (SyscallState V) (BitVec 64) := do
  vecZeroed heapFits count.toNat
  let buf ← attempt (copyFromUser bufPtr count.toNat)
  writeBuffer fd bufPtr count buf

/-! ## The addresses of a buffer -/

/-- The two calls that use a buffer. -/
inductive BufferCall where
  | read
  | write
  deriving DecidableEq, Repr

/-- Run one of the calls. -/
def BufferCall.run (call : BufferCall) (heapFits : ℕ → Bool) (fd bufPtr count : BitVec 64) :
    EStateM PageFaultError (SyscallState V) (BitVec 64) :=
  match call with
  | .read => doSysRead heapFits fd bufPtr count
  | .write => doSysWrite heapFits fd bufPtr count

end

/-- The buffer does not wrap, and all of its addresses are those of user programs. -/
def UserBuffer (bufPtr count : BitVec 64) : Prop :=
  bufPtr.toNat + count.toNat ≤ 2 ^ 64 ∧
  ∀ i < count.toNat, isUserAddress (bufPtr + BitVec.ofNat 64 i) = true

/-- User addresses are those below `userspaceEnd`. -/
lemma isUserAddress_iff (a : BitVec 64) : isUserAddress a ↔ a.toNat < userspaceEnd := by
  have hbit : (a >>> 63).toNat = a.toNat / 2 ^ 63 := by
    rw [BitVec.toNat_ushiftRight, Nat.shiftRight_eq_div_pow]
  have hlt := a.isLt
  rw [isUserAddress, decide_eq_true_iff, ← BitVec.toNat_inj, BitVec.toNat_and, hbit]
  simp only [BitVec.toNat_ofNat, userspaceEnd]
  norm_num
  omega

/-- Where the buffer of a user ends. -/
lemma UserBuffer.end_le (h : UserBuffer bufPtr count) (hpos : 0 < count.toNat) :
    bufPtr.toNat + count.toNat ≤ userspaceEnd := by
  have hlast := h.2 (count.toNat - 1) (by omega)
  have hend := h.1
  rw [isUserAddress_iff, toNat_add_ofNat (by omega)] at hlast
  omega

/-- The check looks only at both ends, but a buffer of less than `2 ^ 63` bytes lies between them.
-/
lemma outsideUser_eq_true (hcount : count.toNat < 2 ^ 63)
    (h : ¬ UserBuffer bufPtr count) : outsideUser bufPtr count := by
  by_contra hinside
  simp only [outsideUser, Bool.or_eq_true, Bool.and_eq_true, Bool.not_eq_true',
    decide_eq_true_eq, not_or,
    not_and, Bool.not_eq_false, isUserAddress_iff] at hinside
  obtain ⟨hfirst, hlast⟩ := hinside
  refine h ⟨by simp only [userspaceEnd] at hfirst; omega, fun i hi => ?_⟩
  have hpos : 0 < count := by
    rw [BitVec.lt_def]
    simpa using Nat.zero_lt_of_lt hi
  have hend := hlast hpos
  have hone : (bufPtr + count - 1).toNat = bufPtr.toNat + count.toNat - 1 := by
    simp only [userspaceEnd] at hfirst
    bv_omega
  rw [hone] at hend
  rw [isUserAddress_iff, toNat_add_ofNat (by simp only [userspaceEnd] at hfirst; omega)]
  omega

/-! ## What is recorded by the calls -/

variable {P : UserAccess → Prop} {x : EStateM PageFaultError (SyscallState V) α}

lemma logs_vecZeroed (heapFits : ℕ → Bool) (count : ℕ) :
    Logs (V := V) P (vecZeroed heapFits count) :=
  Logs.ite (fun _ => logs_pure _) fun _ => logs_throw _

lemma logs_advance (fd : Int32) (file : OpenFile V) (count : ℕ) :
    Logs (V := V) P (advance fd file count) :=
  logs_modify fun _ => rfl

lemma logs_kprint (bytes : List UInt8) : Logs (V := V) P (kprint bytes) := logs_modify fun _ => rfl

lemma logs_storeAll (stores : List (BitVec 64 × List UInt8)) :
    Logs (V := V) P (storeAll stores) := by
  induction stores with
  | nil => exact logs_pure _
  | cons _ _ ih => exact (logs_storeBytes _ _).bind fun _ => ih

/-- What a call keeps is kept when its errors are caught. -/
lemma maintains_attempt {I : SyscallState V → Prop} (h : Maintains I x) :
    Maintains I (attempt x) := by
  refine ⟨fun s hs => ?_⟩
  have hx := h.run s hs
  unfold attempt
  cases e : x s with
  | ok a t =>
    rw [e] at hx
    exact hx
  | error err t =>
    rw [e] at hx
    cases err <;> exact hx

lemma Logs.attempt (h : Logs P x) : Logs P (attempt x) :=
  fun l => maintains_attempt (h l)

/-- Nothing lies in an empty buffer. -/
lemma not_inside_of_log_append {es es' : List UserAccess} {e : UserAccess} {s t : SyscallState V}
    (hlog : t.log = es ++ s.log) (hlog' : t.log = es' ++ e :: s.log) (he : e.address = bufPtr) :
    ¬ ∀ e ∈ es, e.Inside bufPtr 0 := by
  intro hes
  have hsplit : es = es' ++ [e] := by
    refine (List.append_left_inj s.log).mp ?_
    rw [← hlog, hlog', List.append_assoc, List.singleton_append]
  have hinside := (hes e (by simp [hsplit])).2.1
  rw [he] at hinside
  omega

section

variable [SyscallVNode V]

/-- The last part of a write uses no address of the process. -/
lemma logs_writeFile (fd bufPtr count : BitVec 64) (buf : List UInt8) :
    Logs (V := V) P (writeFile fd bufPtr count buf) := by
  refine logs_get.bind fun s => ?_
  cases s.fdTable (descriptor fd) with
  | none => exact logs_pure _
  | some file =>
    refine Logs.ite (fun _ => logs_pure _) fun _ => ?_
    cases SyscallVNode.writeUnaligned file.vnode file.offset buf with
    | error e => exact logs_pure _
    | ok r =>
      exact (logs_storeAll _).bind fun _ => (logs_advance _ _ _).bind fun _ => logs_pure _

lemma logs_writeBuffer (fd bufPtr count : BitVec 64) (buf : Option (List UInt8)) :
    Logs (V := V) P (writeBuffer fd bufPtr count buf) := by
  cases buf with
  | none => exact logs_pure _
  | some buf =>
    refine Logs.ite (fun _ => ?_) fun _ => logs_writeFile _ _ _ _
    refine Logs.ite (fun _ => logs_pure _) fun _ => ?_
    exact Logs.ite (fun _ => (logs_kprint buf).bind fun _ => logs_pure _) fun _ =>
      logs_writeFile _ _ _ _

/-- A write hands on its buffer. -/
lemma logs_doSysWrite (heapFits : ℕ → Bool) (fd : BitVec 64)
    (hend : bufPtr.toNat + count.toNat < 2 ^ 64) :
    Logs (V := V) (·.Within bufPtr count.toNat) (doSysWrite heapFits fd bufPtr count) :=
  (logs_vecZeroed _ _).bind fun _ => (logs_copyFromUser hend).attempt.bind fun buf =>
    logs_writeBuffer fd bufPtr count buf

/-- A part of a buffer from its start on. -/
lemma within_of_le {start : BitVec 64} {count count' : ℕ} {e : UserAccess}
    (h : e.Within start count')
    (hle : count' ≤ count) (hzero : count' = 0 → e.address = start) : e.Within start count := by
  refine ⟨h.1, h.2.1.trans (Nat.add_le_add_left hle _), fun hpos => ?_⟩
  rcases Nat.eq_zero_or_pos count' with hcount | hcount
  · rw [hzero hcount]
    exact Nat.lt_add_of_pos_right hpos
  · exact (h.2.2 hcount).trans_le (Nat.add_le_add_left hle _)

/-- A read hands on the part of its buffer that is filled. -/
lemma logs_doSysRead (heapFits : ℕ → Bool) (fd : BitVec 64)
    (hend : bufPtr.toNat + count.toNat < 2 ^ 64) :
    Logs (V := V) (·.Within bufPtr count.toNat) (doSysRead heapFits fd bufPtr count) := by
  refine (logs_vecZeroed _ _).bind fun _ => Logs.ite (fun _ => logs_pure _) fun _ =>
    logs_get.bind fun s => ?_
  cases s.fdTable (descriptor fd) with
  | none => exact logs_pure _
  | some file =>
    cases hread : ReadableVNode.readUnaligned file.vnode file.offset count.toNat with
    | error e =>
      simp only [hread]
      exact logs_pure _
    | ok bytes =>
      simp only [hread]
      refine (logs_advance _ _ _).bind fun _ => Logs.ite (fun _ => logs_throw _) fun hfits => ?_
      have hcopy : Logs (V := V) (·.Within bufPtr count.toNat) (copyToUser bufPtr bytes) := by
        refine (logs_copyToUser (by omega)).mono fun e he =>
          within_of_le he (by omega) fun hzero => ?_
        rw [UserAccess.Within, hzero] at he
        exact BitVec.eq_of_toNat_eq (by omega)
      refine hcopy.attempt.bind fun r => ?_
      cases r with
      | none => exact logs_pure _
      | some _ => exact logs_pure _

/-- Without a buffer of the kernel both calls stop the kernel. -/
lemma run_of_heap_full {heapFits : ℕ → Bool}
    (h : ¬ (count.toNat = 0 ∨ (count.toNat < 2 ^ 63 ∧ heapFits count.toNat))) (call : BufferCall)
    (fd bufPtr : BitVec 64) (s : SyscallState V) :
    call.run heapFits fd bufPtr count s = .error .panic s := by
  cases call with
  | read => simp only [BufferCall.run, doSysRead, vecZeroed, if_neg h, exec_bind, exec_throw]
  | write => simp only [BufferCall.run, doSysWrite, vecZeroed, if_neg h, exec_bind, exec_throw]

/-- A write has handed on its buffer before anything is checked. -/
lemma log_doSysWrite {heapFits : ℕ → Bool}
    (h : count.toNat = 0 ∨ (count.toNat < 2 ^ 63 ∧ heapFits count.toNat)) (fd bufPtr : BitVec 64)
    (s : SyscallState V) : ∃ es, (finalState (doSysWrite heapFits fd bufPtr count) s).log =
      es ++ .copyFromUser bufPtr count.toNat :: s.log := by
  let noted : SyscallState V := { s with log := .copyFromUser bufPtr count.toNat :: s.log }
  have hrun : doSysWrite heapFits fd bufPtr count s =
      (attempt (copyFromUserLoop count.toNat bufPtr count.toNat) >>= writeBuffer fd bufPtr count)
      noted := by
    rw [doSysWrite, vecZeroed, if_pos h]
    rfl
  have hlogs : Logs (V := V) (fun _ => True)
      (attempt (copyFromUserLoop count.toNat bufPtr count.toNat) >>= writeBuffer fd bufPtr count) :=
    (logs_copyFromUserLoop_true _ _).attempt.bind fun buf => logs_writeBuffer fd bufPtr count buf
  obtain ⟨es, hes, -⟩ := hlogs.finalState noted
  refine ⟨es, ?_⟩
  rw [finalState, hrun]
  exact hes

/-- A buffer that does not lie in user space is refused, and nothing is handed on.  Otherwise what
is handed on lies in the buffer. -/
def BufferCall.Respects (call : BufferCall) (heapFits : ℕ → Bool) (fd bufPtr count : BitVec 64)
    (s : SyscallState V) : Prop :=
  (¬ UserBuffer bufPtr count → call.run heapFits fd bufPtr count s = .ok failed s) ∧
  (UserBuffer bufPtr count →
    ∃ es, (finalState (call.run heapFits fd bufPtr count) s).log = es ++ s.log ∧
    ∀ e ∈ es, e.Inside bufPtr count.toNat)

/-- A read into an empty buffer comes to its copy. -/
def CopiesEmpty (fd bufPtr : BitVec 64) (s : SyscallState V) : Prop :=
  isUserAddress bufPtr ∧ ∃ file, s.fdTable (descriptor fd) = some file ∧
    ReadableVNode.readUnaligned file.vnode file.offset 0 = .ok []

/-- What a read into an empty buffer hands on. -/
lemma log_doSysRead_empty (heapFits : ℕ → Bool) (fd bufPtr : BitVec 64) (s : SyscallState V) :
    (CopiesEmpty fd bufPtr s →
      (finalState (doSysRead heapFits fd bufPtr 0#64) s).log = .copyToUser bufPtr 0 :: s.log) ∧
    (¬ CopiesEmpty fd bufPtr s →
      (finalState (doSysRead heapFits fd bufPtr 0#64) s).log = s.log) := by
  have hcheck : outsideUser bufPtr 0#64 = !isUserAddress bufPtr := by simp [outsideUser]
  constructor
  · rintro ⟨huser, file, hfile, hread⟩
    simp [finalState, doSysRead, vecZeroed, hcheck, huser, hfile, hread, advance,
      attempt, copyToUser,
      copyToUserLoop, note]
  · intro hcopies
    by_cases huser : isUserAddress bufPtr
    · cases hfile : s.fdTable (descriptor fd) with
      | none => simp [finalState, doSysRead, vecZeroed, hcheck, huser, hfile]
      | some file =>
        cases hread : ReadableVNode.readUnaligned file.vnode file.offset 0 with
        | error e => simp [finalState, doSysRead, vecZeroed, hcheck, huser, hfile, hread]
        | ok bytes =>
          -- a file that returns more bytes than it was asked for stops the kernel
          have hpos : 0 < bytes.length := List.length_pos_iff.mpr fun hnil =>
            hcopies ⟨huser, file, hfile, by rw [hread, hnil]⟩
          simp [finalState, doSysRead, vecZeroed, hcheck, huser, hfile, hread, advance, hpos]
    · simp [finalState, doSysRead, vecZeroed, hcheck, huser]

/-- For an empty buffer a call must not come to its copy. -/
lemma respects_empty (call : BufferCall) (heapFits : ℕ → Bool) (fd bufPtr : BitVec 64)
    (s : SyscallState V) :
    call.Respects heapFits fd bufPtr 0#64 s ↔ call = .read ∧ ¬ CopiesEmpty fd bufPtr s := by
  have hbuffer : UserBuffer bufPtr 0#64 :=
    ⟨bufPtr.isLt.le, fun i hi => absurd hi (Nat.not_lt_zero i)⟩
  constructor
  · rintro ⟨-, hinside⟩
    obtain ⟨es, hlog, hes⟩ := hinside hbuffer
    cases call with
    | read =>
      refine ⟨rfl, fun hcopies => ?_⟩
      have hcopy := (log_doSysRead_empty heapFits fd bufPtr s).1 hcopies
      rw [← List.nil_append (_ :: s.log)] at hcopy
      exact not_inside_of_log_append hlog hcopy rfl hes
    | write =>
      have hfits : (0#64).toNat = 0 ∨ ((0#64).toNat < 2 ^ 63 ∧ heapFits (0#64).toNat) := Or.inl rfl
      obtain ⟨es', hcopy⟩ := log_doSysWrite hfits fd bufPtr s
      exact absurd hes (not_inside_of_log_append hlog hcopy rfl)
  · rintro ⟨rfl, hcopies⟩
    refine ⟨fun h => absurd hbuffer h, fun _ => ⟨[], ?_, by simp⟩⟩
    exact (log_doSysRead_empty heapFits fd bufPtr s).2 hcopies

/-- A buffer that is not empty must lie in user space, unless the call is a read and the kernel has
a buffer. -/
lemma respects_of_pos (call : BufferCall) (heapFits : ℕ → Bool) (fd bufPtr : BitVec 64)
    (s : SyscallState V)
    (hpos : 0 < count.toNat) :
    call.Respects heapFits fd bufPtr count s ↔
      UserBuffer bufPtr count ∨
      (call = .read ∧ count.toNat < 2 ^ 63 ∧ heapFits count.toNat = true) := by
  constructor
  · rintro ⟨hrefused, -⟩
    by_contra hneither
    obtain ⟨hbuffer, hread⟩ := not_or.mp hneither
    have hrun := hrefused hbuffer
    by_cases hfits : count.toNat = 0 ∨ (count.toNat < 2 ^ 63 ∧ heapFits count.toNat)
    · cases call with
      | read => exact hread ⟨rfl, hfits.resolve_left hpos.ne'⟩
      | write =>
        -- the address was handed on, so the state has changed
        obtain ⟨es, hlog⟩ := log_doSysWrite hfits fd bufPtr s
        rw [BufferCall.run] at hrun
        rw [finalState, hrun] at hlog
        have hlength := congrArg List.length hlog
        simp only [List.length_append, List.length_cons] at hlength
        omega
    · rw [run_of_heap_full hfits] at hrun
      cases hrun
  · intro h
    refine ⟨fun hbuffer => ?_, fun hbuffer => ?_⟩
    · obtain ⟨rfl, hcount, hfits⟩ := h.resolve_left hbuffer
      simp only [BufferCall.run, doSysRead, vecZeroed, hcount, hfits, and_self, or_true,
        if_true, exec_bind,
        exec_pure, outsideUser_eq_true hcount hbuffer]
    · have hend : bufPtr.toNat + count.toNat < 2 ^ 64 := (hbuffer.end_le hpos).trans_lt (by decide)
      have hlogs :
        Logs (V := V) (·.Within bufPtr count.toNat) (call.run heapFits fd bufPtr count) := by
        cases call with
        | read => exact logs_doSysRead heapFits fd hend
        | write => exact logs_doSysWrite heapFits fd hend
      obtain ⟨es, hlog, hes⟩ := hlogs.finalState s
      exact ⟨es, hlog, fun e he => (hes e he).inside hpos⟩

/-- A call refuses a buffer that does not lie in user space, and otherwise hands on addresses of the
buffer only, in exactly these cases: the buffer is not empty, and it lies in user space or the call
is a read for which the kernel has a buffer; or the buffer is empty, and the call is a read that
does not come to its copy. -/
theorem bufferCall_within (call : BufferCall) (heapFits : ℕ → Bool) (fd bufPtr count : BitVec 64)
    (s : SyscallState V) :
    ((¬ UserBuffer bufPtr count → call.run heapFits fd bufPtr count s = .ok failed s) ∧
      (UserBuffer bufPtr count → ∃ es,
        (finalState (call.run heapFits fd bufPtr count) s).log = es ++ s.log ∧
        ∀ e ∈ es, e.Inside bufPtr count.toNat)) ↔
      if count = 0#64 then call = .read ∧ ¬ CopiesEmpty fd bufPtr s
      else UserBuffer bufPtr count ∨
      (call = .read ∧ count.toNat < 2 ^ 63 ∧ heapFits count.toNat = true) := by
  split_ifs with hcount
  · subst hcount
    exact respects_empty call heapFits fd bufPtr s
  · refine respects_of_pos call heapFits fd bufPtr s (Nat.pos_of_ne_zero fun hzero => hcount ?_)
    exact BitVec.eq_of_toNat_eq hzero

end

/-- A process that has mapped nothing and opened nothing; eight frames are free. -/
def bareProcess : SyscallState RamInode where
  memory := ⟨VirtualMemory.new, 0x10000#64, eightFrames, fun _ => none⟩
  fdTable _ := none
  kernelSpace := 0x20000#64
  vmes := VirtualMemoryEntryContainer.new 0xFFFF800000000000 0xFFFFFFFFFFFFF000
  console := []
  log := []

/-- A write from memory of the kernel copies from there before the address is checked, and stops the
kernel; an empty one hands on the address all the same.  A read of more than `2 ^ 63` bytes stops
the kernel before the check. -/
theorem write_from_kernel : ¬ UserBuffer 0x8000000000000000#64 1#64 ∧
      raisedError (BufferCall.write.run (fun _ => true) 1#64 0x8000000000000000#64 1#64)
      bareProcess = some .panic ∧
      (finalState (BufferCall.write.run (fun _ => true) 1#64 0x8000000000000000#64 1#64)
        bareProcess).log =
        [.handlePageFault 0x8000000000000000#64, .copyFromUser 0x8000000000000000#64 1] ∧
      (finalState (BufferCall.write.run (fun _ => true) 1#64 0x8000000000000000#64 0#64)
        bareProcess).log =
        [.copyFromUser 0x8000000000000000#64 0] ∧
      ¬ UserBuffer 0#64 0x8000000000000001#64 ∧
      raisedError (BufferCall.read.run (fun _ => true) 1#64 0#64 0x8000000000000001#64)
      bareProcess =
        some .panic := by
  have hkernel : ¬ UserBuffer 0x8000000000000000#64 1#64 :=
    fun h => absurd (h.2 0 (by decide)) (by decide)
  have hlarge : ¬ UserBuffer 0#64 0x8000000000000001#64 :=
    fun h => absurd (h.2 0x8000000000000000 (by decide)) (by decide)
  exact ⟨hkernel,
    by decide +kernel, by decide +kernel, by decide +kernel, hlarge, by decide +kernel⟩

end SyscallState

end CabOS
