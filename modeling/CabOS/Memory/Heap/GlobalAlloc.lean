import CabOS.Memory.Heap.HeapAllocator

/-!
# The global allocator

`GlobalAllocImpl` puts a cache in front of the heap: for every core and every class one object that
was freed last.  A call is not atomic: it swaps an entry of the cache, then works on the heap under
its lock, and `realloc` copies bytes in between.  The model cuts a call into these steps.  A `Task`
is a call in progress with what it still has to do, `Task.step` is its next step, and
`GlobalAlloc.apply` lets any number of calls go on in any order; the core and whether the cache is
in use may be different at every step.
-/

namespace CabOS

/-- The number of cores with a cache. -/
@[irreducible] def maxCpus : ℕ := 256

/-- The core whose cache is used, if there is one: other cores must be running already. -/
def tryCurrentCpu (preempt : Bool) (core : ℕ) : Option ℕ :=
  if preempt then if core < maxCpus then some core else none else none

/-- The cached objects, by core and class; zero is none. -/
abbrev CpuCache := ℕ × ℕ → ℕ

/-- Take the object of a class out of the cache. -/
def tryTakeFromCpuCache (cache : CpuCache) (cpu : Option ℕ) (c : ℕ) : ℕ × CpuCache :=
  match cpu with
  | none => (0, cache)
  | some i => (cache (i, c), Function.update cache (i, c) 0)

/-- Put an object into the cache; the result is the object that was there. -/
def tryPutIntoCpuCache (cache : CpuCache) (cpu : Option ℕ) (c ptr : ℕ) : Option ℕ × CpuCache :=
  match cpu with
  | none => (none, cache)
  | some i => (some (cache (i, c)), Function.update cache (i, c) ptr)

/-- An allocation of a client: the address and the layout. -/
abbrev Allocation := ℕ × Layout

/-- A call in progress. -/
inductive Task where
  /-- `alloc` before it looks into the cache; a `realloc` of `old` may be waiting for it. -/
  | take (layout : Layout) (old : Option Allocation)
  /-- `alloc` before it locks the heap. -/
  | allocate (layout : Layout) (old : Option Allocation)
  /-- `realloc` before it copies the bytes. -/
  | copy (old new : Allocation)
  /-- `dealloc` before it looks into the cache; `realloc` returns `new` afterwards. -/
  | put (ptr : ℕ) (layout : Layout) (new : Option Allocation)
  /-- `dealloc` before it locks the heap. -/
  | free (ptr : ℕ) (layout : Layout) (new : Option Allocation)

/-- What the calls work on. -/
structure Shared where
  heap : HeapAllocator
  cache : CpuCache

/-- What a step leads to: the rest of the call, and what is handed to the client. -/
structure Outcome where
  next : Option Task
  returned : Multiset Allocation

/-- The allocations that a call carries with it. -/
def carried (x : Option Allocation) : Multiset Allocation := x.elim 0 fun a => {a}

/-- How a call goes on when `alloc` returns; zero stands for no memory. -/
def allocReturns (ptr : ℕ) (layout : Layout) (old : Option Allocation) : Outcome :=
  if ptr = 0 then ⟨none, carried old⟩
  else
    match old with
    | none => ⟨none, {(ptr, layout)}⟩
    | some o => ⟨some (.copy o (ptr, layout)), 0⟩

/-- The memory after `n` bytes were copied. -/
def copyBytes (mem : Memory) (dst src n : ℕ) : Memory :=
  fun a => if dst ≤ a ∧ a < dst + n then mem (src + (a - dst)) else mem a

/-- The next step of a call, which is on the core `cpu` now; loops may make `fuel` rounds. -/
def Task.step (cpu : Option ℕ) (fuel : ℕ) (s : Shared) : Task → Option (Shared × Outcome)
  | .take l old =>
    match classIndexForLayout l with
    | some c =>
      let (cached, cache) := tryTakeFromCpuCache s.cache cpu c
      if cached ≠ 0 then some ({ s with cache := cache }, allocReturns cached l old)
      else some ({ s with cache := cache }, ⟨some (.allocate l old), 0⟩)
    | none => some (s, ⟨some (.allocate l old), 0⟩)
  | .allocate l old =>
    match s.heap.allocate fuel l with
    | none => none
    | some (ptr, heap) => some ({ s with heap := heap }, allocReturns ptr l old)
  | .copy old new =>
    let mem := copyBytes s.heap.mem new.1 old.1 (min old.2.size new.2.size)
    some ({ s with heap := s.heap.withMem mem }, ⟨some (.put old.1 old.2 (some new)), 0⟩)
  | .put ptr l new =>
    match classIndexForLayout l with
    | some c =>
      match tryPutIntoCpuCache s.cache cpu c ptr with
      | (some replaced, cache) =>
        if replaced = 0 then some ({ s with cache := cache }, ⟨none, carried new⟩)
        else some ({ s with cache := cache }, ⟨some (.free replaced l new), 0⟩)
      | (none, cache) => some ({ s with cache := cache }, ⟨some (.free ptr l new), 0⟩)
    | none => some (s, ⟨some (.free ptr l new), 0⟩)
  | .free ptr l new =>
    match s.heap.free fuel ptr l with
    | none => none
    | some heap => some ({ s with heap := heap }, ⟨none, carried new⟩)

/-- A call of a client. -/
inductive Call where
  | alloc (layout : Layout)
  | dealloc (ptr : ℕ) (layout : Layout)
  | realloc (ptr : ℕ) (oldLayout : Layout) (newSize : ℕ)

/-- The start of a call: the allocations that the client gives away, and how the call goes on.
There is none if the code panics because a layout is not valid. -/
def Call.start : Call → Option (Multiset Allocation × Outcome)
  | .alloc l => do
    let n ← normalizeLayout l
    some (0, ⟨some (.take n none), 0⟩)
  | .dealloc ptr l => do
    let n ← normalizeLayout l
    some ({(ptr, n)}, ⟨some (.put ptr n none), 0⟩)
  | .realloc ptr l newSize =>
    if ptr = 0 then do
      let m ← l.withSize (max newSize 1)
      let n ← normalizeLayout m
      some (0, ⟨some (.take n none), 0⟩)
    else if newSize = 0 then do
      let n ← normalizeLayout l
      some ({(ptr, n)}, ⟨some (.put ptr n none), 0⟩)
    else do
      let n ← normalizeLayout l
      let m ← n.withSize newSize
      match classIndexForLayout n, classIndexForLayout m with
      | some c, some c' =>
        -- an object that is large enough stays where it is
        if c = c' then some ({(ptr, n)}, ⟨none, {(ptr, m)}⟩)
        else some ({(ptr, n)}, ⟨some (.take m (some (ptr, n))), 0⟩)
      | _, _ => some ({(ptr, n)}, ⟨some (.take m (some (ptr, n))), 0⟩)

/-- The whole system: the heap and the cache, what clients hold, and the calls in progress. -/
structure GlobalAlloc where
  shared : Shared
  live : Multiset Allocation
  tasks : Multiset Task

/-- What can happen next. -/
inductive Event where
  /-- A client makes a call. -/
  | call (c : Call)
  /-- A call goes on. -/
  | task (t : Task) (preempt : Bool) (core fuel : ℕ)
  /-- The clients change the memory. -/
  | write (mem : Memory)

namespace GlobalAlloc

/-- The heap is given a block of memory. -/
def start (mem : Memory) (offset len : ℕ) : GlobalAlloc where
  shared := ⟨(HeapAllocator.new mem).initFromBlock offset len, fun _ => 0⟩
  live := 0
  tasks := 0

/-- The system after a step of a call, when the clients still hold `live` and the other calls are
`tasks`. -/
def after (s : Shared) (live : Multiset Allocation) (tasks : Multiset Task) (o : Outcome) :
    GlobalAlloc where
  shared := s
  live := o.returned + live
  tasks := o.next.elim tasks (· ::ₘ tasks)

/-- The system after an event, if the event is possible. -/
inductive Applies : GlobalAlloc → Event → GlobalAlloc → Prop
  | call {s : Shared} {taken live : Multiset Allocation} {tasks : Multiset Task}
  {c : Call} {o : Outcome}
      (hstart : c.start = some (taken, o)) :
      Applies ⟨s, taken + live, tasks⟩ (.call c) (after s live tasks o)
  | task {s s' : Shared} {live : Multiset Allocation} {t : Task} {tasks : Multiset Task}
  {preempt : Bool}
      {core fuel : ℕ} {o : Outcome}
      (hstep : t.step (tryCurrentCpu preempt core) fuel s = some (s', o)) :
      Applies ⟨s, live, t ::ₘ tasks⟩ (.task t preempt core fuel) (after s' live tasks o)
  | write {g : GlobalAlloc} (mem : Memory) :
      Applies g (.write mem) { g with shared :=
        { g.shared with heap := g.shared.heap.withMem mem } }

/-- The system after some events, all of which have the property `P`. -/
inductive Run (P : GlobalAlloc → Event → Prop) (g₀ : GlobalAlloc) : GlobalAlloc → Prop
  | start : Run P g₀ g₀
  | step {g g' : GlobalAlloc} {e : Event} (hrun : Run P g₀ g) (hP : P g e)
  (hg' : Applies g e g') : Run P g₀ g'

end GlobalAlloc

end CabOS
