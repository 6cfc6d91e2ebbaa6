import CabOS.Fs.Vfs
import CabOS.Library.Run

/-!
# Mounted file systems

The kernel has two maps for the file systems that are mounted: from the key of a covered directory
to the root that covers it, and from the key of that root back to the directory.  A walk along a
path goes through the first map at its start and after every name, and through the second one before
`..`.

Every one of these steps looks into its map once.  So a walk may end at a node that is itself
covered, after `..` or if a file system is mounted on the root of another one, and going on from
there as a new walk is not the same as going on (`walk_again_differs`); if it does not end so, the
two agree (`traversePath_append`).  The second map has one entry for a root: if a file system is
mounted in two places, its maps are not inverse to each other and the second place cannot be
unmounted (`mounted_twice`); if every file system is in one place at a time, they are
(`mounts_inverse`).
-/

namespace CabOS

open Function List MonadExcept

/-- What a node is. -/
inductive INodeType where
  | file
  | directory
  | char
  | block
  | other
  deriving DecidableEq, Repr

/-- A family of file systems: looking up a name stays in the file system of the node. -/
class Filesystems (F V : Type) where
  /-- The file system that a node belongs to. -/
  filesystem : V → F
  getInumber : V → ℕ
  getType : V → INodeType
  lookup : V → List Char → Except FsError V
  getRoot : F → Except FsError V
  /-- What `get_inode_key` returns if the file system has no number. -/
  unregistered : V → FsError
  filesystem_lookup : ∀ {v w : V} {name : List Char}, lookup v name = .ok w →
    filesystem w = filesystem v
  filesystem_getRoot : ∀ {fs : F} {v : V}, getRoot fs = .ok v → filesystem v = fs

/-- The state of the virtual file system, with the numbers that it gave to the file systems. -/
structure Vfs (F V : Type) where
  filesystems : ℕ → Option F
  filesystemIdCounter : ℕ
  /-- The number that is kept in a file system. -/
  filesystemId : F → Option ℕ
  mountPoints : INodeKey → Option V
  reverseMountPoints : INodeKey → Option V
  root : Option V

namespace Vfs

open Filesystems

/-- Nothing is registered or mounted. -/
def boot {F V : Type} : Vfs F V where
  filesystems _ := none
  filesystemIdCounter := 0
  filesystemId _ := none
  mountPoints _ := none
  reverseMountPoints _ := none
  root := none

section

variable {F V : Type} [DecidableEq F] [Filesystems F V]

/-- `get_inode_key` of a node. -/
def getInodeKey (s : Vfs F V) (v : V) : Except FsError INodeKey :=
  match s.filesystemId (filesystem v) with
  | some id => .ok ⟨id, getInumber F v⟩
  | none => .error (unregistered F v)

/-- Give a file system a number if it has none. -/
def registerFilesystem (s : Vfs F V) (fs : F) : Vfs F V :=
  match s.filesystemId fs with
  | some id => { s with filesystems := update s.filesystems id (some ((s.filesystems id).getD fs)) }
  | none =>
    let id := s.filesystemIdCounter
    { s with
      filesystemIdCounter := wadd id 1
      filesystemId := update s.filesystemId fs (some id)
      filesystems := update s.filesystems id (some ((s.filesystems id).getD fs)) }

/-- A root covers the directory with a key. -/
def insertMountPoint (s : Vfs F V) (mountpointKey : INodeKey) (mountRoot : V) : Vfs F V :=
  { s with mountPoints := update s.mountPoints mountpointKey (some mountRoot) }

/-- The root with a key covers a directory. -/
def insertReverseMountPoint (s : Vfs F V) (mountRootKey : INodeKey) (mountpoint : V) : Vfs F V :=
  { s with reverseMountPoints := update s.reverseMountPoints mountRootKey (some mountpoint) }

/-- The two entries of a mount are taken away. -/
def removeMount (s : Vfs F V) (mountpointKey mountRootKey : INodeKey) : Vfs F V :=
  { s with
    mountPoints := update s.mountPoints mountpointKey none
    reverseMountPoints := update s.reverseMountPoints mountRootKey none }

/-- `set_root` -/
def setRoot (fs : F) : EStateM FsError (Vfs F V) Unit := do
  modify (registerFilesystem · fs)
  let root ← MonadExcept.ofExcept (getRoot fs)
  modify fun s => { s with root := some (s.root.getD root) }

/-- `mount` -/
def mount (mountpoint : V) (fs : F) : EStateM FsError (Vfs F V) Unit := do
  if getType F mountpoint ≠ .directory then
    throw .invalidOperation
  modify (registerFilesystem · fs)
  let mountpointKey ← MonadExcept.ofExcept ((← get).getInodeKey mountpoint)
  let mountRoot ← MonadExcept.ofExcept (getRoot fs)
  modify (insertMountPoint · mountpointKey mountRoot)
  let mountRootKey ← MonadExcept.ofExcept ((← get).getInodeKey mountRoot)
  modify (insertReverseMountPoint · mountRootKey mountpoint)

/-- `unmount` -/
def unmount (mountpoint : V) : EStateM FsError (Vfs F V) Unit := do
  let mountpointKey ← MonadExcept.ofExcept ((← get).getInodeKey mountpoint)
  match (← get).mountPoints mountpointKey with
  | none => throw .notFound
  | some mountRoot =>
    let mountRootKey ← MonadExcept.ofExcept ((← get).getInodeKey mountRoot)
    if (← get).reverseMountPoints mountRootKey = none then
      throw (.corrupted "mount point is missing its reverse mapping")
    modify (removeMount · mountpointKey mountRootKey)

/-- The parts of a path: an empty one is skipped. -/
def components (path : List Char) : List (List Char) := (path.splitOn '/').filter (· ≠ [])

/-- One part of a path. -/
def walk (s : Vfs F V) (node : V) (component : List Char) : Except FsError V :=
  if component = ['.'] then .ok node
  else if component = ['.', '.'] then do
    let key ← s.getInodeKey node
    match s.reverseMountPoints key with
    | some mount => lookup F mount component
    | none => lookup F node component
  else do
    let child ← lookup F node component
    let key ← s.getInodeKey child
    return (s.mountPoints key).getD child

/-- `traverse_path` -/
def traversePath (s : Vfs F V) (startNode : V) (path : List Char) : Except FsError V :=
  if path = [] then .error .pathMalformed
  else do
    let key ← s.getInodeKey startNode
    (components path).foldlM s.walk ((s.mountPoints key).getD startNode)

/-- A call that changes the maps. -/
inductive Call (F V : Type) where
  | setRoot (fs : F)
  | mount (mountpoint : V) (fs : F)
  | unmount (mountpoint : V)
  deriving DecidableEq

/-- What a call does. -/
def Call.exec : Call F V → EStateM FsError (Vfs F V) Unit
  | .setRoot fs => Vfs.setRoot fs
  | .mount mountpoint fs => Vfs.mount mountpoint fs
  | .unmount mountpoint => Vfs.unmount mountpoint

/-- The state after a call, whether it returns or fails. -/
def step (s : Vfs F V) (c : Call F V) : Vfs F V := finalState c.exec s

/-- The state after some calls. -/
def run (s : Vfs F V) (cs : List (Call F V)) : Vfs F V := cs.foldl step s

/-! ## What the calls do -/

variable {s t : Vfs F V} {m r v w : V} {fs : F} {j k : INodeKey} {path : List Char}

/-- The two entries of a mount. -/
def insertMount (s : Vfs F V) (k : INodeKey) (r : V) (j : INodeKey) (m : V) : Vfs F V :=
  (s.insertMountPoint k r).insertReverseMountPoint j m

section

omit [DecidableEq F]

@[simp] lemma getInodeKey_insertMountPoint :
    (s.insertMountPoint k r).getInodeKey v = s.getInodeKey v := rfl

@[simp] lemma getInodeKey_insertMount : (s.insertMount k r j m).getInodeKey v = s.getInodeKey v :=
  rfl

/-- The nodes of a file system have keys or none has one. -/
lemma getInodeKey_ok_of_filesystem_eq (hfs : filesystem w = (filesystem v : F))
    (hv : s.getInodeKey v = .ok k) :
    ∃ j, s.getInodeKey w = .ok j := by
  unfold getInodeKey at hv ⊢
  rw [hfs]
  cases hid : s.filesystemId (filesystem v) with
  | none =>
    rw [hid] at hv
    cases hv
  | some id => exact ⟨_, rfl⟩

end

section

omit [Filesystems F V]

@[simp] lemma mountPoints_registerFilesystem :
    (s.registerFilesystem fs).mountPoints = s.mountPoints := by
  unfold registerFilesystem
  split <;> rfl

@[simp] lemma reverseMountPoints_registerFilesystem :
    (s.registerFilesystem fs).reverseMountPoints = s.reverseMountPoints := by
  unfold registerFilesystem
  split <;> rfl

end

/-- A key is not changed by registering. -/
lemma getInodeKey_registerFilesystem (hv : s.getInodeKey v = .ok k) :
    (s.registerFilesystem fs).getInodeKey v = .ok k := by
  unfold getInodeKey at hv ⊢
  cases hid : s.filesystemId (filesystem v) with
  | none =>
    rw [hid] at hv
    cases hv
  | some id =>
    have hkept : (s.registerFilesystem fs).filesystemId (filesystem v) = some id := by
      unfold registerFilesystem
      cases hfs : s.filesystemId fs with
      | some n => exact hid
      | none =>
        have hne : filesystem v ≠ fs := by
          rintro rfl
          rw [hid] at hfs
          cases hfs
        simp [update_of_ne hne, hid]
    rw [hid] at hv
    rw [hkept]
    exact hv

/-- The root of a registered file system has a key. -/
lemma getInodeKey_getRoot (hr : getRoot fs = .ok r) :
    ∃ j, (s.registerFilesystem fs).getInodeKey r = .ok j := by
  have hreg : ∃ id, (s.registerFilesystem fs).filesystemId fs = some id := by
    unfold registerFilesystem
    cases hid : s.filesystemId fs with
    | some n => exact ⟨n, hid⟩
    | none => exact ⟨_, update_self ..⟩
  obtain ⟨id, hid⟩ := hreg
  unfold getInodeKey
  rw [filesystem_getRoot hr, hid]
  exact ⟨_, rfl⟩

/-- A call of `mount` fails without a mount, or adds a pair of entries. -/
lemma mount_cases (s : Vfs F V) (m : V) (fs : F) :
    (∃ e t, mount m fs s = .error e t ∧ (t = s ∨ t = s.registerFilesystem fs)) ∨
    ∃ k r j, (s.registerFilesystem fs).getInodeKey m = .ok k ∧ getRoot fs = .ok r ∧
      (s.registerFilesystem fs).getInodeKey r = .ok j ∧
      mount m fs s = .ok () ((s.registerFilesystem fs).insertMount k r j m) := by
  by_cases htype : getType F m = .directory
  · cases hk : (s.registerFilesystem fs).getInodeKey m with
    | error e => exact .inl ⟨e, s.registerFilesystem fs, by simp [mount, htype, hk], .inr rfl⟩
    | ok k =>
      cases hr : (getRoot fs : Except FsError V) with
      | error e => exact .inl ⟨e, s.registerFilesystem fs, by simp [mount, htype, hk, hr], .inr rfl⟩
      | ok r =>
        obtain ⟨j, hj⟩ := getInodeKey_getRoot (s := s) hr
        refine .inr ⟨k, r, j, rfl, rfl, hj, ?_⟩
        simp [mount, htype, hk, hr, hj, insertMount]
  · exact .inl ⟨.invalidOperation, s, by simp [mount, htype], .inl rfl⟩

omit [DecidableEq F] in
/-- A call of `unmount` fails, or takes away a pair of entries. -/
lemma unmount_cases (s : Vfs F V) (m : V) : (∃ e, unmount m s = .error e s) ∨
    ∃ k r j, s.getInodeKey m = .ok k ∧ s.mountPoints k = some r ∧ s.getInodeKey r = .ok j ∧
      s.reverseMountPoints j ≠ none ∧ unmount m s = .ok () (s.removeMount k j) := by
  cases hk : s.getInodeKey m with
  | error e => exact .inl ⟨e, by simp [unmount, hk]⟩
  | ok k =>
    cases hr : s.mountPoints k with
    | none => exact .inl ⟨.notFound, by simp [unmount, hk, hr]⟩
    | some r =>
      cases hj : s.getInodeKey r with
      | error e => exact .inl ⟨e, by simp [unmount, hk, hr, hj]⟩
      | ok j =>
        by_cases hrev : s.reverseMountPoints j = none
        · refine .inl ⟨.corrupted "mount point is missing its reverse mapping", ?_⟩
          simp [unmount, hk, hr, hj, hrev]
        · exact .inr ⟨k, r, j, rfl, hr, hj, hrev, by simp [unmount, hk, hr, hj, hrev]⟩

/-- A call of `set_root` leaves the maps alone. -/
lemma step_setRoot (s : Vfs F V) (fs : F) :
    ∃ root, s.step (.setRoot fs) = { s.registerFilesystem fs with root := root } := by
  cases hr : (getRoot fs : Except FsError V) with
  | error e =>
    refine ⟨(s.registerFilesystem fs).root, ?_⟩
    rw [step, finalState_of_error (t := s.registerFilesystem fs) (e := e)]
    simp [Call.exec, setRoot, hr]
  | ok r =>
    refine ⟨some ((s.registerFilesystem fs).root.getD r), ?_⟩
    rw [step, finalState_of_ok (a := ()) (t := { s.registerFilesystem fs with
      root := some ((s.registerFilesystem fs).root.getD r) })]
    simp [Call.exec, setRoot, hr]

/-- What a call can do to the state. -/
lemma step_cases (s : Vfs F V) (c : Call F V) : s.step c = s ∨
    (∃ fs root, s.step c = { s.registerFilesystem fs with root := root }) ∨
    (∃ m fs k r j, c = .mount m fs ∧ (s.registerFilesystem fs).getInodeKey m = .ok k ∧
      getRoot fs = .ok r ∧
      (s.registerFilesystem fs).getInodeKey r = .ok j ∧
      s.step c = (s.registerFilesystem fs).insertMount k r j m) ∨
    ∃ m k r j, c = .unmount m ∧ s.getInodeKey m = .ok k ∧ s.mountPoints k = some r ∧
    s.getInodeKey r = .ok j ∧
      s.step c = s.removeMount k j := by
  cases c with
  | setRoot fs => exact .inr (.inl ⟨fs, s.step_setRoot fs⟩)
  | mount m fs =>
    rcases mount_cases s m fs with ⟨e, t, herr, rfl | rfl⟩ | ⟨k, r, j, hk, hr, hj, hok⟩
    · exact .inl (finalState_of_error herr)
    · exact .inr (.inl ⟨fs, _, finalState_of_error herr⟩)
    · exact .inr (.inr (.inl ⟨m, fs, k, r, j, rfl, hk, hr, hj, finalState_of_ok hok⟩))
  | unmount m =>
    rcases unmount_cases s m with ⟨e, herr⟩ | ⟨k, r, j, hk, hr, hj, -, hok⟩
    · exact .inl (finalState_of_error herr)
    · exact .inr (.inr (.inr ⟨m, k, r, j, rfl, hk, hr, hj, finalState_of_ok hok⟩))

/-! ## Walks -/

/-- The nodes in the maps have keys. -/
structure Registered (s : Vfs F V) : Prop where
  root : ∀ k r, s.mountPoints k = some r → ∃ j, s.getInodeKey r = .ok j
  mountpoint : ∀ j m, s.reverseMountPoints j = some m → ∃ k, s.getInodeKey m = .ok k

omit [DecidableEq F] in
lemma registered_boot : (boot : Vfs F V).Registered where
  root _ _ h := by cases h
  mountpoint _ _ h := by cases h

/-- Registering keeps the keys of the nodes in the maps. -/
lemma Registered.registerFilesystem (h : s.Registered) : (s.registerFilesystem fs).Registered where
  root k r hr := by
    obtain ⟨j, hj⟩ := h.root k r (by simpa using hr)
    exact ⟨j, getInodeKey_registerFilesystem hj⟩
  mountpoint j m hm := by
    obtain ⟨k, hk⟩ := h.mountpoint j m (by simpa using hm)
    exact ⟨k, getInodeKey_registerFilesystem hk⟩

section

omit [DecidableEq F]

/-- An entry for two nodes with keys. -/
lemma Registered.insertMount (h : s.Registered) (hk : s.getInodeKey m = .ok k)
    (hj : s.getInodeKey r = .ok j) :
    (s.insertMount k r j m).Registered where
  root k' r' hr := by
    rcases eq_or_ne k' k with rfl | hne
    · obtain rfl : r = r' := by
        simpa [insertMount, insertMountPoint, insertReverseMountPoint] using hr
      exact ⟨j, hj⟩
    · exact h.root k' r'
        (by simpa [Vfs.insertMount, insertMountPoint, insertReverseMountPoint, hne] using hr)
  mountpoint j' m' hm := by
    rcases eq_or_ne j' j with rfl | hne
    · obtain rfl : m = m' := by
        simpa [insertMount, insertMountPoint, insertReverseMountPoint] using hm
      exact ⟨k, hk⟩
    · exact h.mountpoint j' m'
        (by simpa [Vfs.insertMount, insertMountPoint, insertReverseMountPoint, hne] using hm)

lemma Registered.removeMount (h : s.Registered) : (s.removeMount k j).Registered where
  root k' r' hr := by
    rcases eq_or_ne k' k with rfl | hne
    · simp [removeMount] at hr
    · exact h.root k' r' (by simpa [Vfs.removeMount, hne] using hr)
  mountpoint j' m' hm := by
    rcases eq_or_ne j' j with rfl | hne
    · simp [removeMount] at hm
    · exact h.mountpoint j' m' (by simpa [Vfs.removeMount, hne] using hm)

end

lemma Registered.step (h : s.Registered) (c : Call F V) : (s.step c).Registered := by
  rcases s.step_cases c with
    hs | ⟨fs, root, hs⟩ | ⟨m, fs, k, r, j, -, hk, -, hj, hs⟩ | ⟨m, k, r, j, -, -, -, -, hs⟩
  · rwa [hs]
  · rw [hs]
    exact ⟨h.registerFilesystem.root, h.registerFilesystem.mountpoint⟩
  · rw [hs]
    exact h.registerFilesystem.insertMount hk hj
  · rw [hs]
    exact h.removeMount

lemma registered_run (cs : List (Call F V)) : ((boot : Vfs F V).run cs).Registered := by
  unfold run
  induction cs using reverseRecOn with
  | nil => exact registered_boot
  | append_singleton cs c ih =>
    rw [foldl_concat]
    exact ih.step c

section

omit [DecidableEq F]

/-- A step of a walk leads to a node with a key. -/
lemma Registered.walk (h : s.Registered) {component : List Char} (hv : ∃ k, s.getInodeKey v = .ok k)
    (hw : s.walk v component = .ok w) : ∃ k, s.getInodeKey w = .ok k := by
  obtain ⟨k, hk⟩ := hv
  unfold Vfs.walk at hw
  split at hw
  next =>
    cases hw
    exact ⟨k, hk⟩
  next =>
    split at hw
    next =>
      simp only [hk] at hw
      cases hm : s.reverseMountPoints k with
      | some m =>
        obtain ⟨j, hj⟩ := h.mountpoint k m hm
        simp only [bind, Except.bind, hm] at hw
        exact getInodeKey_ok_of_filesystem_eq (filesystem_lookup hw) hj
      | none =>
        simp only [bind, Except.bind, hm] at hw
        exact getInodeKey_ok_of_filesystem_eq (filesystem_lookup hw) hk
    next =>
      cases hchild : lookup F v component with
      | error e =>
        rw [hchild] at hw
        cases hw
      | ok child =>
        obtain ⟨j, hj⟩ := getInodeKey_ok_of_filesystem_eq (filesystem_lookup hchild) hk
        rw [hchild] at hw
        simp only [bind, Except.bind, hj, pure, Except.pure, Except.ok.injEq] at hw
        subst hw
        cases hmount : s.mountPoints j with
        | none => exact ⟨j, hj⟩
        | some r => exact h.root j r hmount

/-- A walk that starts at a node with a key ends at one. -/
lemma Registered.foldlM_walk (h : s.Registered) {cs : List (List Char)}
    (hv : ∃ k, s.getInodeKey v = .ok k)
    (hw : cs.foldlM s.walk v = .ok w) : ∃ k, s.getInodeKey w = .ok k := by
  induction cs generalizing v with
  | nil =>
    cases hw
    exact hv
  | cons c cs ih =>
    rw [foldlM_cons] at hw
    cases hstep : s.walk v c with
    | error e =>
      rw [hstep] at hw
      cases hw
    | ok u =>
      rw [hstep] at hw
      exact ih (h.walk hv hstep) hw

end

/-- The parts of two paths that are put together. -/
lemma components_append (p q : List Char) :
    components (p ++ '/' :: q) = components p ++ components q := by
  unfold components splitOn
  rw [splitOnP_append_cons p q (by simp), filter_append]

/-- No mount leads away from the node. -/
def Uncovered (s : Vfs F V) (v : V) : Prop :=
  ∀ k r, s.getInodeKey v = .ok k → s.mountPoints k = some r → r = v

omit [DecidableEq F] in
/-- A walk along two paths is a walk along the second one from where the first one ends, if that is
not a node that another one covers. -/
lemma Registered.traversePath_append_eq (hregistered : s.Registered) {startNode : V}
    {p q : List Char}
    (hp : p ≠ []) (hq : q ≠ [])
    (hend : ∀ node, s.traversePath startNode p = .ok node → s.Uncovered node) :
    s.traversePath startNode (p ++ '/' :: q) =
      s.traversePath startNode p >>= fun node => s.traversePath node q := by
  have happend : p ++ '/' :: q ≠ [] := by simp
  simp only [traversePath, happend, hp, hq, if_false] at hend ⊢
  cases hkey : s.getInodeKey startNode with
  | error e => rfl
  | ok key =>
    have hstart : ∃ k, s.getInodeKey ((s.mountPoints key).getD startNode) = .ok k := by
      cases hmount : s.mountPoints key with
      | none => exact ⟨key, hkey⟩
      | some r => exact hregistered.root key r hmount
    rw [hkey] at hend
    simp only [bind, Except.bind] at hend ⊢
    rw [components_append, foldlM_append]
    cases hwalk : (components p).foldlM s.walk ((s.mountPoints key).getD startNode) with
    | error e => rfl
    | ok node =>
      obtain ⟨k, hk⟩ := hregistered.foldlM_walk hstart hwalk
      have hnode : (s.mountPoints k).getD node = node := by
        cases hmount : s.mountPoints k with
        | none => rfl
        | some r => exact hend node hwalk k r hk hmount
      simp only [bind, Except.bind, hk, hnode]

omit [DecidableEq F] in
/-- A dot at the end of a path changes nothing. -/
lemma traversePath_append_dot {startNode node : V} {p : List Char} (hp : p ≠ [])
    (hnode : s.traversePath startNode p = .ok node) :
    s.traversePath startNode (p ++ ['/', '.']) = .ok node := by
  have happend : p ++ ['/', '.'] ≠ [] := by simp
  simp only [traversePath, happend, hp, if_false] at hnode ⊢
  cases hkey : s.getInodeKey startNode with
  | error e =>
    rw [hkey] at hnode
    cases hnode
  | ok key =>
    rw [hkey] at hnode
    simp only [bind, Except.bind] at hnode ⊢
    rw [components_append, foldlM_append, hnode]
    rfl

/-- For every second path, a walk along two paths is a walk along the second one from where the
first one ends, exactly if that is not a node that another one covers. -/
theorem traversePath_append (cs : List (Call F V)) (startNode : V) (p : List Char) (hp : p ≠ []) :
    (∀ q ≠ [], ((boot : Vfs F V).run cs).traversePath startNode (p ++ '/' :: q) =
      ((boot : Vfs F V).run cs).traversePath startNode p >>= fun node =>
        ((boot : Vfs F V).run cs).traversePath node q) ↔
    ∀ node, ((boot : Vfs F V).run cs).traversePath startNode p = .ok node →
      ((boot : Vfs F V).run cs).Uncovered node := by
  have hregistered := registered_run cs (V := V)
  generalize (boot : Vfs F V).run cs = s at hregistered ⊢
  refine ⟨fun hall node hnode k r hk hr => ?_,
    fun hend q hq => hregistered.traversePath_append_eq hp hq hend⟩
  -- a walk along a dot that is begun again crosses the mount
  have hdot := hall ['.'] (by simp)
  have hagain : s.traversePath node ['.'] = .ok r := by
    rw [traversePath, if_neg (by simp), hk]
    simp only [bind, Except.bind, hr, Option.getD_some]
    rfl
  rw [traversePath_append_dot hp hnode, hnode] at hdot
  exact (Except.ok.inj (hdot.trans hagain)).symm

/-! ## The two maps -/

/-- The two maps are inverse to each other: an entry of one of them has an entry of the other one
that leads back. -/
structure Inverse (s : Vfs F V) : Prop where
  back : ∀ k r, s.mountPoints k = some r →
    ∃ m j, s.getInodeKey m = .ok k ∧ s.getInodeKey r = .ok j ∧ s.reverseMountPoints j = some m
  forth : ∀ j m, s.reverseMountPoints j = some m →
    ∃ r k, s.getInodeKey r = .ok j ∧ s.getInodeKey m = .ok k ∧ s.mountPoints k = some r

/-- The directory that a call mounts on is not covered. -/
def OnUncovered (s : Vfs F V) : Call F V → Prop
  | .mount m fs => ∀ k, (s.registerFilesystem fs).getInodeKey m = .ok k → s.mountPoints k = none
  | _ => True

/-- The root that a call mounts is not mounted. -/
def OfUnmounted (s : Vfs F V) : Call F V → Prop
  | .mount _ fs => ∀ r, getRoot fs = .ok r → ∀ j, (s.registerFilesystem fs).getInodeKey r = .ok j →
      s.reverseMountPoints j = none
  | _ => True

instance (s : Vfs F V) : DecidablePred s.OnUncovered
  | .mount m fs =>
    match h : (s.registerFilesystem fs).getInodeKey m with
    | .ok k => decidable_of_iff (s.mountPoints k = none) (by simp [OnUncovered, h])
    | .error _ => isTrue (by simp [OnUncovered, h])
  | .setRoot _ => isTrue trivial
  | .unmount _ => isTrue trivial

instance (s : Vfs F V) : DecidablePred s.OfUnmounted
  | .mount _ fs =>
    match hr : (getRoot fs : Except FsError V) with
    | .ok r =>
      match hj : (s.registerFilesystem fs).getInodeKey r with
      | .ok j => decidable_of_iff (s.reverseMountPoints j = none) (by simp [OfUnmounted, hr, hj])
      | .error _ => isTrue (by simp [OfUnmounted, hr, hj])
    | .error _ => isTrue (by simp [OfUnmounted, hr])
  | .setRoot _ => isTrue trivial
  | .unmount _ => isTrue trivial

omit [DecidableEq F] in
lemma inverse_boot : (boot : Vfs F V).Inverse where
  back _ _ h := by cases h
  forth _ _ h := by cases h

lemma Inverse.registerFilesystem (h : s.Inverse) : (s.registerFilesystem fs).Inverse where
  back k r hr := by
    obtain ⟨m, j, hm, hj, hrev⟩ := h.back k r (by simpa using hr)
    exact ⟨m, j, getInodeKey_registerFilesystem hm, getInodeKey_registerFilesystem hj,
      by simpa using hrev⟩
  forth j m hm := by
    obtain ⟨r, k, hr, hk, hfor⟩ := h.forth j m (by simpa using hm)
    exact ⟨r, k, getInodeKey_registerFilesystem hr, getInodeKey_registerFilesystem hk,
      by simpa using hfor⟩

section

omit [DecidableEq F]

section

variable {f g : INodeKey → Option V} {key : V → Except FsError INodeKey} {k' : INodeKey} {r' : V}
  (h : ∀ k r, f k = some r → ∃ m j, key m = .ok k ∧ key r = .ok j ∧ g j = some m) (hk :
    key m = .ok k)
include h hk

/-- The entries of one map lead back through the other one, also when both get one for a new key. -/
lemma leadsBack_insert (hj : key r = .ok j) (hnew : g j = none)
    (hr : update f k (some r) k' = some r') :
    ∃ m' j', key m' = .ok k' ∧ key r' = .ok j' ∧ update g j (some m) j' = some m' := by
  rcases eq_or_ne k' k with rfl | hne
  · obtain rfl : r = r' := by simpa using hr
    exact ⟨m, j, hk, hj, by simp⟩
  · obtain ⟨m', j', hm', hj', hrev⟩ := h k' r' (by simpa [hne] using hr)
    have hnej : j' ≠ j := by
      rintro rfl
      rw [hnew] at hrev
      cases hrev
    exact ⟨m', j', hm', hj', by simpa [hnej] using hrev⟩

/-- They do so without two entries that led to each other. -/
lemma leadsBack_remove (hm : g j = some m) (hr : update f k none k' = some r') :
    ∃ m' j', key m' = .ok k' ∧ key r' = .ok j' ∧ update g j none j' = some m' := by
  rcases eq_or_ne k' k with rfl | hne
  · simp at hr
  obtain ⟨m', j', hm', hj', hrev⟩ := h k' r' (by simpa [hne] using hr)
  have hnej : j' ≠ j := by
    rintro rfl
    obtain rfl : m' = m := by simpa [hrev] using hm
    rw [hk] at hm'
    cases hm'
    exact hne rfl
  exact ⟨m', j', hm', hj', by simpa [hnej] using hrev⟩

end

/-- Entries for two new keys. -/
lemma Inverse.insertMount (h : s.Inverse) (hk : s.getInodeKey m = .ok k)
    (hj : s.getInodeKey r = .ok j)
    (hnew : s.mountPoints k = none) (hrev : s.reverseMountPoints j = none) :
    (s.insertMount k r j m).Inverse :=
  ⟨fun _ _ => leadsBack_insert h.back hk hj hrev, fun _ _ => leadsBack_insert h.forth hj hk hnew⟩

/-- The entries of a mount lead to each other, so that none is left without the other. -/
lemma Inverse.removeMount (h : s.Inverse) (hr : s.mountPoints k = some r)
    (hj : s.getInodeKey r = .ok j) :
    (s.removeMount k j).Inverse := by
  obtain ⟨m, j₀, hm, hj₀, hrev⟩ := h.back k r hr
  obtain rfl : j₀ = j := by simpa [hj₀] using hj
  exact ⟨fun _ _ => leadsBack_remove h.back hm hrev, fun _ _ => leadsBack_remove h.forth hj hr⟩

/-- A mount can be undone, and then its two entries are gone and no others. -/
lemma Inverse.unmount_eq (h : s.Inverse) (hk : s.getInodeKey m = .ok k)
    (hr : s.mountPoints k = some r) :
    ∃ j, s.getInodeKey r = .ok j ∧ unmount m s = .ok () (s.removeMount k j) := by
  obtain ⟨m', j, -, hj, hrev⟩ := h.back k r hr
  exact ⟨j, hj, by simp [unmount, hk, hr, hj, hrev]⟩

end

/-- Every call that mounts a file system in one place at a time keeps the maps inverse to each
other. -/
lemma Inverse.step (h : s.Inverse) {c : Call F V} (hon : s.OnUncovered c) (hof : s.OfUnmounted c) :
    (s.step c).Inverse := by
  rcases s.step_cases c with
    hs | ⟨fs, root, hs⟩ | ⟨m, fs, k, r, j, rfl, hk, hr, hj, hs⟩ | ⟨m, k, r, j, -, -, hr, hj, hs⟩
  · rwa [hs]
  · rw [hs]
    exact ⟨h.registerFilesystem.back, h.registerFilesystem.forth⟩
  · rw [hs]
    exact h.registerFilesystem.insertMount hk hj (by simpa using hon k hk)
      (by simpa using hof r hr j hj)
  · rw [hs]
    exact h.removeMount hr hj

/-- Mounting and unmounting leaves the maps as they were. -/
lemma Inverse.unmount_mount (h : s.Inverse) (hon : s.OnUncovered (.mount m fs))
    (hof : s.OfUnmounted (.mount m fs))
    (hmount : mount m fs s = .ok () t) :
    ∃ u, unmount m t = .ok () u ∧ u.mountPoints = s.mountPoints ∧
    u.reverseMountPoints = s.reverseMountPoints := by
  rcases mount_cases s m fs with ⟨e, t', herr, -⟩ | ⟨k, r, j, hk, hr, hj, hok⟩
  · rw [herr] at hmount
    cases hmount
  rw [hok] at hmount
  cases hmount
  have hnew : s.mountPoints k = none := hon k hk
  have hrev : s.reverseMountPoints j = none := hof r hr j hj
  have hinverse :=
    h.registerFilesystem.insertMount hk hj (by simpa using hnew) (by simpa using hrev)
  obtain ⟨j', hj', hun⟩ := hinverse.unmount_eq (m := m) (k := k) (r := r) hk (update_self ..)
  obtain rfl : j' = j := by simpa [hj] using hj'.symm
  refine ⟨_, hun, ?_, ?_⟩
  · exact (update_idem ..).trans (by simp [← hnew])
  · exact (update_idem ..).trans (by simp [← hrev, insertMountPoint])

omit [DecidableEq F] in
/-- The way up from a mounted root goes on at the directory that it covers. -/
lemma Inverse.traversePath_up (h : s.Inverse) (hr : s.mountPoints k = some r) {startNode : V}
    (hpath : path ≠ [])
    (hend : s.traversePath startNode path = .ok v) (hv : s.getInodeKey v = s.getInodeKey r) :
    ∃ m, s.getInodeKey m = .ok k ∧
    s.traversePath startNode (path ++ ['/', '.', '.']) = lookup F m ['.', '.'] := by
  obtain ⟨m, j, hm, hj, hrev⟩ := h.back k r hr
  refine ⟨m, hm, ?_⟩
  have happend : path ++ ['/', '.', '.'] ≠ [] := by simp
  have hup : components ['.', '.'] = [['.', '.']] := by decide
  simp only [traversePath, happend, hpath, if_false] at hend ⊢
  cases hkey : s.getInodeKey startNode with
  | error e =>
    rw [hkey] at hend
    cases hend
  | ok key =>
    rw [hkey] at hend
    simp only [bind, Except.bind] at hend ⊢
    have hwalk : s.walk v ['.', '.'] = lookup F m ['.', '.'] := by
      simp [bind, Except.bind, walk, hv, hj, hrev]
    rw [components_append, foldlM_append, hend, hup]
    change s.walk v ['.', '.'] >>= pure = _
    rw [bind_pure, hwalk]

/-- If a directory is mounted on only while it is not covered, and a file system is mounted only
while it is not mounted elsewhere, then the two maps stay inverse to each other: every mount can be
undone, which takes its two entries away and leaves the maps as they are without it, and `..` from a
mounted root goes on at the directory that it covers. -/
theorem mounts_inverse (cs : List (Call F V)) (hon : AlongRun step OnUncovered boot cs)
    (hof : AlongRun step OfUnmounted boot cs) (s : Vfs F V) (hs : s = boot.run cs) :
    s.Inverse ∧
    (∀ m k r, s.getInodeKey m = .ok k → s.mountPoints k = some r →
      ∃ j, s.getInodeKey r = .ok j ∧ unmount m s = .ok () (s.removeMount k j)) ∧
    (∀ m fs t, s.OnUncovered (.mount m fs) → s.OfUnmounted (.mount m fs) → mount m fs s = .ok () t →
      ∃ u, unmount m t = .ok () u ∧ u.mountPoints = s.mountPoints ∧
      u.reverseMountPoints = s.reverseMountPoints) ∧
    ∀ k r startNode path v, s.mountPoints k = some r → path ≠ [] →
    s.traversePath startNode path = .ok v →
      s.getInodeKey v = s.getInodeKey r → ∃ m, s.getInodeKey m = .ok k ∧
          s.traversePath startNode (path ++ ['/', '.', '.']) = lookup F m ['.', '.'] := by
  subst hs
  have h : ((boot : Vfs F V).run cs).Inverse :=
    (hon.and hof).invariant (fun s c hs hc => hs.step hc.1 hc.2) inverse_boot
  exact ⟨h, fun m k r hk hr => h.unmount_eq hk hr,
    fun m fs t hm hfs ht => h.unmount_mount hm hfs ht,
    fun k r startNode path v hr hpath hend hv => h.traversePath_up hr hpath hend hv⟩

end

/-! ## Three small file systems -/

/-- A node of three file systems.  The root of the first one has the directories `a` and `b`; the
roots of the others have the directory `x`. -/
structure SmallNode where
  fs : Fin 3
  inumber : Fin 3
  deriving DecidableEq

/-- The names in the small file systems. -/
def SmallNode.lookup (v : SmallNode) (name : List Char) : Except FsError SmallNode :=
  if name = ['.', '.'] then .ok ⟨v.fs, 0⟩
  else if v.inumber ≠ 0 then .error .notFound
  else if v.fs = 0 then
    if name = ['a'] then .ok ⟨0, 1⟩
    else if name = ['b'] then .ok ⟨0, 2⟩
    else .error .notFound
  else if name = ['x'] then .ok ⟨v.fs, 1⟩
  else .error .notFound

instance : Filesystems (Fin 3) SmallNode where
  filesystem := SmallNode.fs
  getInumber v := v.inumber
  getType _ := .directory
  lookup := SmallNode.lookup
  getRoot fs := .ok ⟨fs, 0⟩
  unregistered _ := .notFound
  filesystem_lookup := by
    intro v w name h
    unfold SmallNode.lookup at h
    split_ifs at h with hup hroot hfirst ha hb hx
    · cases h; rfl
    · cases h; exact hfirst.symm
    · cases h; exact hfirst.symm
    · cases h; rfl
  filesystem_getRoot := by
    intro fs v h
    cases h
    rfl

/-- The second file system is mounted on the directory `a` of the first one. -/
def oneMount : List (Call (Fin 3) SmallNode) := [.setRoot 0, .mount ⟨0, 1⟩ 1]

/-- A walk to `a` and one from there to `x` are a walk to `a/x`. -/
theorem traversePath_append_mounted : (boot.run oneMount).traversePath ⟨0, 0⟩ ['a', '/', 'x'] =
      (boot.run oneMount).traversePath ⟨0, 0⟩ ['a'] >>= fun node =>
      (boot.run oneMount).traversePath node ['x'] := by
  refine (traversePath_append oneMount ⟨0, 0⟩ ['a'] (by decide)).mpr
    (fun node hnode k r hk hr => ?_) ['x']
    (by decide)
  have hroot : (boot.run oneMount).traversePath ⟨0, 0⟩ ['a'] = .ok ⟨1, 0⟩ := rfl
  rw [hroot] at hnode
  cases hnode
  cases hk
  cases hr

/-- The second file system is mounted on the directory at `a`, then the third one on what a walk to
`a` leads to. A walk to `a/x` and one that is begun again at `a` lead to different nodes. -/
theorem walk_again_differs : ∃ (s t : Vfs (Fin 3) SmallNode) (a root child other : SmallNode),
      s = boot.run [.setRoot 0] ∧ s.traversePath ⟨0, 0⟩ ['a'] = .ok a ∧ mount a 1 s = .ok () t ∧
      ∃ u, t.traversePath ⟨0, 0⟩ ['a'] = .ok root ∧ mount root 2 t = .ok () u ∧
        u.traversePath ⟨0, 0⟩ ['a', '/', 'x'] = .ok child ∧
        (u.traversePath ⟨0, 0⟩ ['a'] >>= fun node => u.traversePath node ['x']) = .ok other ∧
        u.getInodeKey child ≠ u.getInodeKey other := by
  refine ⟨boot.run [.setRoot 0], boot.run oneMount, ⟨0, 1⟩, ⟨1, 0⟩, ⟨1, 1⟩, ⟨2, 1⟩, rfl, rfl, rfl,
    boot.run (oneMount ++ [.mount ⟨1, 0⟩ 2]), rfl, rfl, rfl, rfl, ?_⟩
  intro h
  cases h

/-- Two file systems are mounted in two places, and one of them is unmounted. -/
theorem mounts_inverse_two : (boot.run (oneMount ++ [.mount ⟨0, 2⟩ 2, .unmount ⟨0, 1⟩])).Inverse :=
  (mounts_inverse (oneMount ++ [.mount ⟨0, 2⟩ 2, .unmount ⟨0, 1⟩]) (by decide) (by decide) _ rfl).1

/-- The second file system is mounted on `a` and on `b`: the root leads back to `b` only, and when
`a` is unmounted, `b` cannot be unmounted any more. -/
theorem mounted_twice : ∃ s t u v : Vfs (Fin 3) SmallNode,
      s = boot.run [.setRoot 0] ∧ mount ⟨0, 1⟩ 1 s = .ok () t ∧
      mount ⟨0, 2⟩ 1 t = .ok () u ∧ ¬u.Inverse ∧
      unmount ⟨0, 1⟩ u = .ok () v ∧
      (v.getInodeKey ⟨0, 2⟩ >>= fun k => .ok (v.mountPoints k)) = .ok (some ⟨1, 0⟩) ∧
      unmount ⟨0, 2⟩ v = .error (.corrupted "mount point is missing its reverse mapping") v := by
  refine ⟨boot.run [.setRoot 0], boot.run oneMount, boot.run (oneMount ++ [.mount ⟨0, 2⟩ 1]),
    boot.run (oneMount ++ [.mount ⟨0, 2⟩ 1, .unmount ⟨0, 1⟩]), rfl, rfl, rfl, ?_, rfl, rfl, rfl⟩
  intro h
  obtain ⟨m, j, hm, hj, hrev⟩ := h.back ⟨0, 1⟩ ⟨1, 0⟩ rfl
  cases hj
  cases hrev
  cases hm

end Vfs

end CabOS
