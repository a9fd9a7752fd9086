import Mathlib.Data.List.DropRight
import Szczupak.Fs.VfsCore

/-!
Mounting and paths: the rest of `fs/vfs.c`, the constructors of the two file systems, and the
calls of `task/syscall.c` that take a path.
-/

namespace Szczupak

/-- The end of a path that `vfs_mount_at` and `split_parent_name` look for: the part before the
last slash and the part behind it, trailing slashes aside. -/
def lastSlash (path : List UInt8) : List UInt8 × List UInt8 :=
  let stripped := path.rdropWhile (· == 47)
  ((stripped.rdropWhile (· != 47)).dropLast, stripped.rtakeWhile (· != 47))

def NameFits (name : List UInt8) (size : Nat) : Prop :=
  name ≠ [] ∧ name.length < size ∧ name ≠ [46] ∧ name ≠ [46, 46]

instance (name : List UInt8) (size : Nat) : Decidable (NameFits name size) :=
  inferInstanceAs (Decidable (_ ∧ _ ∧ _ ∧ _))

def parentPath (before : List UInt8) : List UInt8 := if before = [] then [47] else before

namespace Vfs

def addFilesystem (s : Vfs) (fs root : Nat) (ops : VfsOps) : Vfs := { s with
  node := Function.update s.node root {
    name := [47], isDirectory := true, size := 0, fsData := 0, fs, parent := 0, firstChild := 0
    nextSibling := 0 }
  filesystem := Function.update s.filesystem fs { ops, root }
  nodes := root :: s.nodes
  filesystems := fs :: s.filesystems }

def tmpfsCreate (s : Vfs) (fs root : Nat) : Nat × Vfs :=
  if s.kmalloc fs = 0 then (0, s)
  else if s.kmalloc root = 0 ∨ root = fs then (0, s)
  else (fs, s.addFilesystem fs root .tmpfs)

/-- The loop of `fat16_create` over the entries that count; `last` is `last_child`.  An entry
is left out where the heap has no room for its node. -/
def linkMounted (root : Nat) : List Fat16Node → List Nat → Nat → Vfs → Vfs
  | [], _, _, s => s
  | entry :: rest, blocks, last, s =>
      let block := blocks.headD 0
      if s.kmalloc block = 0 then linkMounted root rest blocks.tail last s
      else
        let made : Vfs := { s with
          node := Function.update s.node block {
            s.freshNode root entry.name entry.isDirectory entry.cluster with size := entry.size }
          nodes := block :: s.nodes }
        let linked :=
          if last = 0 then made.modify root fun old => { old with firstChild := block }
          else made.modify last fun old => { old with nextSibling := block }
        linkMounted root rest blocks.tail block linked

def fat16CreateFs (v : Volume) (s : Vfs) (fs root : Nat) (blocks : List Nat) : Nat × Vfs :=
  if s.kmalloc fs = 0 then (0, s)
  else if s.kmalloc root = 0 ∨ root = fs then (0, s)
  else
    match fat16Create v s.disk with
    | (entries, disk) =>
        (fs, linkMounted root entries blocks 0 (({ s with disk }).addFilesystem fs root .fat16))

def vfsMount (s : Vfs) (fs : Nat) (mountpoint : List UInt8) : Bool × Vfs :=
  if fs = 0 ∨ (s.filesystem fs).root = 0 then (false, s)
  else if mountpoint = [47] then (true, { s with root := (s.filesystem fs).root })
  else (false, s)

def mountParent (s : Vfs) (path : List UInt8) : Option (Nat × List UInt8) :=
  let (before, name) := lastSlash path
  if path.head? ≠ some 47 ∨ ¬NameFits name maxFilename ∨ maxPath ≤ before.length then none
  else
    match s.vfsResolvePath (parentPath before) with
    | none => none
    | some parent => if (s.node parent).isDirectory then some (parent, name) else none

def mountOver (s : Vfs) (fs mountPoint : Nat) : Vfs :=
  let mounted := s.modify mountPoint fun old =>
    { old with fs, firstChild := (s.node (s.filesystem fs).root).firstChild }
  let moved := mounted.children mountPoint
  { mounted with node := fun child =>
      if child ∈ moved then { mounted.node child with parent := mountPoint } else mounted.node child }

def vfsMountAt (s : Vfs) (fs : Nat) (path : List UInt8) (block : Nat) : Bool × Vfs :=
  if fs = 0 ∨ (s.filesystem fs).root = 0 ∨ s.root = 0 then (false, s)
  else if path = [47] then s.vfsMount fs [47]
  else
    match s.mountParent path with
    | none => (false, s)
    | some (parent, name) =>
        match s.findEither parent name with
        | none =>
            if s.kmalloc block = 0 then (false, s)
            else (true, (s.link parent block (s.freshNode parent name true 0)).mountOver fs block)
        | some mountPoint =>
            if (s.node mountPoint).isDirectory then (true, s.mountOver fs mountPoint) else (false, s)

/-- The loop of `vfs_ensure_directory`.  Each directory that is missing asks for a block. -/
def ensureFrom (v : Volume) : List (List UInt8) → Nat → List Nat → Vfs → Bool × Vfs
  | [], _, _, s => (true, s)
  | token :: rest, current, blocks, s =>
      if maxFilename ≤ token.length then (false, s)
      else if token = [46] then ensureFrom v rest current blocks s
      else if token = [46, 46] then (false, s)
      else
        match s.findEither current token with
        | some child =>
            if (s.node child).isDirectory then ensureFrom v rest child blocks s else (false, s)
        | none =>
            match s.vfsCreateDirectory v current token (blocks.headD 0) with
            | (none, s) => (false, s)
            | (some child, s) =>
                if (s.node child).isDirectory then ensureFrom v rest child blocks.tail s else (false, s)

def vfsEnsureDirectory (v : Volume) (s : Vfs) (path : List UInt8) (blocks : List Nat) : Bool × Vfs :=
  if s.root = 0 ∨ path.head? ≠ some 47 then (false, s)
  else ensureFrom v (pathTokens path) s.root blocks s

end Vfs

def execPathMax : Nat := 256
def fsIoBufMax : Nat := 4096

inductive FsRet where
  | ok
  | invalid
  | parent
  | exists
  | create
  | notFound
  | delete
deriving DecidableEq

/-- `copy_user_string` of memory that can be read. -/
def copyUserString (bytes : List UInt8) : Option (List UInt8) :=
  let path := cString bytes
  if path = [] ∨ execPathMax ≤ path.length then none else some path

def doubleSlash : List UInt8 → Bool
  | 47 :: 47 :: _ => true
  | _ :: rest => doubleSlash rest
  | [] => false

def splitParentName (absPath : List UInt8) (parentSize nameSize : Nat) :
    Option (List UInt8 × List UInt8) :=
  let (before, name) := lastSlash absPath
  if absPath.length < 2 ∨ absPath.head? ≠ some 47 then none
  else if doubleSlash (absPath.rdropWhile (· == 47)) then none
  else if NameFits name nameSize then
    if before = [] then some ([47], name)
    else if parentSize ≤ before.length then none
    else some (before, name)
  else none

namespace Vfs

/-- What the calls look up first: the directory and the name in it. -/
def parentOf (s : Vfs) (path : List UInt8) : FsRet ⊕ (Nat × List UInt8) :=
  match splitParentName path execPathMax maxFilename with
  | none => .inl .invalid
  | some (parentName, name) =>
      match s.vfsResolvePath parentName with
      | none => .inl .parent
      | some parent => if (s.node parent).isDirectory then .inr (parent, name) else .inl .parent

def sysFsTouch (v : Volume) (s : Vfs) (pathBytes : List UInt8) (block data : Nat) : FsRet × Vfs :=
  match copyUserString pathBytes with
  | none => (.invalid, s)
  | some path =>
      match s.parentOf path with
      | .inl error => (error, s)
      | .inr (parent, name) =>
          match s.vfsFindChildNocase parent name with
          | some existing => (if (s.node existing).isDirectory then .exists else .ok, s)
          | none =>
              match s.vfsCreateFile v parent name block data with
              | (none, s) => (.create, s)
              | (some _, s) => (.ok, s)

def sysFsMkdir (v : Volume) (s : Vfs) (pathBytes : List UInt8) (block : Nat) : FsRet × Vfs :=
  match copyUserString pathBytes with
  | none => (.invalid, s)
  | some path =>
      match s.parentOf path with
      | .inl error => (error, s)
      | .inr (parent, name) =>
          match s.vfsFindChildNocase parent name with
          | some _ => (.exists, s)
          | none =>
              match s.vfsCreateDirectory v parent name block with
              | (none, s) => (.create, s)
              | (some _, s) => (.ok, s)

/-- `none` where `vfs_delete` works on what is no data of the node. -/
def sysFsDelete (v : Volume) (s : Vfs) (pathBytes : List UInt8) : Option (FsRet × Vfs) :=
  match copyUserString pathBytes with
  | none => some (.invalid, s)
  | some path =>
      match s.parentOf path with
      | .inl error => some (error, s)
      | .inr (parent, name) =>
          match s.vfsFindChildNocase parent name with
          | none => some (.notFound, s)
          | some node =>
              (s.vfsDelete v node).map fun (ok, s) => (if ok then .ok else .delete, s)

def openOrCreateFileForWrite (v : Volume) (s : Vfs) (path : List UInt8) (block data : Nat) :
    Option Nat × Vfs :=
  match s.vfsResolvePath path with
  | some node => (if (s.node node).isDirectory then none else some node, s)
  | none =>
      match s.parentOf path with
      | .inl _ => (none, s)
      | .inr (parent, name) =>
          match s.vfsFindChildNocase parent name with
          | some node => (if (s.node node).isDirectory then none else some node, s)
          | none =>
              match s.vfsCreateFile v parent name block data with
              | (none, s) => (none, s)
              | (some node, s) => (if (s.node node).isDirectory then none else some node, s)

/-- `sys_fs_write` of bytes that can be read; true is a result other than -1. -/
def sysFsWrite (v : Volume) (s : Vfs) (pathBytes : List UInt8) (offset : Nat) (bytes : List UInt8)
    (block data buffer : Nat) : Option (Bool × Vfs) :=
  if bytes = [] then some (true, s)
  else
    match copyUserString pathBytes with
    | none => some (false, s)
    | some path =>
        match s.openOrCreateFileForWrite v path block data with
        | (none, s) => some (false, s)
        | (some file, s) => s.vfsWrite v file offset (bytes.take fsIoBufMax) buffer

end Vfs

structure BootBlocks where
  fat : Nat
  fatRoot : Nat
  entries : List Nat
  dirs : List (List Nat)
  tmp : Nat
  tmpRoot : Nat
  tmpPoint : Nat
  log : Nat
  logRoot : Nat
  logPoint : Nat

def persistentDirs : List (List UInt8) :=
  [[47, 101, 116, 99], [47, 104, 111, 109, 101], [47, 118, 97, 114], [47, 98, 111, 111, 116]]

def tmpPath : List UInt8 := [47, 116, 109, 112]

def logPath : List UInt8 := [47, 118, 97, 114, 47, 108, 111, 103]

namespace Vfs

def ensureAll (v : Volume) : List (List UInt8) → List (List Nat) → Vfs → Vfs
  | [], _, s => s
  | path :: rest, blocks, s => ensureAll v rest blocks.tail
    (s.vfsEnsureDirectory v path (blocks.headD [])).2

/-- `tmpfs_create` and `vfs_mount_at`, as the kernel calls them; false is no file system. -/
def mountTmpfs (s : Vfs) (fs root block : Nat) (path : List UInt8) : Bool × Vfs :=
  match s.tmpfsCreate fs root with
  | (0, s) => (false, s)
  | (tmpfs, s) => (true, (s.vfsMountAt tmpfs path block).2)

def bootstrapFilesystemLayout (v : Volume) (s : Vfs) (b : BootBlocks) : Vfs :=
  match (ensureAll v persistentDirs b.dirs s).mountTmpfs b.tmp b.tmpRoot b.tmpPoint tmpPath with
  | (false, s) => s
  | (true, s) => (s.mountTmpfs b.log b.logRoot b.logPoint logPath).2

/-- `mount_boot_filesystem` of a volume that `fat16_mount` accepts, and the layout behind it. -/
def bootFilesystem (v : Volume) (disk : Disk) (b : BootBlocks) : Vfs :=
  match (init disk).fat16CreateFs v b.fat b.fatRoot b.entries with
  | (0, s) => s
  | (fat, s) =>
      match s.vfsMount fat [47] with
      | (false, s) => s
      | (true, s) => s.bootstrapFilesystemLayout v b

end Vfs

inductive FileCall where
  | touch (path : List UInt8) (block data : Nat)
  | mkdir (path : List UInt8) (block : Nat)
  | delete (path : List UInt8)
  | write (path : List UInt8) (offset : Nat) (bytes : List UInt8) (block data buffer : Nat)

namespace Vfs

def fileCall (v : Volume) (s : Vfs) : FileCall → Option (Bool × Vfs)
  | .touch path block data => some (Prod.map (· == FsRet.ok) id (s.sysFsTouch v path block data))
  | .mkdir path block => some (Prod.map (· == FsRet.ok) id (s.sysFsMkdir v path block))
  | .delete path => (s.sysFsDelete v path).map (Prod.map (· == FsRet.ok) id)
  | .write path offset bytes block data buffer => s.sysFsWrite v path offset bytes block data buffer

def fileStep (v : Volume) (s : Vfs) (call : FileCall) : Option Vfs :=
  (s.fileCall v call).map Prod.snd

end Vfs

end Szczupak
