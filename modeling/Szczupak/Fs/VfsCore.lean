import Mathlib.Logic.Function.Basic
import Szczupak.Fs.Fat16Core

/-!
The tree of nodes, `fs/vfs.c`, over the two back ends `fs/fat16.c` and `fs/tmpfs.c`.  A node is
the contents of the block at its address and address 0 is null; a freed block may be handed out
again.  Every call is given the answers of `kmalloc` to it, 0 where the heap has no room.

A string is the list of its bytes before the terminator.
-/

namespace Szczupak

structure VfsNode where
  name : List UInt8
  isDirectory : Bool
  size : Nat
  fsData : Nat
  fs : Nat
  parent : Nat
  firstChild : Nat
  nextSibling : Nat
deriving DecidableEq, Inhabited

inductive VfsOps where
  | fat16
  | tmpfs
deriving DecidableEq, Inhabited

structure VfsFilesystem where
  ops : VfsOps
  root : Nat
deriving Inhabited

structure TmpfsData where
  data : Nat
  allocatedSize : Nat
deriving Inhabited

/-- The last four lists are the blocks in use, by what they hold. -/
structure Vfs where
  node : Nat → VfsNode
  filesystem : Nat → VfsFilesystem
  tmpfsData : Nat → TmpfsData
  root : Nat
  disk : Disk
  nodes : List Nat
  filesystems : List Nat
  datas : List Nat
  buffers : List Nat

def maxFilename : Nat := 256
def maxPath : Nat := 1024

namespace Vfs

def init (disk : Disk) : Vfs where
  node _ := default
  filesystem _ := default
  tmpfsData _ := default
  root := 0
  disk := disk
  nodes := []
  filesystems := []
  datas := []
  buffers := []

def InUse (s : Vfs) (address : Nat) : Prop :=
  address ∈ s.nodes ∨ address ∈ s.filesystems ∨ address ∈ s.datas ∨ address ∈ s.buffers

instance (s : Vfs) (address : Nat) : Decidable (s.InUse address) :=
  inferInstanceAs (Decidable (_ ∨ _ ∨ _ ∨ _))

/-- `kmalloc` gives out no block twice. -/
def kmalloc (s : Vfs) (answer : Nat) : Nat := if s.InUse answer then 0 else answer

def modify (s : Vfs) (address : Nat) (change : VfsNode → VfsNode) : Vfs :=
  { s with node := Function.update s.node address (change (s.node address)) }

def next (s : Vfs) (address : Nat) : Nat := (s.node address).nextSibling

def siblings (next : Nat → Nat) : Nat → Nat → List Nat
  | 0, _ => []
  | fuel + 1, address => if address = 0 then [] else address :: siblings next fuel (next address)

/-- The list that the loops over the children of a node walk.  It ends at the null pointer when
it has no more nodes than there are. -/
def children (s : Vfs) (parent : Nat) : List Nat :=
  siblings s.next s.nodes.length (s.node parent).firstChild

def findChildWith (s : Vfs) (parent : Nat) (test : List UInt8 → Bool) : Option Nat :=
  if parent = 0 ∨ (s.node parent).isDirectory = false then none
  else (s.children parent).find? fun child => test (s.node child).name

end Vfs

def streqNocase : List UInt8 → List UInt8 → Bool
  | [], [] => true
  | a :: as, b :: bs => upper a == upper b && streqNocase as bs
  | _, _ => false

namespace Vfs

def vfsFindChild (s : Vfs) (parent : Nat) (name : List UInt8) : Option Nat :=
  s.findChildWith parent fun other => other == name

def vfsFindChildNocase (s : Vfs) (parent : Nat) (name : List UInt8) : Option Nat :=
  s.findChildWith parent fun other => streqNocase other name

def findEither (s : Vfs) (parent : Nat) (name : List UInt8) : Option Nat :=
  match s.vfsFindChild parent name with
  | some child => some child
  | none => s.vfsFindChildNocase parent name

end Vfs

def tokensFrom (token : List UInt8) : List UInt8 → List (List UInt8)
  | [] => if token = [] then [] else [token]
  | char :: rest =>
      if char = 47 then
        if token = [] then tokensFrom [] rest else token :: tokensFrom [] rest
      else tokensFrom (token ++ [char]) rest

def pathTokens (path : List UInt8) : List (List UInt8) := tokensFrom [] path

namespace Vfs

def enter (s : Vfs) (current : Nat) (token : List UInt8) : Option Nat :=
  if maxFilename ≤ token.length then none
  else if token = [46] then some current
  else if token = [46, 46] then
    if (s.node current).parent ≠ 0 then some (s.node current).parent else some current
  else s.findEither current token

def vfsResolvePath (s : Vfs) (path : List UInt8) : Option Nat :=
  if s.root = 0 ∨ path.head? ≠ some 47 then none
  else (pathTokens path).foldlM s.enter s.root

def link (s : Vfs) (parent block : Nat) (node : VfsNode) : Vfs :=
  ({ s with
      node := Function.update s.node block { node with nextSibling := (s.node parent).firstChild }
      nodes := block :: s.nodes }).modify parent fun old => { old with firstChild := block }

def freshNode (s : Vfs) (parent : Nat) (name : List UInt8) (isDirectory : Bool)
    (fsData : Nat) : VfsNode where
  name := name
  isDirectory := isDirectory
  size := 0
  fsData := fsData
  fs := (s.node parent).fs
  parent := parent
  firstChild := 0
  nextSibling := 0

def tmpfsCreateFile (s : Vfs) (parent : Nat) (name : List UInt8) (block data : Nat) :
    Option Nat × Vfs :=
  if parent = 0 ∨ (s.node parent).isDirectory = false then (none, s)
  else if (s.vfsFindChild parent name).isSome then (none, s)
  else if s.kmalloc block = 0 then (none, s)
  else if s.kmalloc data = 0 ∨ data = block then (none, s)
  else
    let filled : Vfs := { s with
      tmpfsData := Function.update s.tmpfsData data { data := 0, allocatedSize := 0 }
      datas := data :: s.datas }
    (some block, filled.link parent block (s.freshNode parent (name.take (maxFilename - 1)) false data))

def tmpfsCreateDir (s : Vfs) (parent : Nat) (name : List UInt8) (block : Nat) : Option Nat × Vfs :=
  if parent = 0 ∨ (s.node parent).isDirectory = false then (none, s)
  else if (s.vfsFindChild parent name).isSome then (none, s)
  else if s.kmalloc block = 0 then (none, s)
  else (some block, s.link parent block (s.freshNode parent (name.take (maxFilename - 1)) true 0))

def prevSibling (s : Vfs) (node : Nat) : Option Nat :=
  (s.children (s.node node).parent).find? fun prev => s.next prev == node

/-- Taking a node out of the list of its parent; `none` is a node that is not in it. -/
def unlink (s : Vfs) (node : Nat) : Option Vfs :=
  let parent := (s.node node).parent
  if (s.node parent).firstChild = node then
    some (s.modify parent fun old => { old with firstChild := s.next node })
  else
    (s.prevSibling node).map fun prev => s.modify prev fun old => { old with nextSibling := s.next node }

/-- `none` is a `fs_data` that is not null and no `tmpfs_data_t`: nothing is said of what the
routine does with it. -/
def tmpfsDelete (s : Vfs) (node : Nat) : Option (Bool × Vfs) :=
  if node = 0 then some (false, s)
  else if (s.node node).isDirectory ∧ (s.node node).firstChild ≠ 0 then some (false, s)
  else if (s.node node).parent = 0 then some (false, s)
  else
    let unlinked := (s.unlink node).getD s
    let fsData := (s.node node).fsData
    if fsData = 0 then some (true, { unlinked with nodes := s.nodes.erase node })
    else if fsData ∈ s.datas then
      some (true, { unlinked with
        nodes := s.nodes.erase node
        datas := s.datas.erase fsData
        buffers := s.buffers.erase (s.tmpfsData fsData).data })
    else none

/-- `tmpfs_write`, without the bytes.  `block` is the answer of `kmalloc` where the buffer has
to grow. -/
def tmpfsWriteNode (s : Vfs) (node offset length block : Nat) : Option (Bool × Vfs) :=
  if node = 0 ∨ (s.node node).isDirectory ∨ (s.node node).fsData = 0 then some (false, s)
  else
    let fsData := (s.node node).fsData
    if fsData ∈ s.datas then
      let data := s.tmpfsData fsData
      let neededSize := (offset + length) % 2 ^ 64
      let sized (s : Vfs) : Vfs :=
        if neededSize > (s.node node).size then s.modify node fun old => { old with size := neededSize }
        else s
      if neededSize > data.allocatedSize then
        if s.kmalloc block = 0 then some (false, s)
        else
          some (true, sized { s with
            tmpfsData := Function.update s.tmpfsData fsData
              { data := block, allocatedSize := neededSize * 2 % 2 ^ 64 }
            buffers := block :: s.buffers.erase data.data })
      else some (true, sized s)
    else none

def fat16Node (s : Vfs) (node : Nat) : Fat16Node where
  name := (s.node node).name
  isDirectory := (s.node node).isDirectory
  size := (s.node node).size
  cluster := (s.node node).fsData % 2 ^ 16

/-- Nodes can be created in the root of a volume alone. -/
def fat16Root (s : Vfs) (parent : Nat) : Bool :=
  parent != 0 && (s.node parent).isDirectory && (s.node parent).parent == 0

def fat16Link (s : Vfs) (parent block : Nat) (made : Option Fat16Node × Disk) : Option Nat × Vfs :=
  match made with
  | (none, disk) => (none, { s with disk })
  | (some node, disk) =>
      (some block, ({ s with disk }).link parent block
        (s.freshNode parent node.name node.isDirectory node.cluster))

def fat16CreateFileNode (v : Volume) (s : Vfs) (parent : Nat) (name : List UInt8) (block : Nat) :
    Option Nat × Vfs :=
  if s.fat16Root parent then
    s.fat16Link parent block (fat16CreateFile v s.disk name (s.kmalloc block != 0))
  else (none, s)

def fat16CreateDirNode (v : Volume) (s : Vfs) (parent : Nat) (name : List UInt8) (block : Nat) :
    Option Nat × Vfs :=
  if s.fat16Root parent then
    s.fat16Link parent block (fat16CreateDir v s.disk name (s.kmalloc block != 0))
  else (none, s)

def fat16DeleteNode (v : Volume) (s : Vfs) (node : Nat) : Bool × Vfs :=
  let parent := (s.node node).parent
  if node = 0 ∨ parent = 0 then (false, s)
  else if (s.node parent).parent ≠ 0 then (false, s)
  else if (s.node node).isDirectory ∧ (s.node node).firstChild ≠ 0 then (false, s)
  else
    match fat16Delete v s.disk (s.node node).name with
    | (false, disk) => (false, { s with disk })
    | (true, disk) =>
        match ({ s with disk }).unlink node with
        | none => (false, { s with disk })
        | some unlinked => (true, { unlinked with nodes := s.nodes.erase node })

def fat16WriteAt (v : Volume) (s : Vfs) (node offset : Nat) (bytes : List UInt8) : Bool × Vfs :=
  if node = 0 then (false, s)
  else
    match fat16WriteNode v s.disk (s.fat16Node node) bytes offset with
    | (ok, written, disk) =>
        (ok, ({ s with disk }).modify node fun old =>
          { old with
            size := written.size
            fsData := if written.cluster = (s.fat16Node node).cluster then old.fsData else written.cluster })

def ops (s : Vfs) (node : Nat) : VfsOps := (s.filesystem (s.node node).fs).ops

def vfsCreateFile (v : Volume) (s : Vfs) (parent : Nat) (name : List UInt8) (block data : Nat) :
    Option Nat × Vfs :=
  if parent = 0 ∨ (s.node parent).fs = 0 then (none, s)
  else
    match s.ops parent with
    | .fat16 => s.fat16CreateFileNode v parent name block
    | .tmpfs => s.tmpfsCreateFile parent name block data

def vfsCreateDirectory (v : Volume) (s : Vfs) (parent : Nat) (name : List UInt8) (block : Nat) :
    Option Nat × Vfs :=
  if parent = 0 ∨ (s.node parent).fs = 0 then (none, s)
  else
    match s.ops parent with
    | .fat16 => s.fat16CreateDirNode v parent name block
    | .tmpfs => s.tmpfsCreateDir parent name block

def vfsDelete (v : Volume) (s : Vfs) (node : Nat) : Option (Bool × Vfs) :=
  if node = 0 ∨ (s.node node).fs = 0 then some (false, s)
  else
    match s.ops node with
    | .fat16 => some (s.fat16DeleteNode v node)
    | .tmpfs => s.tmpfsDelete node

def vfsWrite (v : Volume) (s : Vfs) (node offset : Nat) (bytes : List UInt8) (block : Nat) :
    Option (Bool × Vfs) :=
  if node = 0 ∨ (s.node node).fs = 0 then some (false, s)
  else
    match s.ops node with
    | .fat16 => some (s.fat16WriteAt v node offset bytes)
    | .tmpfs => s.tmpfsWriteNode node offset bytes.length block

end Vfs

end Szczupak
