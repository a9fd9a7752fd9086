import Szczupak.Fs.RootDirectory
import Szczupak.Fs.VfsTree

/-!
A mounted volume in which every node keeps the slot of the root directory that it was mounted
from or created in, for as long as the entry there lives.  No routine reads the slots.  Every
call comes with the requests to the disk that fail in it.
-/

namespace Szczupak

def LiveAt (v : Volume) (bytes : Mem) (slot : Nat) : Prop :=
  slot < v.rootSlots ∧ entryLive (rootMem v bytes) slot = true ∧ ∀ earlier < slot,
    rootMem v bytes (earlier * 32) ≠ 0

instance (v : Volume) (bytes : Mem) (slot : Nat) : Decidable (LiveAt v bytes slot) :=
  inferInstanceAs (Decidable (_ ∧ _ ∧ ∀ earlier < slot, _))

def countedSlots (sector : Mem) : Nat → Nat → List Nat
  | 0, _ => []
  | remaining + 1, slot =>
      if sector (slot * 32) = 0 then []
      else if sector (slot * 32) = 0xE5 ∨ entryAttr sector slot = 0x0F then
        countedSlots sector remaining (slot + 1)
      else slot :: countedSlots sector remaining (slot + 1)

def mountedSlots (v : Volume) : Nat → Nat → Disk → List Nat
  | 0, _, _ => []
  | remaining + 1, sectorIndex, d =>
      match ataReadSector d (v.rootStart + sectorIndex) with
      | (none, d) => mountedSlots v remaining (sectorIndex + 1) d
      | (some sector, d) =>
          let here := (countedSlots sector 16 0).map (sectorIndex * 16 + ·)
          if (mountSlots sector 16 0).2 then here else here ++ mountedSlots v remaining (sectorIndex + 1) d

structure VolumeTree where
  vfs : Vfs
  own : Nat → Option Nat

inductive VolumeCall where
  | createFile (parent : Nat) (name : List UInt8) (block : Nat)
  | createDir (parent : Nat) (name : List UInt8) (block : Nat)
  | write (node offset : Nat) (bytes : List UInt8)
  | delete (node : Nat)

structure VolumeRequest where
  call : VolumeCall
  faults : List Nat

/-- The requests that fail, counted from the next one on. -/
def Vfs.failing (s : Vfs) (faults : List Nat) : Vfs :=
  { s with disk := { s.disk with faults := fun index => decide (index ∈ faults), calls := 0 } }

namespace VolumeTree

def keep (v : Volume) (vfs : Vfs) (own : Nat → Option Nat) : VolumeTree where
  vfs
  own node := if node ∈ vfs.nodes then (own node).filter fun slot =>
  decide (LiveAt v vfs.disk.bytes slot) else none

/-- `fat16_create` gives the blocks to the entries in order. -/
def mount (v : Volume) (disk : Disk) (fs root : Nat) (blocks : List Nat) : VolumeTree :=
  keep v ((Vfs.init disk).fat16CreateFs v fs root blocks).2 fun node =>
    if node = root then none else (mountedSlots v v.rootSectors 0 disk)[blocks.idxOf node]?

/-- What a create routine has made gets the slot that the scan found. -/
def made (v : Volume) (s : VolumeTree) (name : List UInt8) : Option Nat × Vfs → Bool × VolumeTree
  | (none, vfs) => (false, keep v vfs s.own)
  | (some node, vfs) =>
      (true, keep v vfs (Function.update s.own node
        ((scanRoot v (fat16NameTo83 name) v.rootSectors 0 s.vfs.disk).1.map FoundSlot.index)))

def call (v : Volume) (s : VolumeTree) : VolumeCall → Option (Bool × VolumeTree)
  | .createFile parent name block =>
      if parent ∈ s.vfs.nodes then
        some (s.made v name (s.vfs.fat16CreateFileNode v parent name block)) else none
  | .createDir parent name block =>
      if parent ∈ s.vfs.nodes then some (s.made v name (s.vfs.fat16CreateDirNode v parent name block)) else none
  | .write node offset bytes =>
      if node ∈ s.vfs.nodes then
        some (Prod.map id (keep v · s.own) (s.vfs.fat16WriteAt v node offset bytes))
      else none
  | .delete node =>
      if s.vfs.Listed node ∨ (s.vfs.node node).parent = 0 then
        some (Prod.map id (keep v · s.own) (s.vfs.fat16DeleteNode v node))
      else none

def request (v : Volume) (s : VolumeTree) (request : VolumeRequest) : Option (Bool × VolumeTree) :=
  ({ s with vfs := s.vfs.failing request.faults } : VolumeTree).call v request.call

def step (v : Volume) (s : VolumeTree) (request : VolumeRequest) : Option VolumeTree :=
  (s.request v request).map Prod.snd

def bytes (s : VolumeTree) : Mem := s.vfs.disk.bytes

/-- Where the chain of an entry starts: the node knows better than the entry. -/
def start (v : Volume) (s : VolumeTree) (slot : Nat) : Nat :=
  match s.vfs.nodes.find? fun node => s.own node == some slot with
  | some node => (s.vfs.fat16Node node).cluster
  | none => entryCluster (rootMem v s.bytes) slot

end VolumeTree

end Szczupak
