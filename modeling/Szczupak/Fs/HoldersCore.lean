import Szczupak.Fs.ChainCalls
import Szczupak.Fs.ClusterSearch
import Szczupak.Fs.Creation
import Szczupak.Fs.VolumeTreeCore

/-!
Who has the clusters of a mounted volume: the nodes of the tree, the entries of the root
directory that have no node, and the entries of the directories below it, which the driver never
makes nodes of.  The calls that lose no cluster are told by the entries and requests that they
come to.
-/

namespace Szczupak

def innerLive (bytes : Mem) (address : Nat) : Prop :=
  bytes address ≠ 0 ∧ bytes address ≠ 0xE5 ∧ bytes (address + 11) ≠ 0x0F ∧ bytes address ≠ 46

def attrIsDirectory (attr : UInt8) : Prop := attr.toNat / 16 % 2 = 1

instance (attr : UInt8) : Decidable (attrIsDirectory attr) := inferInstanceAs (Decidable (_ = _))

def EntryIn (v : Volume) (bytes : Mem) (cluster address : Nat) : Prop :=
  ∃ chain index, ChainFrom v bytes cluster chain ∧ index * 32 < chain.length * v.clusterSize ∧
    address = chainAddr v chain (index * 32) ∧ innerLive bytes address ∧
    ∀ earlier < index, bytes (chainAddr v chain (earlier * 32)) ≠ 0

inductive Inner (v : Volume) (bytes : Mem) (tops : Set Nat) : Nat → Prop
  | top {cluster address : Nat} (isTop : cluster ∈ tops) (entry : EntryIn v bytes cluster address) :
      Inner v bytes tops address
  | under {dir address : Nat} (inner : Inner v bytes tops dir)
      (directory : attrIsDirectory (bytes (dir + 11)))
      (entry : EntryIn v bytes (bytes.readU16 (dir + 26)) address) : Inner v bytes tops address

inductive Holder where
  | node (node : Nat)
  | slot (slot : Nat)
  | inner (address : Nat)
deriving DecidableEq

def inUse (v : Volume) (bytes : Mem) : Set Nat :=
  { cluster | 2 ≤ cluster ∧ cluster < v.fatEntries ∧ fatEntry v bytes cluster ≠ 0 }

namespace VolumeTree

def unmounted (disk : Disk) : VolumeTree := ⟨Vfs.init disk, fun _ => none⟩

/-- The first clusters of the directories at the root, those without a node included. -/
def tops (v : Volume) (s : VolumeTree) : Set Nat := { cluster |
  (∃ node ∈ s.vfs.nodes, (s.vfs.fat16Node node).isDirectory = true ∧
  (s.vfs.fat16Node node).cluster = cluster) ∨
  ∃ slot, LiveAt v s.bytes slot ∧ (∀ node, s.own node ≠ some slot) ∧
    attrIsDirectory (entryAttr (rootMem v s.bytes) slot) ∧
    entryCluster (rootMem v s.bytes) slot = cluster }

def Holds (v : Volume) (s : VolumeTree) : Holder → Prop
  | .node node => node ∈ s.vfs.nodes
  | .slot slot => LiveAt v s.bytes slot ∧ ∀ node, s.own node ≠ some slot
  | .inner address => Inner v s.bytes (s.tops v) address

def first (v : Volume) (s : VolumeTree) : Holder → Nat
  | .node node => (s.vfs.fat16Node node).cluster
  | .slot slot => entryCluster (rootMem v s.bytes) slot
  | .inner address => s.bytes.readU16 (address + 26)

def IsDirectory (v : Volume) (s : VolumeTree) : Holder → Prop
  | .node node => (s.vfs.fat16Node node).isDirectory = true
  | .slot slot => attrIsDirectory (entryAttr (rootMem v s.bytes) slot)
  | .inner address => attrIsDirectory (s.bytes (address + 11))

def share (v : Volume) (s : VolumeTree) (holder : Holder) : Set Nat := { cluster |
  s.Holds v holder ∧ ∃ chain, ChainFrom v s.bytes (s.first v holder) chain ∧ cluster ∈ chain }

/-- Every live file and directory has a chain, and every entry of the table that is not zero
belongs to the chain of exactly one of them. -/
structure Accounted (v : Volume) (s : VolumeTree) : Prop where
  chained : ∀ holder, s.Holds v holder → ∃ chain, ChainFrom v s.bytes (s.first v holder) chain
  owner : ∀ cluster ∈ inUse v s.bytes, ∃! holder, cluster ∈ s.share v holder

end VolumeTree

def EntryWritten (v : Volume) (faults : Nat → Bool) (call : Nat) : Prop :=
  ∀ k < 2 * v.numFats, faults (call + k) = false

def EntryStopped (faults : Nat → Bool) (call : Nat) : Prop := faults call = true ∨
    faults (call + 1) = true

def EndsChain (v : Volume) (bytes : Mem) (cluster : Nat) : Prop :=
  fatEntry v bytes cluster < 2 ∨ 0xFFF8 ≤ fatEntry v bytes cluster

instance (v : Volume) (bytes : Mem) (cluster : Nat) : Decidable (EndsChain v bytes cluster) :=
  inferInstanceAs (Decidable (_ ∨ _))

/-- A cluster that `fat16_allocate_cluster` comes to is a free one in the table, and is marked in
every copy and cleared; or its first mark fails. -/
def TakesWhole (v : Volume) (d : Disk) : Prop :=
  ∀ cluster, FirstCandidate v d cluster → marksDone v (d.later (cluster - 1)) = 0 ∨
    FreeCluster v d.bytes cluster ∧ clearsDone v (d.later (cluster - 1)) = v.sectorsPerCluster

/-- Where the chain ends, or its entry cannot be read, no cluster is taken, or one is taken and
linked behind the end. -/
def LinksWhole (v : Volume) (d : Disk) (current : Nat) : Prop :=
  d.faults d.calls = true ∨ EndsChain v d.bytes current →
    TakesWhole v d.called ∧ ∀ cluster, FirstCandidate v d.called cluster →
      clearsDone v (d.called.later (cluster - 1)) = v.sectorsPerCluster →
        EndsChain v d.bytes current ∧ EntryWritten v d.faults (entryCall v d.called cluster)

def SkipsWhole (v : Volume) : Nat → Nat → Disk → Prop
  | 0, _, _ => True
  | skip + 1, current, d =>
      LinksWhole v d current ∧
        ∀ next after, nextOrAllocate v d current = (some next, after) → SkipsWhole v skip next after

def WritesWhole (v : Volume) (data : List UInt8) : Nat → Nat → Nat → Nat → Disk → Prop
  | 0, _, _, _, _ => True
  | turns + 1, current, intra, written, d =>
      ∀ now middle, writeSectors (v.clusterSector current) intra data v.sectorsPerCluster 0 written
        d = (some now, middle) → now < data.length → LinksWhole v middle current ∧
          ∀ next after, nextOrAllocate v middle current = (some next, after) →
            WritesWhole v data turns next 0 now after

def WriteWhole (v : Volume) (d : Disk) (node : Fat16Node) (data : List UInt8) (offset : Nat) : Prop :=
  node.isDirectory = false → data.length ≠ 0 → offset + data.length < 2 ^ 64 →
    (node.cluster < 2 → TakesWhole v d) ∧
    ∀ cluster afterFirst, firstCluster v d node = (some cluster, afterFirst) →
      SkipsWhole v (offset / v.clusterSize) cluster afterFirst ∧
      ∀ current afterSkip, skipOrAllocate v (offset / v.clusterSize) cluster afterFirst =
      (some current, afterSkip) →
        WritesWhole v data data.length current (offset % v.clusterSize) 0 afterSkip

/-- Where the slot of an end mark is taken, the entries that show up behind it name no clusters. -/
def ShowsNothing (v : Volume) (bytes : Mem) (index : Nat) : Prop :=
  rootMem v bytes (index * 32) = 0 → ∀ slot < v.rootSlots, index < slot →
    entryLive (rootMem v bytes) slot = true →
    (∀ between < slot, index < between → rootMem v bytes (between * 32) ≠ 0) →
    entryCluster (rootMem v bytes) slot < 2

/-- No entry in front of the end of a directory's chain fails to be read in the check that it is
empty. -/
def ChecksWhole (v : Volume) : Nat → Nat → Disk → Prop
  | 0, _, _ => True
  | guard + 1, cluster, d =>
      2 ≤ cluster → cluster < 0xFFF8 →
        ∀ middle, clusterEmpty (v.clusterSector cluster) v.sectorsPerCluster 0 d = (none, middle) →
          (middle.faults middle.calls = false ∨ EndsChain v d.bytes cluster) ∧
            ChecksWhole v guard (fatEntry v d.bytes cluster) middle.called

/-- No request fails in the release of a chain and in the write of the entry behind it; the last
entry of the chain need not be read. -/
def ReleasesWhole (v : Volume) : Nat → Nat → Disk → Prop
  | 0, _, _ => True
  | guard + 1, cluster, d =>
      if cluster < 2 ∨ 0xFFF8 ≤ cluster then d.faults d.calls = false
      else
        (d.faults d.calls = false ∨ EndsChain v d.bytes cluster) ∧ EntryWritten v d.faults (d.calls + 1) ∧
          ReleasesWhole v guard (fatEntry v d.bytes cluster) (fat16WriteFatEntry v d.called cluster 0).2

def StopsBeforeWrite (d : Disk) (start : Nat) : Prop :=
  if 2 ≤ start then EntryStopped d.faults (d.calls + 1)
  else d.faults d.calls = true

namespace VolumeTree

def CreateFileWhole (v : Volume) (s : VolumeTree) (parent : Nat) (name : List UInt8) : Prop :=
  s.vfs.fat16Root parent = true → ∀ found after,
    scanRoot v (fat16NameTo83 name) v.rootSectors 0 s.vfs.disk = (some found, after) →
      after.faults after.calls = true ∨ ShowsNothing v s.bytes found.index

/-- The cluster is taken.  Where the entry cannot be written it is given up again; behind the entry
it stays with the node, or with the entry alone, if that shows, where giving it up fails at once. -/
def CreateDirWhole (v : Volume) (s : VolumeTree) (parent : Nat) (name : List UInt8)
    (block : Nat) : Prop :=
  s.vfs.fat16Root parent = true → ∀ found after,
    scanRoot v (fat16NameTo83 name) v.rootSectors 0 s.vfs.disk = (some found, after) →
      TakesWhole v after ∧ ∀ cluster, FirstCandidate v after cluster →
        clearsDone v (after.later (cluster - 1)) = v.sectorsPerCluster →
          if after.faults (entryCall v after cluster) = true then
            EntryWritten v after.faults (entryCall v after cluster + 1)
          else ShowsNothing v s.bytes found.index ∧ (s.vfs.kmalloc block ≠ 0 ∨
            (fat16NameTo83 name).getD 0 0 ≠ 0xE5 ∧ EntryStopped after.faults (entryCall v after cluster + 1))

/-- The entry that is found under the name of the node is its own and names its first cluster, or
neither names any. -/
def FindsChain (v : Volume) (s : VolumeTree) (node slot : Nat) : Prop :=
  s.own node = some slot ∧ entryCluster (rootMem v s.bytes) slot = (s.vfs.fat16Node node).cluster ∨
    entryCluster (rootMem v s.bytes) slot < 2 ∧ (s.vfs.fat16Node node).cluster < 2

/-- Whether the directory that the entry found names is empty; a file has no entries. -/
def foundEmpty (v : Volume) (found : FoundSlot) (d : Disk) : Bool × Disk :=
  if (entryAttr found.sector found.slot).toNat / 16 % 2 = 1 then
    fat16DirectoryClusterEmpty v d (entryCluster found.sector found.slot)
  else (true, d)

def DeleteWhole (v : Volume) (s : VolumeTree) (node : Nat) : Prop :=
  (s.vfs.node (s.vfs.node node).parent).parent = 0 →
    ((s.vfs.node node).isDirectory = true → (s.vfs.node node).firstChild = 0) → ∀ found after,
      findRoot v (fat16NameTo83 (s.vfs.node node).name) v.rootSectors 0 s.vfs.disk =
        (some found, after) → ChecksWhole v 0x10000 (entryCluster found.sector found.slot) after ∧
        ∀ looked, foundEmpty v found after = (true, looked) →
          StopsBeforeWrite looked (entryCluster found.sector found.slot) ∨
            ReleasesWhole v 0x10000 (entryCluster found.sector found.slot) looked ∧
            s.FindsChain v node found.index

def CallWhole (v : Volume) (s : VolumeTree) : VolumeCall → Prop
  | .createFile parent name _ => s.CreateFileWhole v parent name
  | .createDir parent name block => s.CreateDirWhole v parent name block
  | .write node offset bytes => WriteWhole v s.vfs.disk (s.vfs.fat16Node node) bytes offset
  | .delete node => s.DeleteWhole v node

def KeepsTrack (v : Volume) (s : VolumeTree) (request : VolumeRequest) : Prop :=
  ({ s with vfs := s.vfs.failing request.faults } : VolumeTree).CallWhole v request.call

end VolumeTree

end Szczupak
