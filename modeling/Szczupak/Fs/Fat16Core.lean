import Szczupak.Lib.ByteMemory

/-!
The FAT16 driver, `fs/fat16.c`, on a disk of bytes.  `faults` says which calls of the ATA layer
fail; a failed write changes nothing.  Every routine gives its result and the disk after it,
`none` where the source returns false or null.

The kernel mounts at sector 0 and no sector of a volume is numbered 2^26 or more above the
first, so the 32-bit sums of the source do not wrap.
-/

namespace Szczupak

/-- `allocated` records the clusters that `fat16_allocate_cluster` took; no routine reads it. -/
structure Disk where
  bytes : Mem
  faults : Nat → Bool
  calls : Nat
  allocated : List Nat

def Disk.called (d : Disk) : Disk := { d with calls := d.calls + 1 }

def Disk.overwrite (d : Disk) (lba : Nat) (sector : Mem) : Mem := fun address =>
  if lba * 512 ≤ address ∧ address < lba * 512 + 512 then sector (address - lba * 512)
  else d.bytes address

def ataReadSector (d : Disk) (lba : Nat) : Option Mem × Disk :=
  if d.faults d.calls then (none, d.called)
  else (some fun index => d.bytes (lba * 512 + index), d.called)

def ataWriteSector (d : Disk) (lba : Nat) (sector : Mem) : Bool × Disk :=
  if d.faults d.calls then (false, d.called)
  else (true, { d.called with bytes := d.overwrite lba sector })

structure Volume where
  startLba : Nat
  reservedSectors : Nat
  sectorsPerCluster : Nat
  numFats : Nat
  rootEntries : Nat
  sectorsPerFat : Nat
  clusterPos : 0 < sectorsPerCluster
  fatsPos : 0 < numFats
  rootPos : 0 < rootEntries
  fatPos : 0 < sectorsPerFat

namespace Volume

def fatStart (v : Volume) : Nat := v.startLba + v.reservedSectors
def rootStart (v : Volume) : Nat := v.fatStart + v.numFats * v.sectorsPerFat

def rootSectors (v : Volume) : Nat := (v.rootEntries * 32 + 511) / 512

def dataStart (v : Volume) : Nat := v.rootStart + v.rootSectors
def clusterSector (v : Volume) (cluster : Nat) : Nat :=
  v.dataStart + (cluster - 2) * v.sectorsPerCluster
def clusterSize (v : Volume) : Nat := v.sectorsPerCluster * 512

end Volume

def acceptGeometry (startLba reservedSectors sectorsPerCluster numFats rootEntries sectorsPerFat :
    Nat) : Option Volume :=
  if positive : 0 < sectorsPerCluster ∧ 0 < numFats ∧ 0 < rootEntries ∧ 0 < sectorsPerFat then
    some {
      startLba, reservedSectors, sectorsPerCluster, numFats, rootEntries, sectorsPerFat
      clusterPos := positive.1, fatsPos := positive.2.1, rootPos := positive.2.2.1
      fatPos := positive.2.2.2 }
  else none

/-- `fat16_mount`, with a heap that has room. -/
def fat16Mount (d : Disk) (startLba : Nat) : Option Volume × Disk :=
  match ataReadSector d startLba with
  | (none, d) => (none, d)
  | (some boot, d) =>
      if boot.readU16 11 = 512 then
        (acceptGeometry startLba (boot.readU16 14) (boot.readLE 13 1) (boot.readLE 16 1)
          (boot.readU16 17) (boot.readU16 22), d)
      else (none, d)

def upper (char : UInt8) : UInt8 := if 97 ≤ char ∧ char ≤ 122 then char - 32 else char

def cString (bytes : List UInt8) : List UInt8 := bytes.takeWhile (· != 0)

def padded (width : Nat) (bytes : List UInt8) : List UInt8 :=
  bytes ++ List.replicate (width - bytes.length) 32

def fat16NameTo83 (filename : List UInt8) : List UInt8 :=
  let filename := cString filename
  let base := (filename.takeWhile (· != 46)).take 8
  let extension := match filename.drop base.length with
    | 46 :: extension => extension.take 3
    | _ => []
  padded 8 (base.map upper) ++ padded 3 (extension.map upper)

/-- The name that `fat16_create_file` gives its node: the dot stands only behind eight
characters. -/
def createdFileName (name83 : List UInt8) : List UInt8 :=
  (name83.take 8).filter (· != 32) ++
    (if name83.getD 7 32 ≠ 32 ∧ name83.getD 8 32 ≠ 32 then [46] else []) ++
    (name83.drop 8).filter (· != 32)

def createdDirName (name83 : List UInt8) : List UInt8 := name83.filter (· != 32)

def mountedName (name : List UInt8) : List UInt8 :=
  cString ((name.take 8).takeWhile (· != 32) ++
    if name.getD 8 32 ≠ 32 then 46 :: (name.drop 8).takeWhile (· != 32) else [])

def fat16ReadFatEntry (v : Volume) (d : Disk) (cluster : Nat) : Nat × Disk :=
  if cluster < 2 then (0, d)
  else
    match ataReadSector d (v.fatStart + cluster * 2 / 512) with
    | (none, d) => (0, d)
    | (some sector, d) => (sector.readU16 (cluster * 2 % 512), d)

def writeFatCopies (v : Volume) (cluster value : Nat) : Nat → Nat → Disk → Bool × Disk
  | 0, _, d => (true, d)
  | remaining + 1, copy, d =>
      let lba := v.fatStart + cluster * 2 / 512 + copy * v.sectorsPerFat
      match ataReadSector d lba with
      | (none, d) => (false, d)
      | (some sector, d) =>
          match ataWriteSector d lba (sector.writeU16 (cluster * 2 % 512) value) with
          | (false, d) => (false, d)
          | (true, d) => writeFatCopies v cluster value remaining (copy + 1) d

def fat16WriteFatEntry (v : Volume) (d : Disk) (cluster value : Nat) : Bool × Disk :=
  if cluster < 2 then (false, d) else writeFatCopies v cluster value v.numFats 0 d

def zeroSectors (first : Nat) : Nat → Nat → Disk → Bool × Disk
  | 0, _, d => (true, d)
  | remaining + 1, s, d =>
      match ataWriteSector d (first + s) fun _ => 0 with
      | (false, d) => (false, d)
      | (true, d) => zeroSectors first remaining (s + 1) d

def allocateFrom (v : Volume) : Nat → Nat → Disk → Nat × Disk
  | 0, _, d => (0, d)
  | remaining + 1, i, d =>
      match fat16ReadFatEntry v d i with
      | (entry, d) =>
          if entry = 0 then
            match fat16WriteFatEntry v { d with allocated := i :: d.allocated } i 0xFFFF with
            | (false, d) => (0, d)
            | (true, d) =>
                match zeroSectors (v.clusterSector i) v.sectorsPerCluster 0 d with
                | (false, d) => (0, d)
                | (true, d) => (i, d)
          else allocateFrom v remaining (i + 1) d

def fat16AllocateCluster (v : Volume) (d : Disk) : Nat × Disk := allocateFrom v (0xFFF0 - 2) 2 d

def releaseFrom (v : Volume) : Nat → Nat → Disk → Bool × Disk
  | 0, _, d => (false, d)
  | guard + 1, cluster, d =>
      if cluster < 2 ∨ 0xFFF8 ≤ cluster then (true, d)
      else
        match fat16ReadFatEntry v d cluster with
        | (next, d) =>
            match fat16WriteFatEntry v d cluster 0 with
            | (false, d) => (false, d)
            | (true, d) => if next = cluster then (true, d) else releaseFrom v guard next d

def fat16ReleaseClusterChain (v : Volume) (d : Disk) (startCluster : Nat) : Bool × Disk :=
  if startCluster < 2 then (true, d) else releaseFrom v 0x10000 startCluster d

def entryName (sector : Mem) (slot : Nat) : List UInt8 := sector.read (slot * 32) 11
def entryAttr (sector : Mem) (slot : Nat) : UInt8 := sector (slot * 32 + 11)
def entryCluster (sector : Mem) (slot : Nat) : Nat := sector.readU16 (slot * 32 + 26)
def entrySize (sector : Mem) (slot : Nat) : Nat := sector.readU32 (slot * 32 + 28)

def entryFree (sector : Mem) (slot : Nat) : Bool :=
  sector (slot * 32) == 0 || sector (slot * 32) == 0xE5
def entryLive (sector : Mem) (slot : Nat) : Bool :=
  !entryFree sector slot && entryAttr sector slot != 0x0F

/-- The slots of one sector of a directory; `none` is a sector without an end or an entry that
counts. -/
def sectorEmpty (sector : Mem) : Nat → Nat → Option Bool
  | 0, _ => none
  | remaining + 1, slot =>
      if sector (slot * 32) = 0 then some true
      else if sector (slot * 32) = 0xE5 ∨ entryAttr sector slot = 0x0F ∨ sector (slot * 32) = 46 then
        sectorEmpty sector remaining (slot + 1)
      else some false

def clusterEmpty (first : Nat) : Nat → Nat → Disk → Option Bool × Disk
  | 0, _, d => (none, d)
  | remaining + 1, s, d =>
      match ataReadSector d (first + s) with
      | (none, d) => (some false, d)
      | (some sector, d) =>
          match sectorEmpty sector 16 0 with
          | some empty => (some empty, d)
          | none => clusterEmpty first remaining (s + 1) d

def directoryEmptyFrom (v : Volume) : Nat → Nat → Disk → Bool × Disk
  | 0, _, d => (false, d)
  | guard + 1, cluster, d =>
      if cluster < 2 ∨ 0xFFF8 ≤ cluster then (true, d)
      else
        match clusterEmpty (v.clusterSector cluster) v.sectorsPerCluster 0 d with
        | (some empty, d) => (empty, d)
        | (none, d) =>
            match fat16ReadFatEntry v d cluster with
            | (next, d) => if next = cluster then (false, d) else directoryEmptyFrom v guard next d

def fat16DirectoryClusterEmpty (v : Volume) (d : Disk) (startCluster : Nat) : Bool × Disk :=
  if startCluster < 2 then (true, d) else directoryEmptyFrom v 0x10000 startCluster d

inductive SlotScan where
  | duplicate
  | free (slot : Nat)
  | full
deriving DecidableEq

def scanSlots (sector : Mem) (name83 : List UInt8) : Nat → Nat → SlotScan
  | 0, _ => .full
  | remaining + 1, slot =>
      if entryLive sector slot ∧ entryName sector slot = name83 then .duplicate
      else if entryFree sector slot then .free slot
      else scanSlots sector name83 remaining (slot + 1)

structure FoundSlot where
  sectorIndex : Nat
  slot : Nat
  sector : Mem

/-- The scan over the sectors of the root directory; `none` is a duplicate, a full directory
or a sector that cannot be read. -/
def scanRoot (v : Volume) (name83 : List UInt8) : Nat → Nat → Disk → Option FoundSlot × Disk
  | 0, _, d => (none, d)
  | remaining + 1, sectorIndex, d =>
      match ataReadSector d (v.rootStart + sectorIndex) with
      | (none, d) => (none, d)
      | (some sector, d) =>
          match scanSlots sector name83 16 0 with
          | .duplicate => (none, d)
          | .free slot => (some ⟨sectorIndex, slot, sector⟩, d)
          | .full => scanRoot v name83 remaining (sectorIndex + 1) d

def newEntry (sector : Mem) (slot : Nat) (name83 : List UInt8) (attr : UInt8) (cluster : Nat) : Mem :=
  let cleared := sector.fill (slot * 32) 32 0
  let named := cleared.store (slot * 32) name83
  (named.set (slot * 32 + 11) attr).writeU16 (slot * 32 + 26) cluster

/-- The scan of `fat16_delete` over one sector; `full` goes on with the next one. -/
inductive NameScan where
  | found (slot : Nat)
  | endOfDir
  | full
deriving DecidableEq

def findSlots (sector : Mem) (name83 : List UInt8) : Nat → Nat → NameScan
  | 0, _ => .full
  | remaining + 1, slot =>
      if sector (slot * 32) = 0 then .endOfDir
      else if sector (slot * 32) = 0xE5 ∨ entryAttr sector slot = 0x0F then
        findSlots sector name83 remaining (slot + 1)
      else if entryName sector slot = name83 then .found slot
      else findSlots sector name83 remaining (slot + 1)

def findRoot (v : Volume) (name83 : List UInt8) : Nat → Nat → Disk → Option FoundSlot × Disk
  | 0, _, d => (none, d)
  | remaining + 1, sectorIndex, d =>
      match ataReadSector d (v.rootStart + sectorIndex) with
      | (none, d) => (none, d)
      | (some sector, d) =>
          match findSlots sector name83 16 0 with
          | .found slot => (some ⟨sectorIndex, slot, sector⟩, d)
          | .endOfDir => (none, d)
          | .full => findRoot v name83 remaining (sectorIndex + 1) d

def deletedEntry (sector : Mem) (slot : Nat) : Mem :=
  let marked := (sector.set (slot * 32) 0xE5).set (slot * 32 + 11) 0
  ((marked.writeU16 (slot * 32 + 26) 0).writeU16 (slot * 32 + 20) 0).writeU32 (slot * 32 + 28) 0

/-- A `vfs_node_t` below the root of the volume; `cluster` is its `fs_data`. -/
structure Fat16Node where
  name : List UInt8
  isDirectory : Bool
  size : Nat
  cluster : Nat
deriving DecidableEq

/-- `fat16_create_file` on the root.  `room` says that the heap has room for the node; the
entry is on the disk by then. -/
def fat16CreateFile (v : Volume) (d : Disk) (name : List UInt8) (room : Bool) :
    Option Fat16Node × Disk :=
  let name83 := fat16NameTo83 name
  match scanRoot v name83 v.rootSectors 0 d with
  | (none, d) => (none, d)
  | (some found, d) =>
      match ataWriteSector d (v.rootStart + found.sectorIndex)
          (newEntry found.sector found.slot name83 0x20 0) with
      | (false, d) => (none, d)
      | (true, d) =>
          if room then (some ⟨createdFileName name83, false, 0, 0⟩, d) else (none, d)

def fat16CreateDir (v : Volume) (d : Disk) (name : List UInt8) (room : Bool) :
    Option Fat16Node × Disk :=
  let name83 := fat16NameTo83 name
  match scanRoot v name83 v.rootSectors 0 d with
  | (none, d) => (none, d)
  | (some found, d) =>
      match fat16AllocateCluster v d with
      | (0, d) => (none, d)
      | (cluster, d) =>
          match ataWriteSector d (v.rootStart + found.sectorIndex)
              (newEntry found.sector found.slot name83 0x10 cluster) with
          | (false, d) => (none, (fat16WriteFatEntry v d cluster 0).2)
          | (true, d) =>
              if room then (some ⟨createdDirName name83, true, 0, cluster⟩, d)
              else (none, (fat16WriteFatEntry v d cluster 0).2)

def fat16Delete (v : Volume) (d : Disk) (name : List UInt8) : Bool × Disk :=
  match findRoot v (fat16NameTo83 name) v.rootSectors 0 d with
  | (none, d) => (false, d)
  | (some found, d) =>
      let startCluster := entryCluster found.sector found.slot
      let isDir := (entryAttr found.sector found.slot).toNat / 16 % 2 = 1
      match if isDir then fat16DirectoryClusterEmpty v d startCluster else (true, d) with
      | (false, d) => (false, d)
      | (true, d) =>
          match if 2 ≤ startCluster then fat16ReleaseClusterChain v d startCluster else (true, d) with
          | (false, d) => (false, d)
          | (true, d) =>
              ataWriteSector d (v.rootStart + found.sectorIndex) (deletedEntry found.sector found.slot)

def mountSlots (sector : Mem) : Nat → Nat → List Fat16Node × Bool
  | 0, _ => ([], false)
  | remaining + 1, slot =>
      if sector (slot * 32) = 0 then ([], true)
      else
        let rest := mountSlots sector remaining (slot + 1)
        if sector (slot * 32) = 0xE5 ∨ entryAttr sector slot = 0x0F then rest
        else
          (⟨mountedName (entryName sector slot), (entryAttr sector slot).toNat / 16 % 2 = 1,
            entrySize sector slot, entryCluster sector slot⟩ :: rest.1, rest.2)

/-- `fat16_create`, with a heap that has room; a sector that cannot be read is skipped. -/
def mountRoot (v : Volume) : Nat → Nat → Disk → List Fat16Node × Disk
  | 0, _, d => ([], d)
  | remaining + 1, sectorIndex, d =>
      match ataReadSector d (v.rootStart + sectorIndex) with
      | (none, d) => mountRoot v remaining (sectorIndex + 1) d
      | (some sector, d) =>
          match mountSlots sector 16 0 with
          | (nodes, true) => (nodes, d)
          | (nodes, false) =>
              match mountRoot v remaining (sectorIndex + 1) d with
              | (rest, d) => (nodes ++ rest, d)

def fat16Create (v : Volume) (d : Disk) : List Fat16Node × Disk := mountRoot v v.rootSectors 0 d

def readSectors (first intra total : Nat) : Nat → Nat → List UInt8 → Disk → Option (List UInt8) × Disk
  | 0, _, copied, d => (some copied, d)
  | remaining + 1, s, copied, d =>
      if total ≤ copied.length then (some copied, d)
      else
        match ataReadSector d (first + s) with
        | (none, d) => (none, d)
        | (some sector, d) =>
            if s * 512 + 512 ≤ intra then readSectors first intra total remaining (s + 1) copied d
            else
              let offset := intra - s * 512
              let size := min (512 - offset) (total - copied.length)
              readSectors first intra total remaining (s + 1) (copied ++ sector.read offset size) d

/-- The loop over the clusters.  Every turn copies at least one byte. -/
def readClusters (v : Volume) (total : Nat) :
    Nat → Nat → Nat → List UInt8 → Disk → Option (List UInt8) × Disk
  | 0, _, _, copied, d => (some copied, d)
  | turns + 1, cluster, intra, copied, d =>
      if copied.length < total ∧ 2 ≤ cluster ∧ cluster < 0xFFF8 then
        match readSectors (v.clusterSector cluster) intra total v.sectorsPerCluster 0 copied d with
        | (none, d) => (none, d)
        | (some copied, d) =>
            match fat16ReadFatEntry v d cluster with
            | (next, d) => readClusters v total turns next 0 copied d
      else (some copied, d)

def skipToCluster (v : Volume) : Nat → Nat → Disk → Nat × Disk
  | 0, cluster, d => (cluster, d)
  | skip + 1, cluster, d =>
      if 2 ≤ cluster ∧ cluster < 0xFFF8 then
        match fat16ReadFatEntry v d cluster with
        | (next, d) => skipToCluster v skip next d
      else (cluster, d)

/-- `fat16_read`; the result is what stands in the buffer. -/
def fat16Read (v : Volume) (d : Disk) (node : Fat16Node) (offset size : Nat) :
    Option (List UInt8) × Disk :=
  if node.isDirectory then (none, d)
  else if size = 0 then (some [], d)
  else if node.size ≤ offset then (none, d)
  else if node.cluster < 2 then (none, d)
  else
    let total := min size (node.size - offset)
    match skipToCluster v (offset / v.clusterSize) node.cluster d with
    | (cluster, d) =>
        if cluster < 2 ∨ 0xFFF8 ≤ cluster then (none, d)
        else
          match readClusters v total total cluster (offset % v.clusterSize) [] d with
          | (none, d) => (none, d)
          | (some copied, d) => if copied.length = total then (some copied, d) else (none, d)

/-- The next cluster of a chain, taken from the free ones at its end. -/
def nextOrAllocate (v : Volume) (d : Disk) (current : Nat) : Option Nat × Disk :=
  match fat16ReadFatEntry v d current with
  | (next, d) =>
      if next < 2 ∨ 0xFFF8 ≤ next then
        match fat16AllocateCluster v d with
        | (0, d) => (none, d)
        | (fresh, d) =>
            match fat16WriteFatEntry v d current fresh with
            | (false, d) => (none, d)
            | (true, d) => (some fresh, d)
      else (some next, d)

def skipOrAllocate (v : Volume) : Nat → Nat → Disk → Option Nat × Disk
  | 0, current, d => (some current, d)
  | skip + 1, current, d =>
      match nextOrAllocate v d current with
      | (none, d) => (none, d)
      | (some next, d) => skipOrAllocate v skip next d

def writeSectors (first intra : Nat) (data : List UInt8) : Nat → Nat → Nat → Disk → Option Nat × Disk
  | 0, _, written, d => (some written, d)
  | remaining + 1, s, written, d =>
      if data.length ≤ written then (some written, d)
      else if s * 512 + 512 ≤ intra then writeSectors first intra data remaining (s + 1) written d
      else
        let offset := intra - s * 512
        let size := min (512 - offset) (data.length - written)
        match ataReadSector d (first + s) with
        | (none, d) => (none, d)
        | (some sector, d) =>
            match ataWriteSector d (first + s) (sector.store offset ((data.drop written).take size)) with
            | (false, d) => (none, d)
            | (true, d) => writeSectors first intra data remaining (s + 1) (written + size) d

def writeClusters (v : Volume) (data : List UInt8) : Nat → Nat → Nat → Nat → Disk → Option Unit × Disk
  | 0, _, _, _, d => (none, d)
  | turns + 1, current, intra, written, d =>
      match writeSectors (v.clusterSector current) intra data v.sectorsPerCluster 0 written d with
      | (none, d) => (none, d)
      | (some written, d) =>
          if data.length ≤ written then (some (), d)
          else
            match nextOrAllocate v d current with
            | (none, d) => (none, d)
            | (some next, d) => writeClusters v data turns next 0 written d

def firstCluster (v : Volume) (d : Disk) (node : Fat16Node) : Option Nat × Disk :=
  if node.cluster < 2 then
    match fat16AllocateCluster v d with
    | (0, d) => (none, d)
    | (cluster, d) => (some cluster, d)
  else (some node.cluster, d)

/-- `fat16_write` with the node afterwards.  A write that fails may have given the node its first
cluster. -/
def fat16WriteNode (v : Volume) (d : Disk) (node : Fat16Node) (data : List UInt8) (offset : Nat) :
    Bool × Fat16Node × Disk :=
  if node.isDirectory then (false, node, d)
  else if data.length = 0 then (true, node, d)
  else if 2 ^ 64 ≤ offset + data.length then (false, node, d)
  else
    match firstCluster v d node with
    | (none, d) => (false, node, d)
    | (some cluster, d) =>
        let node := { node with cluster }
        match skipOrAllocate v (offset / v.clusterSize) cluster d with
        | (none, d) => (false, node, d)
        | (some current, d) =>
            match writeClusters v data data.length current (offset % v.clusterSize) 0 d with
            | (none, d) => (false, node, d)
            | (some (), d) => (true, { node with size := max node.size (offset + data.length) }, d)

def fat16Write (v : Volume) (d : Disk) (node : Fat16Node) (data : List UInt8) (offset : Nat) :
    Option Fat16Node × Disk :=
  match fat16WriteNode v d node data offset with
  | (false, _, d) => (none, d)
  | (true, written, d) => (some written, d)

theorem fat16Write_some {v : Volume} {d after : Disk} {node grown : Fat16Node} {data : List UInt8}
    {offset : Nat} (wrote : fat16Write v d node data offset = (some grown, after)) :
    fat16WriteNode v d node data offset = (true, grown, after) := by
  rw [fat16Write] at wrote
  split at wrote
  next => cases wrote
  next written =>
    cases wrote
    exact written

end Szczupak
