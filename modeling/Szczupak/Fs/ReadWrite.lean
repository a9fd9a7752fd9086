import Szczupak.Fs.FileData
import Szczupak.Fs.RootDirectory

/-!
Reads after a write.  On a reliable disk `fat16_read` gives the bytes at the positions of the
chain; a write that succeeds patches them, and no other chain notices it.
-/

namespace Szczupak

def chainBytes (v : Volume) (bytes : Mem) (chain : List Nat) : Mem := fun position =>
  bytes (chainAddr v chain position)

def StartsAt (cluster : Nat) : List Nat → Prop
  | [] => cluster < 2
  | first :: _ => cluster = first

/-- The node is a file whose chain starts at its cluster and is long enough for its size. -/
structure FileOn (v : Volume) (bytes : Mem) (node : Fat16Node) (chain : List Nat) : Prop where
  isFile : node.isDirectory = false
  linked : Chain v bytes chain
  starts : StartsAt node.cluster chain
  holds : node.size ≤ chain.length * v.clusterSize

section Read

variable {v : Volume} {d : Disk} {chain : List Nat} {node : Fat16Node}
  {current index intra total offset : Nat} {copied : List UInt8}

theorem readSectors_reliable (reliable : Reliable d) {first remaining s count position : Nat}
    (isPosition : position = max intra (s * 512))
    (isCount : count = min ((s + remaining) * 512 - position) (total - copied.length)) :
    ∃ after, readSectors first intra total remaining s copied d =
        (some (copied ++ d.bytes.read (first * 512 + position) count), after) ∧
      Becomes d after d.bytes := by
  induction remaining generalizing s copied count position d with
  | zero =>
      have none : count = 0 := by omega
      subst none
      exact ⟨d, by rw [readSectors, Mem.read, List.range_zero, List.map_nil, List.append_nil], rfl, rfl, rfl⟩
  | succ remaining ih =>
      rw [readSectors]
      split
      next all =>
        have none : count = 0 := by omega
        subst none
        exact ⟨d, by rw [Mem.read, List.range_zero, List.map_nil, List.append_nil], rfl, rfl, rfl⟩
      next more =>
        have range : s + 1 + remaining = s + (remaining + 1) := by omega
        rw [ataReadSector_reliable reliable]
        dsimp only
        split
        next skipped =>
          have position' : position = max intra ((s + 1) * 512) := by
            rw [isPosition, Nat.succ_mul, max_eq_left skipped, max_eq_left (Nat.le_of_add_right_le skipped)]
          rw [← range] at isCount
          obtain ⟨after, done, becomes⟩ := ih (called_reliable reliable) position' isCount
          exact ⟨after, done, becomes.bytes, becomes.faults, becomes.allocated⟩
        next inside =>
          generalize isSize : min (512 - (intra - s * 512)) (total - copied.length) = size
          have address : (first + s) * 512 + (intra - s * 512) = first * 512 + position := by
            rw [Nat.add_mul]
            omega
          have piece : (d.sector (first + s)).read (intra - s * 512) size =
              d.bytes.read (first * 512 + position) size := by
            rw [← address]
            refine List.map_congr_left fun place _ => ?_
            rw [Disk.sector, Nat.add_assoc]
          rw [piece]
          have length : (copied ++ d.bytes.read (first * 512 + position) size).length =
              copied.length + size := by
            rw [List.length_append, Mem.read_length]
          obtain ⟨after, done, becomes⟩ := @ih d.called
            (copied ++ d.bytes.read (first * 512 + position) size) (called_reliable reliable)
            (s + 1) (count - size) (max intra ((s + 1) * 512)) rfl (by omega)
          refine ⟨after, ?_, becomes.bytes, becomes.faults, becomes.allocated⟩
          have split : d.bytes.read (first * 512 + position) count =
              d.bytes.read (first * 512 + position) size ++
                d.called.bytes.read (first * 512 + max intra ((s + 1) * 512)) (count - size) := by
            by_cases last : count = size
            · rw [last, Nat.sub_self]
              exact (List.append_nil _).symm
            · have reached : max intra ((s + 1) * 512) = s * 512 + 512 := by
                rw [Nat.succ_mul]
                exact max_eq_right (Nat.le_of_lt (Nat.lt_of_not_le inside))
              have whole : position + size = s * 512 + 512 := by
                rw [reached] at *
                omega
              have count' : count = size + (count - size) := by omega
              rw [reached, ← whole, ← Nat.add_assoc]
              rw [count', Mem.read_add, Nat.add_sub_cancel_left]
              rfl
          rw [done, split, List.append_assoc]

theorem readClusters_reliable (reliable : Reliable d) (linked : Chain v d.bytes chain)
    (here : copied.length < total → chain[index]? = some current) {turns : Nat}
    (within : intra < v.clusterSize)
    (isPosition : offset + copied.length = index * v.clusterSize + intra)
    (inside : offset + total ≤ chain.length * v.clusterSize) (notMore : copied.length ≤ total)
    (enough : total ≤ copied.length + turns) :
    ∃ after, readClusters v total turns current intra copied d =
        (some (copied ++ (chainBytes v d.bytes chain).read (offset + copied.length)
          (total - copied.length)), after) ∧ Becomes d after d.bytes := by
  induction turns generalizing current intra copied d index with
  | zero =>
      have all : total - copied.length = 0 := by omega
      refine ⟨d, ?_, rfl, rfl, rfl⟩
      rw [readClusters, all, Mem.read, List.range_zero, List.map_nil, List.append_nil]
  | succ turns ih =>
      rw [readClusters]
      by_cases all : total ≤ copied.length
      · rw [if_neg (by omega)]
        have none : total - copied.length = 0 := by omega
        refine ⟨d, ?_, rfl, rfl, rfl⟩
        rw [none, Mem.read, List.range_zero, List.map_nil, List.append_nil]
      · have member := List.mem_of_getElem? (here (by omega))
        obtain ⟨two, small, _⟩ := linked.valid member
        rw [if_pos ⟨by omega, two, small⟩]
        obtain ⟨middle, done, read⟩ := @readSectors_reliable d intra total copied reliable
          (v.clusterSector current) v.sectorsPerCluster 0 _ _ rfl rfl
        rw [done]
        dsimp only
        have position : max intra (0 * 512) = intra := by omega
        have room : (0 + v.sectorsPerCluster) * 512 = v.clusterSize := by rw [Nat.zero_add, Volume.clusterSize]
        rw [position, room]
        generalize isCount : min (v.clusterSize - intra) (total - copied.length) = count
        -- The bytes of the cluster are those of its positions.
        have piece : d.bytes.read (v.clusterSector current * 512 + intra) count =
            (chainBytes v d.bytes chain).read (offset + copied.length) count := by
          refine List.map_congr_left fun place inCount => ?_
          have bound := List.mem_range.mp inCount
          rw [chainBytes, chainAddr_at (here (by omega)) (show intra + place < v.clusterSize by omega)
            (show offset + copied.length + place = index * v.clusterSize + (intra + place) by
            omega), clusterBase, Nat.add_assoc]
        rw [piece, fat16ReadFatEntry_reliable (read.reliable reliable) two]
        dsimp only
        rw [read.bytes]
        have length : (copied ++ (chainBytes v d.bytes chain).read (offset + copied.length)
            count).length = copied.length + count := by
          rw [List.length_append, Mem.read_length]
        generalize isNext : copied ++ (chainBytes v d.bytes chain).read
          (offset + copied.length) count = copied' at length
        have here' : copied'.length < total →
            chain[index + 1]? = some (fatEntry v d.bytes current) := by
          intro more
          rcases linked.next (here (by omega)) with ⟨_, follows⟩ | ⟨last, _⟩
          · exact follows
          · have full : (index + 1) * v.clusterSize = chain.length * v.clusterSize := by rw [last]
            rw [Nat.succ_mul] at full
            omega
        by_cases rest : copied'.length < total
        · have becomes : middle.called.bytes = d.bytes := read.bytes
          obtain ⟨after, finished, kept⟩ := @ih middle.called (fatEntry v d.bytes current)
            (index + 1) 0 copied' (called_reliable (read.reliable reliable)) (becomes.symm ▸ linked)
            here' (clusterSize_pos v) (by rw [Nat.succ_mul]; omega) (by omega) (by omega)
          refine ⟨after, ?_, ?_⟩
          · rw [finished, becomes, ← isNext, List.append_assoc, isNext]
            have split : total - copied.length = count + (total - copied'.length) := by omega
            rw [split, Mem.read_add, length, Nat.add_assoc]
          · exact ⟨kept.bytes.trans becomes, kept.faults.trans read.faults,
              kept.allocated.trans read.allocated⟩
        · have finished : readClusters v total turns (fatEntry v d.bytes current) 0 copied'
              middle.called = (some copied', middle.called) := by
            cases turns with
            | zero => rfl
            | succ turns =>
                rw [readClusters, if_neg]
                omega
          have whole : total - copied.length = count := by omega
          rw [finished, ← isNext, whole]
          exact ⟨middle.called, rfl, read.bytes, read.faults, read.allocated⟩

theorem skipToCluster_reliable (reliable : Reliable d) (linked : Chain v d.bytes chain)
    {skip next : Nat} (here : chain[index]? = some current) (there : chain[index + skip]? = some next) :
    ∃ after, skipToCluster v skip current d = (next, after) ∧ Becomes d after d.bytes := by
  induction skip generalizing current index d with
  | zero =>
      rw [Nat.add_zero, here] at there
      cases there
      exact ⟨d, rfl, rfl, rfl, rfl⟩
  | succ skip ih =>
      obtain ⟨two, small, _⟩ := linked.valid (List.mem_of_getElem? here)
      obtain ⟨bound, _⟩ := List.getElem?_eq_some_iff.mp there
      rw [skipToCluster, if_pos ⟨two, small⟩, fat16ReadFatEntry_reliable reliable two]
      rcases linked.next here with ⟨_, follows⟩ | ⟨last, _⟩
      · have index' : index + (skip + 1) = index + 1 + skip := by omega
        rw [index'] at there
        obtain ⟨after, done, kept⟩ := ih (called_reliable reliable) linked follows there
        exact ⟨after, done, kept.bytes, kept.faults, kept.allocated⟩
      · omega

def readView (size : Nat) (contents : Mem) (offset count : Nat) : Option (List UInt8) :=
  if count = 0 then some []
  else if size ≤ offset then none
  else some (contents.read offset (min count (size - offset)))

theorem fat16Read_file (reliable : Reliable d) (file : FileOn v d.bytes node chain)
    (offset count : Nat) : ∃ after, fat16Read v d node offset count =
        (readView node.size (chainBytes v d.bytes chain) offset count, after) ∧
      Becomes d after d.bytes := by
  rw [fat16Read, readView, if_neg (by rw [file.isFile]; decide)]
  split
  next => exact ⟨d, rfl, rfl, rfl, rfl⟩
  next some =>
    split
    next => exact ⟨d, rfl, rfl, rfl, rfl⟩
    next inside =>
      have holds := file.holds
      have bound : offset / v.clusterSize < chain.length := position_cluster (by omega)
      obtain ⟨first, rest, isChain⟩ := List.exists_cons_of_length_pos (Nat.zero_lt_of_lt bound)
      have starts : node.cluster = first := by
        have starts := file.starts
        rw [isChain] at starts
        exact starts
      have here : chain[0]? = Option.some node.cluster := by rw [isChain, starts]; rfl
      have two := (file.linked.valid (List.mem_of_getElem? here)).1
      have there : chain[0 + offset / v.clusterSize]? = Option.some chain[offset / v.clusterSize] := by
        rw [Nat.zero_add]
        exact List.getElem?_eq_getElem bound
      rw [if_neg (by omega)]
      generalize isTotal : min count (node.size - offset) = total
      dsimp only
      obtain ⟨middle, skipped, kept⟩ := skipToCluster_reliable reliable file.linked here there
      obtain ⟨reachedTwo, small, _⟩ := file.linked.valid (List.mem_of_getElem? there)
      rw [skipped]
      dsimp only
      rw [if_neg (by omega)]
      have position : offset + ([] : List UInt8).length =
          offset / v.clusterSize * v.clusterSize + offset % v.clusterSize := by
        rw [List.length_nil, Nat.div_add_mod']
        rfl
      rw [Nat.zero_add] at there
      obtain ⟨after, read, done⟩ := readClusters_reliable (kept.reliable reliable)
        (kept.bytes.symm ▸ file.linked) (fun _ => there) (Nat.mod_lt offset (clusterSize_pos v))
        position (show offset + total ≤ chain.length * v.clusterSize by omega) (Nat.zero_le _)
        (Nat.le_add_left total 0)
      rw [read]
      dsimp only
      rw [List.nil_append, Mem.read_length, List.length_nil, Nat.sub_zero, Nat.add_zero, if_pos rfl,
        kept.bytes]
      exact ⟨after, rfl, done.bytes.trans kept.bytes, done.faults.trans kept.faults,
        done.allocated.trans kept.allocated⟩

end Read

section Write

variable {v : Volume} {d after : Disk} {chain : List Nat} {node grown : Fat16Node}
  {data : List UInt8} {offset : Nat} {expected : Nat → UInt8} {longer other : List Nat}

theorem prefix_getElem {short long : List Nat} {index cluster : Nat} (begins : short <+: long)
    (here : short[index]? = some cluster) : long[index]? = some cluster := by
  obtain ⟨rest, rfl⟩ := begins
  obtain ⟨bound, _⟩ := List.getElem?_eq_some_iff.mp here
  rw [List.getElem?_append_left bound]
  exact here

theorem firstCluster_grown (reliable : Reliable d) (linked : Chain v d.bytes chain)
    (starts : StartsAt node.cluster chain) {cluster : Nat}
    (took : firstCluster v d node = (some cluster, after)) :
    2 ≤ cluster ∧ Reliable after ∧ ((∀ cluster ∈ after.allocated, cluster < v.fatEntries) →
      ∃ now, Grown v d chain after now (chainByte v d.bytes chain) ∧ now[0]? = some cluster) := by
  rw [firstCluster] at took
  cases chain with
  | nil =>
      have unset : node.cluster < 2 := starts
      rw [if_pos unset] at took
      split at took
      next => cases took
      next taken middle some took' =>
        have takes := fat16AllocateCluster_reliable reliable took' some
        cases took
        refine ⟨takes.two, fun call => ?_, fun inside => ?_⟩
        · rw [takes.faults]
          exact reliable call
        · have inTable : cluster < v.fatEntries := by
            refine inside cluster ?_
            rw [takes.allocated]
            exact List.mem_cons_self
          exact ⟨[] ++ [cluster], (Grown.initial linked).extend takes inTable rfl (Or.inl ⟨rfl, rfl⟩), rfl⟩
  | cons first rest =>
      have isFirst : node.cluster = first := starts
      have two := linked.1.1
      rw [isFirst, if_neg (by omega)] at took
      cases took
      exact ⟨two, reliable, fun _ => ⟨cluster :: rest, Grown.initial linked, rfl⟩⟩

theorem fat16Write_grown (reliable : Reliable d) (linked : Chain v d.bytes chain)
    (starts : StartsAt node.cluster chain) (some : data ≠ [])
    (wrote : fat16Write v d node data offset = (Option.some grown, after))
    (inside : ∀ cluster ∈ after.allocated, cluster < v.fatEntries) :
    ∃ longer, Grown v d chain after longer (patched offset data (chainByte v d.bytes chain)) ∧
      longer[0]? = Option.some grown.cluster ∧ chain <+: longer ∧
      offset + data.length ≤ longer.length * v.clusterSize ∧
      grown = { node with cluster := grown.cluster, size := max node.size (offset + data.length) } := by
  have length : 0 < data.length := List.length_pos_iff.mpr some
  replace wrote := fat16Write_some wrote
  rw [fat16WriteNode] at wrote
  split at wrote
  next => cases wrote
  next isFile =>
    rw [if_neg (by omega)] at wrote
    split at wrote
    next => cases wrote
    next noWrap =>
      split at wrote
      next => cases wrote
      next cluster middle took =>
        split at wrote
        next => cases wrote
        next current reached skipped =>
          split at wrote
          next => cases wrote
          next final done =>
            cases wrote
            obtain ⟨two, middleReliable, begins⟩ := firstCluster_grown reliable linked starts took
            obtain ⟨skipKept, currentTwo, reachedReliable⟩ :=
              skipOrAllocate_allocated middleReliable two skipped
            have writeKept := writeClusters_allocated reachedReliable currentTwo done
            have insideReached : ∀ cluster ∈ reached.allocated, cluster < v.fatEntries :=
              fun cluster member => inside cluster (writeKept cluster member)
            obtain ⟨now, grownFirst, here⟩ :=
              begins fun cluster member => insideReached cluster (skipKept cluster member)
            obtain ⟨longer, grownSkip, there, firstPrefix⟩ :=
              grownFirst.skip reliable here skipped insideReached
            have grownSkip' : Grown v d chain reached longer
                (patched offset (data.take 0) (chainByte v d.bytes chain)) := by
              rw [List.take_zero, patched_nil]
              exact grownSkip
            have position : offset + 0 =
                (0 + offset / v.clusterSize) * v.clusterSize + offset % v.clusterSize := by
              rw [Nat.add_zero, Nat.zero_add, Nat.div_add_mod']
            obtain ⟨final, grownFinal, secondPrefix, covers⟩ := grownSkip'.writeClusters reliable there
              (Nat.mod_lt offset (clusterSize_pos v)) position (Nat.zero_le _) done inside
            exact ⟨final, grownFinal, prefix_getElem (firstPrefix.trans secondPrefix) here,
              grownFinal.grows, covers, rfl⟩

theorem fat16Write_file (reliable : Reliable d) (file : FileOn v d.bytes node chain)
    (within : offset ≤ node.size) (wrote : fat16Write v d node data offset = (some grown, after))
    (inside : ∀ cluster ∈ after.allocated, cluster < v.fatEntries) :
    ∃ longer, Grown v d chain after longer (patched offset data (chainByte v d.bytes chain)) ∧
      FileOn v after.bytes grown longer ∧ grown.size = max node.size (offset + data.length) := by
  have holds := file.holds
  by_cases empty : data = []
  · subst empty
    replace wrote := fat16Write_some wrote
    rw [fat16WriteNode, if_neg (by rw [file.isFile]; decide), if_pos List.length_nil] at wrote
    cases wrote
    rw [patched_nil, List.length_nil]
    exact ⟨chain, Grown.initial file.linked, file, by omega⟩
  · obtain ⟨longer, grows, here, begins, covers, isGrown⟩ :=
      fat16Write_grown reliable file.linked file.starts empty wrote inside
    have size : grown.size = max node.size (offset + data.length) := by rw [isGrown]
    have isFile : grown.isDirectory = false := by
      rw [isGrown]
      exact file.isFile
    have length : chain.length * v.clusterSize ≤ longer.length * v.clusterSize :=
      Nat.mul_le_mul_right _ begins.length_le
    refine ⟨longer, grows, ⟨isFile, grows.linked, ?_, ?_⟩, size⟩
    · obtain ⟨bound, isFirst⟩ := List.getElem?_eq_some_iff.mp here
      obtain ⟨first, rest, isLonger⟩ := List.exists_cons_of_length_pos bound
      subst isLonger
      exact isFirst.symm
    · rw [size]
      exact max_le (holds.trans length) covers

theorem Grown.disjoint
    (grows : Grown v d chain after longer expected) (linked : Chain v d.bytes other)
    (apart : chain.Disjoint other) : longer.Disjoint other := by
  intro cluster member inOther
  rcases grows.fresh cluster member with earlier | free
  · exact apart earlier inOther
  · exact linked.nonzero inOther free

theorem Grown.otherChain
    (grows : Grown v d chain after longer expected) (linked : Chain v d.bytes other)
    (apart : chain.Disjoint other) : Chain v after.bytes other ∧
      ∀ cluster ∈ other, ∀ address ∈ clusterArea v cluster, after.bytes address = d.bytes address := by
  have disjoint := grows.disjoint linked apart
  refine ⟨linked.congr fun cluster member => ?_, fun cluster member address area => ?_⟩
  · exact grows.entries cluster (linked.valid member).2.2 fun inLonger => disjoint inLonger member
  · refine grows.frame address fun mine inLonger => ?_
    have valid := grows.linked.valid inLonger
    have different : cluster ≠ mine := fun same => disjoint inLonger (same ▸ member)
    exact ⟨clusterArea_table valid.2.2 area,
      clusterArea_disjoint (linked.valid member).1 valid.1 different area⟩

theorem Grown.root {longer : List Nat}
    (grows : Grown v d chain after longer expected) {address : Nat}
    (inRoot : address ∈ rootArea v) : after.bytes address = d.bytes address := by
  refine grows.frame address fun mine inLonger => ⟨fun words => ?_, fun area => ?_⟩
  · have below := (fatWords_table (grows.linked.valid inLonger).2.2 words).2
    have above := inRoot.1
    omega
  · have above := clusterArea_data area
    have below := inRoot.2
    omega

theorem Grown.otherFile {file : Fat16Node}
    (grows : Grown v d chain after longer expected) (isFile : FileOn v d.bytes file other)
    (apart : chain.Disjoint other) : FileOn v after.bytes file other ∧
      ∀ position < file.size, chainBytes v after.bytes other position =
      chainBytes v d.bytes other position := by
  obtain ⟨linked, kept⟩ := grows.otherChain isFile.linked apart
  refine ⟨⟨isFile.isFile, linked, isFile.starts, isFile.holds⟩, fun position inside => ?_⟩
  obtain ⟨cluster, member, _, area⟩ := chainAddr_area (Nat.lt_of_lt_of_le inside isFile.holds)
  exact kept cluster member _ area

end Write

theorem readView_congr {size offset count : Nat} {left right : Mem}
    (same : ∀ position < size, left position = right position) :
    readView size left offset count = readView size right offset count := by
  rw [readView, readView]
  split
  next => rfl
  next =>
    split
    next => rfl
    next inside =>
      congr 1
      refine Mem.read_congr fun place bound => same _ ?_
      omega

theorem fat16_read_over_write {v : Volume} {d after : Disk} {chain : List Nat} {node grown : Fat16Node}
    {data : List UInt8} {offset : Nat} (reliable : Reliable d) (file : FileOn v d.bytes node chain)
    (within : offset ≤ node.size) (wrote : fat16Write v d node data offset = (some grown, after))
    (inTable : ∀ cluster ∈ after.allocated, cluster < v.fatEntries) :
    grown.size = max node.size (offset + data.length) ∧
    (∀ start count, 0 < count → start < grown.size → ∃ bytes,
      (fat16Read v after grown start count).1 = some bytes ∧
      bytes.length = min count (grown.size - start) ∧
      ∀ index < bytes.length,
        if offset ≤ start + index ∧ start + index < offset + data.length then
          bytes[index]? = data[start + index - offset]?
        else (fat16Read v d node (start + index) 1).1 = some [bytes.getD index 0]) ∧
    (∀ other otherChain, FileOn v d.bytes other otherChain → chain.Disjoint otherChain →
      ∀ start count, (fat16Read v after other start count).1 = (fat16Read v d other start count).1) ∧
    (∀ otherChain, Chain v d.bytes otherChain → chain.Disjoint otherChain →
      Chain v after.bytes otherChain ∧
        ∀ cluster ∈ otherChain, ∀ address ∈ clusterArea v cluster, after.bytes address = d.bytes address) ∧
    (∀ address ∈ rootArea v, after.bytes address = d.bytes address) ∧
    ∃ longer, FileOn v after.bytes grown longer ∧
      ∀ otherChain, Chain v d.bytes otherChain → chain.Disjoint otherChain → longer.Disjoint otherChain := by
  obtain ⟨longer, grows, grownFile, size⟩ := fat16Write_file reliable file within wrote inTable
  have afterReliable := grows.reliable reliable
  refine ⟨size, fun start count some inside => ?_, fun other otherChain isFile apart start count => ?_,
    fun otherChain linked apart => grows.otherChain linked apart, fun address inRoot =>
    grows.root inRoot,
    longer, grownFile, fun otherChain linked apart => grows.disjoint linked apart⟩
  · obtain ⟨_, read, _⟩ := fat16Read_file afterReliable grownFile start count
    rw [read, readView, if_neg (by omega), if_neg (by omega)]
    refine ⟨_, rfl, Mem.read_length .., fun index bound => ?_⟩
    rw [Mem.read_length] at bound
    have holds := grownFile.holds
    have byte : chainBytes v after.bytes longer (start + index) =
        patched offset data (chainByte v d.bytes chain) (start + index) :=
      grows.contents (start + index) (by omega)
    have here : ((chainBytes v after.bytes longer).read start (min count (grown.size - start)))[index]? =
        Option.some (chainBytes v after.bytes longer (start + index)) := by
      rw [Mem.read, List.getElem?_map, List.getElem?_range bound]
      rfl
    split
    next written =>
      rw [here, byte, patched, if_pos written, List.getD_eq_getElem _ _ (by omega)]
      exact (List.getElem?_eq_getElem (by omega)).symm
    next old =>
      have before : start + index < node.size := by omega
      have holdsBefore := file.holds
      obtain ⟨_, readBefore, _⟩ := fat16Read_file reliable file (start + index) 1
      rw [readBefore, readView, if_neg (by decide), if_neg (by omega), Nat.min_eq_left (by omega),
        List.getD_eq_getElem?_getD, here, byte, patched, if_neg old, chainByte, if_pos (by omega)]
      rfl
  · obtain ⟨otherFile, same⟩ := grows.otherFile isFile apart
    obtain ⟨_, read, _⟩ := fat16Read_file afterReliable otherFile start count
    obtain ⟨_, readBefore, _⟩ := fat16Read_file reliable isFile start count
    rw [read, readBefore]
    exact readView_congr same

def threeByteDisk : Disk :=
  { formattedDisk with bytes := (formattedDisk.bytes.store 516 [255, 255]).store 1536 [1, 2, 3] }

theorem fat16_read_over_write_grows : ∃ grown after,
    fat16Write smallVolume threeByteDisk ⟨[65], false, 3, 2⟩ (List.replicate 600 7) 2 =
    (some grown, after) ∧
    grown.size = 602 ∧
    (∀ address ∈ rootArea smallVolume, after.bytes address = threeByteDisk.bytes address) ∧
    ∃ bytes, (fat16Read smallVolume after grown 1 3).1 = some bytes ∧ bytes.length = 3 := by
  have file : FileOn smallVolume threeByteDisk.bytes ⟨[65], false, 3, 2⟩ [2] := by
    refine ⟨rfl, ⟨⟨by decide, by decide, by decide⟩, ?_, trivial⟩, rfl, by decide⟩
    change 0xFFF8 ≤ fatEntry smallVolume threeByteDisk.bytes 2
    decide +kernel
  have runs : (fat16Write smallVolume threeByteDisk ⟨[65], false, 3, 2⟩
        (List.replicate 600 7) 2).1.isSome = true ∧
      (fat16Write smallVolume threeByteDisk ⟨[65], false, 3, 2⟩ (List.replicate 600 7)
        2).2.allocated = [3] := by
    decide +kernel
  rcases wrote : fat16Write smallVolume threeByteDisk ⟨[65], false, 3, 2⟩ (List.replicate 600 7) 2 with
    ⟨result, after⟩
  rw [wrote] at runs
  obtain ⟨done, allocated⟩ := runs
  obtain ⟨grown, rfl⟩ := Option.isSome_iff_exists.mp done
  have inTable : ∀ cluster ∈ after.allocated, cluster < smallVolume.fatEntries := by
    change after.allocated = [3] at allocated
    rw [allocated]
    decide
  obtain ⟨size, reads, _, _, root, _⟩ :=
    fat16_read_over_write (fun _ => rfl) file (by decide) wrote inTable
  rw [List.length_replicate] at size
  have whole : grown.size = 602 := size
  obtain ⟨bytes, read, length, _⟩ := reads 1 3 (by decide) (by omega)
  have length' : bytes.length = 3 := by
    rw [length, whole]
    decide
  exact ⟨grown, after, rfl, whole, root, bytes, read, length'⟩

end Szczupak
