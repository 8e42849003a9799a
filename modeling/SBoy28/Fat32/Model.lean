import SBoy28.Lib.Memory
import SBoy28.Lib.Program

/-!
# The FAT32 driver

`filesystem.c` on one mounted device. The calls are programs over four commands: the two
sector accesses, which are the only ones that touch the device buffer, and the loads and
stores of the caller's `FSFile`. Pointers are not null, apart from the buffer of a device;
a path is the list of its bytes before the terminating NUL.

The directory loops follow links read from the device, so they take fuel, and a run that
uses it up does not return.
-/

namespace SBoy28.Fat32
open Lib

inductive FSErr where
  | invalid
  | io
  | notFound
  | notMounted
  | noSpace
  | access
  deriving DecidableEq, Repr

def fsOpenRead : UInt8 := 0x01
def fsOpenWrite : UInt8 := 0x02
def fsAttrReadOnly : UInt8 := 0x01
def fsAttrDirectory : UInt8 := 0x10

structure FSBlockDevice where
  base : ℕ
  size : UInt32
  deriving DecidableEq

/-- The fields of the BIOS parameter block that the driver reads. -/
structure FAT32BPB where
  bytesPerSector : UInt16
  sectorsPerCluster : UInt8
  reservedSectorCount : UInt16
  numFats : UInt8
  rootEntryCount : UInt16
  totalSectors16 : UInt16
  fatSize16 : UInt16
  totalSectors32 : UInt32
  fatSize32 : UInt32
  rootCluster : UInt32
  deriving DecidableEq

def FAT32BPB.zero : FAT32BPB := ⟨0, 0, 0, 0, 0, 0, 0, 0, 0, 0⟩

def FAT32BPB.load (m : Memory) : FAT32BPB where
  bytesPerSector := load16 m 11
  sectorsPerCluster := m 13
  reservedSectorCount := load16 m 14
  numFats := m 16
  rootEntryCount := load16 m 17
  totalSectors16 := load16 m 19
  fatSize16 := load16 m 22
  totalSectors32 := load32 m 32
  fatSize32 := load32 m 36
  rootCluster := load32 m 44

structure FATDirEntry where
  name : List UInt8
  attr : UInt8
  fstClusHi : UInt16
  fstClusLo : UInt16
  fileSize : UInt32
  deriving DecidableEq

/-- The directory entry that a sector buffer holds at `off`. -/
def FATDirEntry.load (sec : Memory) (off : ℕ) : FATDirEntry where
  name := (List.range 11).map (fun i => sec (off + i))
  attr := sec (off + 11)
  fstClusHi := load16 sec (off + 20)
  fstClusLo := load16 sec (off + 26)
  fileSize := load32 sec (off + 28)

/-- `g_fs`, and what an uninitialised local buffer holds. -/
structure FSMount where
  dev : FSBlockDevice
  bpb : FAT32BPB
  fatStartSector : UInt32
  dataStartSector : UInt32
  sectorsPerFat : UInt32
  bytesPerCluster : UInt32
  clusterCount : UInt32
  mounted : Bool
  stack : Memory

structure FSFile where
  firstCluster : UInt32
  size : UInt32
  position : UInt32
  mode : UInt8
  dirEntrySector : UInt32
  dirEntryOffset : UInt32
  valid : Bool
  deriving DecidableEq

structure FSDirEntryInfo where
  name : List UInt8
  attributes : UInt8
  size : UInt32
  deriving DecidableEq

variable (g : FSMount)

def FSMount.bps : UInt32 := g.bpb.bytesPerSector.toUInt32

def FSMount.spc : UInt32 := g.bpb.sectorsPerCluster.toUInt32

section Sectors

def readSector (disk : Memory) (sector : UInt32) (out : Memory) : Except FSErr Memory :=
  let off := sector * g.bps
  if off + g.bps > g.dev.size then .error .io
  else .ok (copyTo out 0 (shift disk off.toNat) g.bps.toNat)

def writeSector (disk : Memory) (sector : UInt32) (data : Memory) : Except FSErr Memory :=
  let off := sector * g.bps
  if off + g.bps > g.dev.size then .error .io
  else .ok (copyTo disk off.toNat data g.bps.toNat)

inductive Command where
  | read (sector : UInt32) (out : Memory)
  | write (sector : UInt32) (data : Memory)
  | getFile
  | setFile (file : FSFile)

abbrev Command.Answer : Command → Type
  | .read _ _ => Memory
  | .write _ _ => Unit
  | .getFile => FSFile
  | .setFile _ => Unit

/-- The bytes of the device, and the `FSFile` that the call is about. -/
structure State where
  disk : Memory
  file : FSFile

abbrev Fs := Program Command.Answer FSErr

def handler : Handler Command.Answer FSErr State
  | .read sector out, s => (readSector g s.disk sector out, s)
  | .write sector data, s =>
    match writeSector g s.disk sector data with
    | .ok disk => (.ok (), { s with disk := disk })
    | .error e => (.error e, s)
  | .getFile, s => (.ok s.file, s)
  | .setFile file, s => (.ok (), { s with file := file })

def read (sector : UInt32) (out : Memory) : Fs Memory := Program.perform (Command.read sector out)

def write (sector : UInt32) (data : Memory) : Fs Unit := Program.perform (Command.write sector data)

def getFile : Fs FSFile := Program.perform Command.getFile

def setFile (file : FSFile) : Fs Unit := Program.perform (Command.setFile file)

def clusterToSector (cluster : UInt32) : UInt32 :=
  g.dataStartSector + (cluster - 2) * g.spc

end Sectors

section Table

def getFatEntry (cluster : UInt32) : Fs UInt32 := do
  let fatOffset := cluster * 4
  let sector := g.fatStartSector + fatOffset / g.bps
  let offset := fatOffset % g.bps
  if g.bps > 512 then throw .io
  let sec ← read sector g.stack
  return load32 sec offset.toNat &&& 0x0FFFFFFF

/-- The loop of `set_fat_entry` over the copies of the table. -/
def setFatCopies (cluster value : UInt32) : List UInt32 → Memory → Fs Unit
  | [], _ => return ()
  | fatIdx :: rest, sec => do
    let fatOffset := cluster * 4
    let offset := fatOffset % g.bps
    let sector := g.fatStartSector + fatIdx * g.sectorsPerFat + fatOffset / g.bps
    let sec ← read sector sec
    let cur := (load32 sec offset.toNat &&& 0xF0000000) ||| (value &&& 0x0FFFFFFF)
    let sec := store32 sec offset.toNat cur
    write sector sec
    setFatCopies cluster value rest sec

def setFatEntry (cluster value : UInt32) : Fs Unit := do
  if g.bps > 512 then throw .io
  setFatCopies g cluster value ((List.range g.bpb.numFats.toNat).map UInt32.ofNat) g.stack

/-- The loop of `alloc_cluster`, with `n` clusters left to try. -/
def allocFrom : ℕ → UInt32 → Fs UInt32
  | 0, _ => throw .noSpace
  | n + 1, cl => do
    let v ← getFatEntry g cl
    if v = 0 then
      setFatEntry g cl 0x0FFFFFFF
      return cl
    else allocFrom n (cl + 1)

def allocCluster : Fs UInt32 := allocFrom g ((g.clusterCount + 2).toNat - 2) 2

end Table

section Names

def slash : UInt8 := 0x2F
def dot : UInt8 := 0x2E
def space : UInt8 := 0x20

def toUpper (c : UInt8) : UInt8 :=
  if 0x61 ≤ c ∧ c ≤ 0x7A then c - (0x61 - 0x41) else c

/-- Up to `n` bytes before the first one of `stop`, and the rest. -/
def takeUpper (stop : List UInt8) : ℕ → List UInt8 → List UInt8 × List UInt8
  | n + 1, c :: rest =>
    if c ∈ stop then ([], c :: rest)
    else
      let r := takeUpper stop n rest
      (toUpper c :: r.1, r.2)
  | _, comp => ([], comp)

def padded (n : ℕ) (l : List UInt8) : List UInt8 := l ++ List.replicate (n - l.length) space

def fatNameFromPathComponent (comp : List UInt8) : List UInt8 :=
  let base := takeUpper [slash, dot] 8 comp
  let ext :=
    match base.2 with
    | c :: rest => if c = dot then (takeUpper [slash] 3 rest).1 else []
    | [] => []
  padded 8 base.1 ++ padded 3 ext

/-- The next component of a path and the new cursor. -/
def nextComponent (path : List UInt8) (outLen : ℕ) : Option (List UInt8 × List UInt8) :=
  match path.dropWhile (· = slash) with
  | [] => none
  | p =>
    let comp := (p.takeWhile (· ≠ slash)).take (outLen - 1)
    some (comp, (p.drop comp.length).dropWhile (· = slash))

def decodeShortName (name : List UInt8) : List UInt8 :=
  let ext := name.drop 8
  (name.take 8).takeWhile (· ≠ space) ++
    if ext.head? = some space then [] else dot :: ext.takeWhile (· ≠ space)

end Names

section Directories

def FATDirEntry.mark (e : FATDirEntry) : UInt8 := e.name.headD 0

def FATDirEntry.skipped (e : FATDirEntry) : Bool := e.mark = 0xE5 ∨ e.attr = 0x0F

def FATDirEntry.isDirectory (e : FATDirEntry) : Bool := e.attr &&& fsAttrDirectory ≠ 0

/-- `entry_first_cluster`. -/
def FATDirEntry.firstCluster (e : FATDirEntry) : UInt32 :=
  (e.fstClusHi.toUInt32 <<< 16) ||| e.fstClusLo.toUInt32

/-- The offsets at which a sector buffer is read as a directory entry. -/
def entryOffsets : List ℕ := (List.range ((g.bps.toNat + 31) / 32)).map (32 * ·)

/-- The sectors of a cluster. -/
def clusterSectors (cluster : UInt32) : List UInt32 :=
  (List.range g.spc.toNat).map (fun s => clusterToSector g cluster + UInt32.ofNat s)

/-- The inner loop of `find_entry_in_dir`: how the scan ends in this sector, if it does. -/
def findInSector (fatName : List UInt8) (sec : Memory) : List ℕ → Option (Except FSErr ℕ)
  | [] => none
  | off :: rest =>
    let e := FATDirEntry.load sec off
    if e.mark = 0 then some (.error .notFound)
    else if e.skipped then findInSector fatName sec rest
    else if e.name = fatName then some (.ok off)
    else findInSector fatName sec rest

structure Found where
  entry : FATDirEntry
  sector : UInt32
  offset : UInt32

/-- The sectors of one cluster; the buffer goes on to the next cluster. -/
def findInSectors (fatName : List UInt8) : List UInt32 → Memory → Fs (Memory ⊕ Found)
  | [], sec => return .inl sec
  | sector :: rest, sec => do
    let sec ← read sector sec
    match findInSector fatName sec (entryOffsets g) with
    | some (.ok off) => return .inr ⟨FATDirEntry.load sec off, sector, UInt32.ofNat off⟩
    | some (.error e) => throw e
    | none => findInSectors fatName rest sec

/-- The outer loop of `find_entry_in_dir`. -/
def findInClusters (fatName : List UInt8) : ℕ → UInt32 → Memory → Fs Found
  | 0, _, _ => .spin
  | fuel + 1, cluster, sec =>
    if 2 ≤ cluster ∧ cluster < 0x0FFFFFF8 then do
      match ← findInSectors g fatName (clusterSectors g cluster) sec with
      | .inr found => return found
      | .inl sec => do
        let next ← getFatEntry g cluster
        findInClusters fatName fuel next sec
    else throw .notFound

def findEntryInDir (fuel : ℕ) (dirCluster : UInt32) (fatName : List UInt8) : Fs Found := do
  if g.bps > 512 then throw .io
  findInClusters g fatName fuel dirCluster g.stack

/-- The loop of `resolve_path`, at most `n` components. -/
def resolveFrom (fuel : ℕ) : ℕ → List UInt8 → UInt32 → Found → Fs Found
  | 0, _, _, _ => .spin
  | n + 1, cursor, cluster, current =>
    match nextComponent cursor 32 with
    | none => return current
    | some (comp, cursor) => do
      let found ← findEntryInDir g fuel cluster (fatNameFromPathComponent comp)
      if cursor ≠ [] ∧ found.entry.isDirectory = false then throw .notFound
      else resolveFrom fuel n cursor found.entry.firstCluster found

/-- A zeroed entry with `FS_ATTR_DIRECTORY`. -/
def directoryEntry (cluster : UInt32) : FATDirEntry where
  name := List.replicate 11 0
  attr := fsAttrDirectory
  fstClusHi := (cluster >>> 16).toUInt16
  fstClusLo := cluster.toUInt16
  fileSize := 0

def resolvePath (fuel : ℕ) (path : List UInt8) : Fs Found := do
  if path.head? ≠ some slash then throw .invalid
  let found ← resolveFrom g fuel (path.length + 1) path g.bpb.rootCluster ⟨directoryEntry 0, 0, 0⟩
  if path.length = 1 then return ⟨directoryEntry g.bpb.rootCluster, 0, 0⟩
  else return found

end Directories

section Mount

def FSMount.zero (stack : Memory) : FSMount where
  dev := ⟨0, 0⟩
  bpb := FAT32BPB.zero
  fatStartSector := 0
  dataStartSector := 0
  sectorsPerFat := 0
  bytesPerCluster := 0
  clusterCount := 0
  mounted := false
  stack := stack

/-- The fields that `fs_mount_fat32` computes from the parameter block. -/
def FSMount.computed (device : FSBlockDevice) (bpb : FAT32BPB) (stack : Memory) : FSMount :=
  let bps := bpb.bytesPerSector.toUInt32
  let spc := bpb.sectorsPerCluster.toUInt32
  let totalSectors :=
    if bpb.totalSectors16 ≠ 0 then bpb.totalSectors16.toUInt32 else bpb.totalSectors32
  let sectorsPerFat := if bpb.fatSize16 ≠ 0 then bpb.fatSize16.toUInt32 else bpb.fatSize32
  let rootDirSectors := (bpb.rootEntryCount.toUInt32 * 32 + (bps - 1)) / bps
  let dataStartSector :=
    bpb.reservedSectorCount.toUInt32 + bpb.numFats.toUInt32 * sectorsPerFat + rootDirSectors
  { dev := device
    bpb := bpb
    fatStartSector := bpb.reservedSectorCount.toUInt32
    dataStartSector := dataStartSector
    sectorsPerFat := sectorsPerFat
    bytesPerCluster := bps * spc
    clusterCount := (totalSectors - dataStartSector) / spc
    mounted := false
    stack := stack }

/-- The return code and the new `g_fs`. -/
def fsMountFat32 (device : FSBlockDevice) (contents : Memory) : Except FSErr Unit × FSMount :=
  if device.base = 0 ∨ device.size < 512 then (.error .invalid, g)
  else
    let bpb := FAT32BPB.load contents
    if bpb.bytesPerSector = 0 ∨ bpb.sectorsPerCluster = 0 then
      (.error .invalid, { FSMount.zero g.stack with dev := device, bpb := bpb })
    else
      let g := FSMount.computed device bpb g.stack
      if g.clusterCount < 65525 ∨ g.bpb.rootCluster < 2 then (.error .invalid, g)
      else (.ok (), { g with mounted := true })

def fsUnmount : Except FSErr Unit × FSMount := (.ok (), FSMount.zero g.stack)

end Mount

section Files

def FSFile.canRead (file : FSFile) : Bool := file.mode &&& fsOpenRead ≠ 0

def FSFile.canWrite (file : FSFile) : Bool := file.mode &&& fsOpenWrite ≠ 0

def fsOpen (fuel : ℕ) (path : List UInt8) (mode : UInt8) : Fs Unit := do
  if g.mounted = false then throw .notMounted
  if mode = 0 then throw .invalid
  let e ← resolvePath g fuel path
  if e.entry.isDirectory then throw .access
  if mode &&& fsOpenWrite ≠ 0 ∧ e.entry.attr &&& fsAttrReadOnly ≠ 0 then throw .access
  setFile
    { firstCluster := e.entry.firstCluster
      size := e.entry.fileSize
      position := 0
      mode := mode
      dirEntrySector := e.sector
      dirEntryOffset := e.offset
      valid := true }

def fsSeek (position : UInt32) : Fs Unit := do
  let file ← getFile
  if file.valid = false then throw .invalid
  setFile { file with position := position }

/-- The loop of `file_cluster_for_position`, `i` links before the cluster. -/
def walkChain (allowExtend : Bool) : ℕ → UInt32 → Fs UInt32
  | 0, cluster => return cluster
  | i + 1, cluster => do
    let next ← getFatEntry g cluster
    if next ≥ 0x0FFFFFF8 then
      if allowExtend = false then throw .io
      let newCluster ← allocCluster g
      setFatEntry g cluster newCluster
      walkChain allowExtend i newCluster
    else walkChain allowExtend i next

def fileClusterForPosition (pos : UInt32) (allowExtend : Bool) : Fs UInt32 := do
  let idx := pos / g.bytesPerCluster
  let file ← getFile
  if file.firstCluster < 2 then
    if allowExtend = false then throw .io
    let cluster ← allocCluster g
    setFile { file with firstCluster := cluster }
    walkChain g allowExtend idx.toNat cluster
  else walkChain g allowExtend idx.toNat file.firstCluster

/-- The sector of the file position, and the offset in it. -/
def sectorOfPosition (cluster position : UInt32) : UInt32 × UInt32 :=
  let clusterOff := position % g.bytesPerCluster
  (clusterToSector g cluster + clusterOff / g.bps, clusterOff % g.bps)

/-- The bytes of this turn of the loops of `fs_read` and `fs_write`. -/
def chunk (offInSector left : UInt32) : UInt32 :=
  let can := g.bps - offInSector
  if can > left then left else can

/-- The loop of `fs_read`. -/
def readLoop (n : UInt32) : ℕ → UInt32 → Memory → Memory → Fs (UInt32 × Memory)
  | 0, done, _, out => if done < n then .spin else return (done, out)
  | fuel + 1, done, sec, out =>
    if done < n then do
      let file ← getFile
      let cluster ← fileClusterForPosition g file.position false
      let at_ := sectorOfPosition g cluster file.position
      let sec ← read at_.1 sec
      let can := chunk g at_.2 (n - done)
      let out := copyTo out done.toNat (shift sec at_.2.toNat) can.toNat
      let file ← getFile
      setFile { file with position := file.position + can }
      readLoop n fuel (done + can) sec out
    else return (done, out)

/-- `fs_read` into the buffer `out`: the count and the new contents of the buffer. -/
def fsRead (out : Memory) (bytesToRead : UInt32) : Fs (UInt32 × Memory) := do
  if g.mounted = false then throw .notMounted
  let file ← getFile
  if file.valid = false then throw .invalid
  if file.canRead = false then throw .access
  if file.position ≥ file.size then return (0, out)
  else
    let remaining := file.size - file.position
    let n := if bytesToRead > remaining then remaining else bytesToRead
    if g.bps > 512 then throw .io
    readLoop g n n.toNat 0 g.stack out

/-- The loop of `fs_write`. -/
def writeLoop (data : Memory) (n : UInt32) : ℕ → UInt32 → Memory → Fs UInt32
  | 0, done, _ => if done < n then .spin else return done
  | fuel + 1, done, sec =>
    if done < n then do
      let file ← getFile
      let cluster ← fileClusterForPosition g file.position true
      let at_ := sectorOfPosition g cluster file.position
      let sec ← read at_.1 sec
      let can := chunk g at_.2 (n - done)
      let sec := copyTo sec at_.2.toNat (shift data done.toNat) can.toNat
      write at_.1 sec
      let file ← getFile
      let position := file.position + can
      setFile { file with
        position := position
        size := if position > file.size then position else file.size }
      writeLoop data n fuel (done + can) sec
    else return done

/-- `fs_write` from the buffer `data`. -/
def fsWrite (data : Memory) (bytesToWrite : UInt32) : Fs UInt32 := do
  if g.mounted = false then throw .notMounted
  let file ← getFile
  if file.valid = false then throw .invalid
  if file.canWrite = false then throw .access
  if g.bps > 512 then throw .io
  writeLoop g data bytesToWrite bytesToWrite.toNat 0 g.stack

/-- The size and first cluster of a handle, put into its directory entry in a sector buffer. -/
def storeEntry (sec : Memory) (file : FSFile) : Memory :=
  let off := file.dirEntryOffset.toNat
  let sec := store32 sec (off + 28) file.size
  let sec := store16 sec (off + 20) (file.firstCluster >>> 16).toUInt16
  store16 sec (off + 26) file.firstCluster.toUInt16

def fsClose : Fs Unit := do
  if g.mounted = false then throw .notMounted
  let file ← getFile
  if file.valid = false then throw .invalid
  if file.canWrite then
    if g.bps > 512 then throw .io
    let sec ← read file.dirEntrySector g.stack
    write file.dirEntrySector (storeEntry sec file)
  setFile { file with valid := false }

end Files

section Listing

/-- The inner loop of `fs_list_dir`: the entries so far, and whether the call returns. -/
def listInSector (maxEntries : UInt32) (sec : Memory) :
    List ℕ → List FSDirEntryInfo → List FSDirEntryInfo × Bool
  | [], acc => (acc, false)
  | off :: rest, acc =>
    let e := FATDirEntry.load sec off
    if e.mark = 0 then (acc, true)
    else if e.skipped then listInSector maxEntries sec rest acc
    else if acc.length = maxEntries.toNat then (acc, true)
    else listInSector maxEntries sec rest (acc ++ [⟨decodeShortName e.name, e.attr, e.fileSize⟩])

def listInSectors (maxEntries : UInt32) :
    List UInt32 → Memory → List FSDirEntryInfo → Fs (Memory × List FSDirEntryInfo × Bool)
  | [], sec, acc => return (sec, acc, false)
  | sector :: rest, sec, acc => do
    let sec ← read sector sec
    let r := listInSector maxEntries sec (entryOffsets g) acc
    if r.2 then return (sec, r.1, true) else listInSectors maxEntries rest sec r.1

def listInClusters (maxEntries : UInt32) :
    ℕ → UInt32 → Memory → List FSDirEntryInfo → Fs (List FSDirEntryInfo)
  | 0, _, _, _ => .spin
  | fuel + 1, cluster, sec, acc =>
    if 2 ≤ cluster ∧ cluster < 0x0FFFFFF8 then do
      let r ← listInSectors g maxEntries (clusterSectors g cluster) sec acc
      if r.2.2 then return r.2.1
      else do
        let next ← getFatEntry g cluster
        listInClusters maxEntries fuel next r.1 r.2.1
    else return acc

/-- `fs_list_dir`: the entries it writes, whose number is the count. -/
def fsListDir (fuel : ℕ) (path : List UInt8) (maxEntries : UInt32) : Fs (List FSDirEntryInfo) := do
  if g.mounted = false then throw .notMounted
  if maxEntries = 0 then throw .invalid
  let dir ← resolvePath g fuel path
  if dir.entry.isDirectory = false then throw .invalid
  let cluster := if path.length = 1 then g.bpb.rootCluster else dir.entry.firstCluster
  if g.bps > 512 then throw .io
  listInClusters g maxEntries fuel cluster g.stack []

end Listing

end SBoy28.Fat32
