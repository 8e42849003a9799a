import SBoy28.Lib.Memory
import SBoy28.Lib.Queries
import Mathlib.Data.Int.Notation

/-!
# The two FAT12 readers

`iso.c` reads a FAT12 image that lies in memory, and `fat.c`, a tool of the host, reads one from a
file. The reader in memory is a program that asks for bytes of the disk, by their offset from
`base`; the offset is a 32-bit number, as pointers are, and nothing keeps it below the size. A
loop along the FAT takes fuel, and a run that uses it up does not end.
-/

namespace SBoy28.Fat12
open Lib

/-- The fields of the boot sector that the readers use. -/
structure BootSector where
  bytesPerSector : UInt16
  sectorsPerCluster : UInt8
  reservedSectors : UInt16
  fatCount : UInt8
  dirEntryCount : UInt16
  sectorsPerFat : UInt16
  deriving DecidableEq, Repr

/-- `sizeof(BootSector)`. -/
def sizeofBootSector : UInt32 := 62

/-- `sizeof(DirectoryEntry)`. -/
def sizeofDirectoryEntry : UInt32 := 32

def BootSector.load (m : Memory) : BootSector where
  bytesPerSector := load16 m 11
  sectorsPerCluster := m 13
  reservedSectors := load16 m 14
  fatCount := m 16
  dirEntryCount := load16 m 17
  sectorsPerFat := load16 m 22

/-- A name as in a directory entry. -/
structure ShortName where
  bytes : List UInt8
  length_eq : bytes.length = 11

/-- The bytes of a list, as memory. -/
def memoryOf (l : List UInt8) : Memory := fun i => l.getD i 0

/-- The first cluster number that ends a chain. -/
def endOfChain : UInt16 := 0x0FF8

section RamDisk

/-- The memory as seen from `base`, and the size of the disk in it. -/
structure RAMDisk where
  bytes : Memory
  size : UInt32

inductive Fault where
  | divisionByZero
  deriving DecidableEq, Repr

/-- A program that reads bytes at offsets from `base`. -/
abbrev Ram := Program (fun _ : UInt32 => UInt8) Fault

def readByte (off : UInt32) : Ram UInt8 := Program.perform off

def read16 (off : UInt32) : Ram UInt16 := do
  let lo ← readByte off
  let hi ← readByte (off + 1)
  return UInt16.ofNat (lo.toNat + 256 * hi.toNat)

def read32 (off : UInt32) : Ram UInt32 := do
  let lo ← read16 off
  let hi ← read16 (off + 2)
  return UInt32.ofNat (lo.toNat + 65536 * hi.toNat)

/-- `kmemcpy` from the disk: the `n` bytes from `src` on. -/
def kmemcpy (src : UInt32) : ℕ → Ram (List UInt8)
  | 0 => return []
  | n + 1 => do
    let b ← readByte src
    let rest ← kmemcpy (src + 1) n
    return b :: rest

/-- `kmemcmp` of a name with bytes of the disk. -/
def kmemcmp : List UInt8 → UInt32 → Ram ℤ
  | [], _ => return 0
  | x :: xs, y => do
    let b ← readByte y
    if x ≠ b then return (x.toNat : ℤ) - b.toNat
    else kmemcmp xs (y + 1)

/-- `g_BootSector`, `g_Fat`, `g_RootDirectory` and `g_RootDirectoryEnd`. -/
structure Globals where
  bootSector : BootSector
  fat : UInt32
  rootDirectory : UInt32
  rootDirectoryEnd : UInt32

def BootSector.bps (b : BootSector) : UInt32 := b.bytesPerSector.toUInt32

def BootSector.spc (b : BootSector) : UInt32 := b.sectorsPerCluster.toUInt32

/-- The sector behind the FATs. -/
def BootSector.rootLba (b : BootSector) : UInt32 :=
  b.reservedSectors.toUInt32 + b.sectorsPerFat.toUInt32 * b.fatCount.toUInt32

def BootSector.rootSize (b : BootSector) : UInt32 :=
  sizeofDirectoryEntry * b.dirEntryCount.toUInt32

def readBootSectorRAM (disk : RAMDisk) : Ram (Option BootSector) :=
  if disk.size < sizeofBootSector then return none
  else do
    let bytes ← kmemcpy 0 sizeofBootSector.toNat
    return some (BootSector.load (memoryOf bytes))

def readFatRAM (b : BootSector) : UInt32 := b.reservedSectors.toUInt32 * b.bps

/-- The root directory and the sector behind it. -/
def readRootDirectoryRAM (b : BootSector) : Ram (UInt32 × UInt32) :=
  if b.bps = 0 then throw .divisionByZero
  else
    let sectors := (b.rootSize + b.bps - 1) / b.bps
    return (b.rootLba * b.bps, b.rootLba + sectors)

/-- The entry with number `i`. -/
def Globals.entry (g : Globals) (i : ℕ) : UInt32 :=
  g.rootDirectory + sizeofDirectoryEntry * UInt32.ofNat i

/-- The loop of `findFile` from `i` on, over `n` more entries. -/
def findFileFrom (g : Globals) (name : ShortName) (i : ℕ) : ℕ → Ram (Option UInt32)
  | 0 => return none
  | n + 1 => do
    let d ← kmemcmp name.bytes (g.entry i)
    if d = 0 then return some (g.entry i)
    else findFileFrom g name (i + 1) n

def findFile (g : Globals) (name : ShortName) : Ram (Option UInt32) :=
  findFileFrom g name 0 g.bootSector.dirEntryCount.toNat

/-- The 12 bits of a FAT entry in the two bytes that hold it. -/
def entryOf (cluster w : UInt16) : UInt16 :=
  if cluster &&& 1 ≠ 0 then w >>> 4 else w &&& 0x0FFF

/-- Where the FAT entry of a cluster is. -/
def Globals.fatOffset (g : Globals) (cluster : UInt16) : UInt32 :=
  g.fat + (cluster.toUInt32 + cluster.toUInt32 / 2)

/-- Where the sectors of a cluster are. -/
def Globals.clusterOffset (g : Globals) (cluster : UInt16) : UInt32 :=
  let lba := g.rootDirectoryEnd + (cluster.toUInt32 - 2) * g.bootSector.spc
  lba * g.bootSector.bps

def BootSector.clusterSize (b : BootSector) : UInt32 := b.spc * b.bps

/-- The loop of `readFileRAM`; `out` is what has been written to `outputBuffer`. -/
def readFileRAMLoop (g : Globals) : ℕ → UInt16 → UInt32 → List UInt8 → Ram (List UInt8)
  | 0, _, _, _ => .spin
  | fuel + 1, cluster, remaining, out =>
    if cluster < endOfChain ∧ 0 < remaining then do
      let bytesToRead :=
        if g.bootSector.clusterSize > remaining then remaining else g.bootSector.clusterSize
      let data ← kmemcpy (g.clusterOffset cluster) bytesToRead.toNat
      let w ← read16 (g.fatOffset cluster)
      readFileRAMLoop g fuel (entryOf cluster w) (remaining - bytesToRead) (out ++ data)
    else return out

/-- `readFileRAM` on an entry of the disk, or on the null pointer. -/
def readFileRAM (g : Globals) (fuel : ℕ) (fileEntry : Option UInt32) (outputBuffer : UInt32) :
    Ram (Bool × List UInt8) :=
  match fileEntry with
  | none => return (false, [])
  | some e =>
    if outputBuffer = 0 then return (false, [])
    else do
      let cluster ← read16 (e + 26)
      let size ← read32 (e + 28)
      let out ← readFileRAMLoop g fuel cluster size []
      return (true, out)

/-- The calls that make the disk ready. -/
def mountRAM (disk : RAMDisk) : Ram (Option Globals) := do
  match ← readBootSectorRAM disk with
  | none => return none
  | some b => do
    let fat := readFatRAM b
    let root ← readRootDirectoryRAM b
    return some ⟨b, fat, root.1, root.2⟩

/-- All the calls on the way to the contents of a file, `none` if it is not found. -/
def loadFile (disk : RAMDisk) (fuel : ℕ) (name : ShortName) (outputBuffer : UInt32) :
    Ram (Option (Bool × List UInt8)) := do
  match ← mountRAM disk with
  | none => return none
  | some g => do
    match ← findFile g name with
    | none => return none
    | some e => do
      let r ← readFileRAM g fuel (some e) outputBuffer
      return some r

end RamDisk

section HostTool

/-- An image file. -/
structure DiskImage where
  bytes : Memory
  length : ℕ

/-- `fread` from position `pos`: how many items were read, and their bytes. -/
def fread (disk : DiskImage) (pos size count : ℕ) : ℕ × List UInt8 :=
  let items := if size = 0 then 0 else min count ((disk.length - pos) / size)
  (items, (List.range (items * size)).map (fun i => disk.bytes (pos + i)))

/-- Memory from `malloc` whose first bytes have been filled. -/
def filled (data : List UInt8) (rest : Memory) : Memory :=
  fun i => if i < data.length then memoryOf data i else rest i

/-- `g_BootSector`, `g_Fat`, `g_RootDirectory` and `g_RootDirectoryEnd` of the tool. -/
structure ToolGlobals where
  bootSector : BootSector
  fat : Memory
  rootDirectory : Memory
  rootDirectoryEnd : UInt32

def readBootSector (disk : DiskImage) : Option BootSector :=
  let r := fread disk 0 sizeofBootSector.toNat 1
  if 0 < r.1 then some (BootSector.load (memoryOf r.2)) else none

/-- `readSectors`: its result, and what it wrote to `bufferOut`. `fseek` succeeds also behind the
end of the file. -/
def readSectors (disk : DiskImage) (b : BootSector) (lba count : UInt32) : Bool × List UInt8 :=
  let r := fread disk (lba * b.bps).toNat b.bps.toNat count.toNat
  (r.1 = count.toNat, r.2)

/-- `rest` is what the allocated memory and the memory behind it held before. -/
def readFat (disk : DiskImage) (b : BootSector) (rest : Memory) : Bool × Memory :=
  let r := readSectors disk b b.reservedSectors.toUInt32 b.sectorsPerFat.toUInt32
  (r.1, filled r.2 rest)

def readRootDirectory (disk : DiskImage) (b : BootSector) (rest : Memory) :
    Except Fault (Bool × Memory × UInt32) :=
  if b.bps = 0 then .error .divisionByZero
  else
    let sectors := b.rootSize / b.bps
    let sectors := if b.rootSize % b.bps > 0 then sectors + 1 else sectors
    let r := readSectors disk b b.rootLba sectors
    .ok (r.1, filled r.2 rest, b.rootLba + sectors)

/-- What `main` does before it looks for the file. -/
def mountTool (disk : DiskImage) (restFat restRoot : Memory) : Option ToolGlobals :=
  match readBootSector disk with
  | none => none
  | some b =>
    match readFat disk b restFat, readRootDirectory disk b restRoot with
    | (true, fat), .ok (true, root, rootEnd) => some ⟨b, fat, root, rootEnd⟩
    | _, _ => none

/-- The loop of `readFile`; `out` is what has been written to `outputBuffer`. -/
def readFileLoop (g : ToolGlobals) (disk : DiskImage) : ℕ → UInt16 → Bool → List UInt8 →
    Option (Bool × List UInt8)
  | 0, _, _, _ => none
  | fuel + 1, cluster, ok, out =>
    let lba := g.rootDirectoryEnd + (cluster.toUInt32 - 2) * g.bootSector.spc
    let r := if ok then readSectors disk g.bootSector lba g.bootSector.spc else (false, [])
    let ok := ok && r.1
    let out := out ++ r.2
    let fatIndex := cluster.toUInt32 * 3 / 2
    let w := load16 g.fat fatIndex.toNat
    let next := if cluster % 2 = 0 then w &&& 0x0FFF else w >>> 4
    if ok = true ∧ next < endOfChain then readFileLoop g disk fuel next ok out else some (ok, out)

/-- `readFile` on the entry at `e` of the root directory. -/
def readFile (g : ToolGlobals) (disk : DiskImage) (fuel e : ℕ) : Option (Bool × List UInt8) :=
  readFileLoop g disk fuel (load16 g.rootDirectory (e + 26)) true []

end HostTool

end SBoy28.Fat12
