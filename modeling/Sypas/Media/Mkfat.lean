import Sypas.Media.FatTree

/-!
# The FAT16 image builder (`tools/mkfat.py`)

The rest of `build`: cluster numbers, the FAT, and the image. A traversal of the tree
visits a child, then the child's own children, then the next child. The image is the
zeroed bytes after all slice assignments in their order; those of `render` also say which
node they are for.

## Main definitions

- `Sypas.Mkfat.name83`, `Sypas.Mkfat.dirent` — directory entries
- `Sypas.Mkfat.Children.assign`, `Sypas.Mkfat.Children.chainAll`,
  `Sypas.Mkfat.Children.render` — the three traversals
- `Sypas.Mkfat.build` — the builder
-/

namespace Sypas.Mkfat

def attrDir : ℕ := 0x10
def attrArchive : ℕ := 0x20
def volumeId : ℕ := 0x53595041

/-! ## Directory entries -/

/-- `s.upper()`. -/
def Host.upper (host : Host) (s : Str) : Str :=
  s.flatMap fun c => if c.toNat < 128 then [c.toUpper] else host.unicodeUpper c

/-- `s.encode("ascii")`. -/
def encodeAscii (s : Str) : Except BuildError Bytes :=
  if s.all (·.toNat < 128) then .ok (s.map fun c => UInt8.ofNat c.toNat) else .error .notAscii

/-- The bytes of an ASCII literal. -/
def ascii (s : String) : Bytes := s.toList.map fun c => UInt8.ofNat c.toNat

/-- `s.ljust(n)`. -/
def ljust (s : Str) (n : ℕ) : Str := s ++ List.replicate (n - s.length) ' '

/-- `s.rsplit(".", 1)` of a string with a dot. -/
def rsplitDot (s : Str) : Str × Str :=
  (((s.reverse.dropWhile (· ≠ '.')).drop 1).reverse, (s.reverse.takeWhile (· ≠ '.')).reverse)

/-- The base and the extension of an upper-case name. -/
def baseExt (name : Str) : Str × Str :=
  if '.' ∈ name ∧ name.head? ≠ some '.' then rsplitDot name else (name, [])

def name83 (host : Host) (name : Str) : Except BuildError Bytes := do
  let (base, ext) := baseExt (host.upper name)
  if base.length > 8 ∨ ext.length > 3 then .error .nameTooLong
  else
    let base ← encodeAscii (ljust base 8)
    let ext ← encodeAscii (ljust ext 3)
    return base ++ ext

/-- `struct.pack`. -/
def pack (fields : List PackField) : Except BuildError Bytes :=
  if ∀ f ∈ fields, f.Fits then .ok (PackField.record fields) else .error .structRange

/-- The fields of a directory entry. -/
def direntFields (host : Host) (name83b : Bytes) (attr cluster size : ℕ) : List PackField :=
  [.text 11 name83b, .num 1 attr,
    .num 1 0, .num 1 0,                                -- NT reserved, ctime tenths
    .num 2 host.dosTime, .num 2 host.dosDate,          -- create
    .num 2 host.dosDate,                               -- access
    .num 2 0,                                          -- cluster high
    .num 2 host.dosTime, .num 2 host.dosDate,          -- modify
    .num 2 cluster, .num 4 size]

def dirent (host : Host) (name83b : Bytes) (attr cluster size : ℕ) : Except BuildError Bytes :=
  pack (direntFields host name83b attr cluster size)

/-! ## Cluster numbers -/

/-- `-(-n // cluster_bytes)`. -/
def clustersFor (n : ℕ) : ℕ := (n + clusterBytes - 1) / clusterBytes

/-- `alloc`: the cluster number and the next free one. -/
def alloc (n nextFree : ℕ) : ℕ × ℕ := (if n ≠ 0 then nextFree else 0, nextFree + n)

/-- `assign` for all children of a node. -/
def Children.assign : Children → ℕ → Children × ℕ
  | nil, nextFree => (nil, nextFree)
  | cons node children rest, nextFree =>
    match node.data with
    | none =>
      let blob := 32 * (2 + children.length)
      let nclusters := max 1 (clustersFor blob)
      let (cluster, nextFree) := alloc nclusters nextFree
      let (children, nextFree) := children.assign nextFree
      let (rest, nextFree) := rest.assign nextFree
      (cons { node with cluster := cluster, nclusters := nclusters } children rest, nextFree)
    | some data =>
      let nclusters := clustersFor data.length
      let (cluster, nextFree) := if nclusters ≠ 0 then alloc nclusters nextFree else (0, nextFree)
      let (rest, nextFree) := rest.assign nextFree
      (cons { node with cluster := cluster, nclusters := nclusters } children rest, nextFree)

/-! ## The FAT -/

/-- The FAT before any chain is entered. -/
def emptyFat (g : Geometry) : List ℕ :=
  ((List.replicate (g.clusters + 2) 0).set 0 0xFFF8).set 1 0xFFFF

def chain (first count : ℕ) (fat : List ℕ) : List ℕ :=
  (List.range count).foldl
    (fun fat i => fat.set (first + i) (if i + 1 < count then first + i + 1 else 0xFFFF)) fat

/-- `chain_all` for all children of a node. -/
def Children.chainAll : Children → List ℕ → List ℕ
  | nil, fat => fat
  | cons node children rest, fat =>
    let fat := if node.nclusters ≠ 0 then chain node.cluster node.nclusters fat else fat
    let fat := if node.data = none then children.chainAll fat else fat
    rest.chainAll fat

/-! ## Rendering -/

/-- The BIOS parameter block. -/
def bpbFields (g : Geometry) : List PackField :=
  [.text 3 [0xEB, 0x3C, 0x90], .text 8 (ascii "SYPAS1.0"),
    .num 2 sec, .num 1 spc, .num 2 reserved, .num 1 nfats, .num 2 rootEntries,
    .num 2 (if g.totalSecs < 0x10000 then g.totalSecs else 0),
    .num 1 0xF8, .num 2 g.fatSecs, .num 2 63, .num 2 255, .num 4 0,
    .num 4 (if g.totalSecs ≥ 0x10000 then g.totalSecs else 0),
    .num 1 0x80, .num 1 0, .num 1 0x29, .num 4 volumeId,
    .text 11 (ascii "SYPAS EFI  "), .text 8 (ascii "FAT16   ")]

/-- The entry of a node in the directory that holds it. -/
def nodeEntry (host : Host) (node : Node) : Except BuildError Bytes := do
  let attr := if node.data = none then attrDir else attrArchive
  let size := match node.data with
    | none => 0
    | some data => data.length
  dirent host (← name83 host node.name) attr node.cluster size

/-- The entries of all children of a node. -/
def Children.entries (host : Host) : Children → Except BuildError Bytes
  | nil => .ok []
  | cons node _ rest => do
    let entry ← nodeEntry host node
    let entries ← rest.entries host
    return entry ++ entries

/-- The contents of a directory other than the root. -/
def directory (host : Host) (cluster parentCluster : ℕ) (children : Children) :
    Except BuildError Bytes := do
  let dot ← dirent host (ascii ".          ") attrDir cluster 0
  let dotdot ← dirent host (ascii "..         ") attrDir parentCluster 0
  let entries ← children.entries host
  return dot ++ dotdot ++ entries

/-- A slice assignment of `render`, with the node whose contents it writes: `none` for the
    root directory. -/
structure RenderWrite where
  node : Option Node
  patch : Patch

/-- `render` below a directory whose cluster, `0` for the root, is `parentCluster`. -/
def Children.render (host : Host) (g : Geometry) (parentCluster : ℕ) :
    Children → Except BuildError (List RenderWrite)
  | nil => .ok []
  | cons node children rest => do
    let below ← match node.data with
      | none => do
        let entries ← directory host node.cluster parentCluster children
        let below ← children.render host g node.cluster
        .ok (⟨some node, ⟨g.clusterOff node.cluster, entries⟩⟩ :: below)
      | some data =>
        .ok (if data ≠ [] then [⟨some node, ⟨g.clusterOff node.cluster, data⟩⟩] else [])
    let writes ← rest.render host g parentCluster
    return below ++ writes

/-- `render` of the whole tree. -/
def renderRoot (host : Host) (g : Geometry) (tree : Children) :
    Except BuildError (List RenderWrite) := do
  let entries ← tree.entries host
  if entries.length > rootEntries * 32 then .error .rootFull
  else
    let writes ← tree.render host g 0
    return ⟨none, ⟨g.rootOff, entries⟩⟩ :: writes

/-! ## The builder -/

/-- The slice assignments before `render`: the boot sector and the copies of the FAT. -/
def systemWrites (g : Geometry) (bpb fatBlob : Bytes) : List Patch :=
  ⟨0, bpb⟩ :: ⟨510, [0x55, 0xAA]⟩ :: (List.range nfats).map fun n => ⟨g.fatOff n, fatBlob⟩

/-- What `build` has made when it writes the image out. -/
structure Volume where
  geo : Geometry
  tree : Children
  fat : List ℕ
  writes : List RenderWrite
  image : Bytes

def build (host : Host) (sizeMib : ℤ) (mappings : List Str) : Except BuildError Volume := do
  let geo ← geometry sizeMib
  let tree ← mappings.foldlM (addMapping host) .nil
  let (tree, nextFree) := tree.assign 2
  if nextFree - 2 > geo.clusters then .error .imageTooSmall
  else
    let fat := tree.chainAll (emptyFat geo)
    let bpb ← pack (bpbFields geo)
    let fatBlob ← pack (fat.map (.num 2))
    let writes ← renderRoot host geo tree
    let image := (Bytes.zeros (geo.totalSecs * sec)).patched
      (systemWrites geo bpb fatBlob ++ writes.map (·.patch))
    return ⟨geo, tree, fat, writes, image⟩

end Sypas.Mkfat
