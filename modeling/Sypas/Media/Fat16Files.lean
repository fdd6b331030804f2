import Sypas.Lib.Bytes
import Sypas.Lib.Chain
import Sypas.Lib.State

/-!
# The FAT16 reader of the media test (`tests/media/validate_media.py`)

`fat16_files` reads a volume off its boot sector, follows the chains of the FAT and walks the
directories from the root. It shares nothing with the builder. Its numbers are read where the
code has checked that the bytes are there.

## Main definitions

- `Sypas.ValidateMedia.openVolume` — the checks on the boot sector
- `Sypas.ValidateMedia.chainBytes` — the bytes of a cluster chain
- `Sypas.ValidateMedia.fat16Files` — the reader

## Main results

- `Sypas.ValidateMedia.chainLoop_linked` — the bytes of a chain without a loop
- `Sypas.ValidateMedia.setAll_of_nodup` — a dictionary filled under distinct keys
-/

namespace Sypas.ValidateMedia

/-- What stops the reader. -/
inductive ReadError where
  /-- a condition that `expect` was given does not hold -/
  | assertion (message : String)
  | unicodeDecode
  /-- directories are nested too deep for the interpreter -/
  | recursion
deriving DecidableEq, Repr

def expect (condition : Prop) [Decidable condition] (message : String) : Except ReadError Unit :=
  if condition then .ok () else .error (.assertion message)

theorem expect_of {condition : Prop} [Decidable condition] (h : condition) {message : String} :
    expect condition message = .ok ⟨⟩ :=
  if_pos h

/-- `u16`. -/
def u16 (blob : Bytes) (off : ℕ) : ℕ := Bytes.leValue (blob.slice off (off + 2))

/-- `u32`. -/
def u32 (blob : Bytes) (off : ℕ) : ℕ := Bytes.leValue (blob.slice off (off + 4))

/-- `blob[i]`. -/
def byteAt (blob : Bytes) (i : ℕ) : ℕ := (blob.getD i 0).toNat

/-! ## The volume -/

/-- What `fat16_files` takes from the boot sector. -/
structure Fat16 where
  image : Bytes
  fat : Bytes
  rootStart : ℕ
  rootBytes : ℕ
  dataStart : ℕ
  clusterBytes : ℕ

/-- `b"FAT16   "`. -/
def fat16Label : Bytes := [0x46, 0x41, 0x54, 0x31, 0x36, 0x20, 0x20, 0x20]

/-- The first part of `fat16_files`. -/
def openVolume (image : Bytes) : Except ReadError Fat16 := do
  expect (image.length ≥ 512) "embedded ESP is too short"
  expect (image.slice 510 512 = [0x55, 0xAA]) "ESP boot sector signature is wrong"
  let bytesPerSector := u16 image 11
  let sectorsPerCluster := byteAt image 13
  let reserved := u16 image 14
  let fatCount := byteAt image 16
  let rootEntries := u16 image 17
  let total16 := u16 image 19
  let fatSectors := u16 image 22
  let totalSectors := if total16 ≠ 0 then total16 else u32 image 32
  expect (bytesPerSector = 512) "ESP is not a 512-byte-sector FAT volume"
  expect (sectorsPerCluster = 1) "unexpected FAT16 cluster size"
  expect (fatCount = 2) "unexpected FAT copy count"
  expect (image.slice 54 62 = fat16Label) "ESP is not labelled FAT16"
  expect (totalSectors * bytesPerSector ≤ image.length) "ESP BPB exceeds image"
  let fatStart := reserved * bytesPerSector
  let rootStart := (reserved + fatCount * fatSectors) * bytesPerSector
  let rootBytes := rootEntries * 32
  let dataStart := rootStart + rootBytes
  let clusterBytes := sectorsPerCluster * bytesPerSector
  let fatEnd := fatStart + fatSectors * bytesPerSector
  expect (fatEnd ≤ image.length ∧ dataStart ≤ image.length) "invalid FAT16 layout"
  return ⟨image, image.slice fatStart fatEnd, rootStart, rootBytes, dataStart, clusterBytes⟩

/-! ## Chains -/

/-- `next_cluster`. -/
def nextCluster (vol : Fat16) (cluster : ℕ) : Except ReadError ℕ := do
  let off := cluster * 2
  expect (off + 2 ≤ vol.fat.length) s!"FAT entry {cluster} is outside the FAT"
  return u16 vol.fat off

/-- Where the bytes of a cluster start. -/
def clusterStart (vol : Fat16) (cluster : ℕ) : ℕ :=
  vol.dataStart + (cluster - 2) * vol.clusterBytes

/-- `image[off:off + cluster_bytes]`. -/
def clusterSlice (vol : Fat16) (cluster : ℕ) : Bytes :=
  vol.image.slice (clusterStart vol cluster) (clusterStart vol cluster + vol.clusterBytes)

/-- The first number that ends a chain. -/
def chainEnd : ℕ := 0xFFF8

/-- A cluster seen for the first time leaves fewer unseen ones. -/
theorem unseen_card_lt {cluster : ℕ} {seen : Finset ℕ} (hlink : cluster < chainEnd)
    (hnew : cluster ∉ seen) :
    (Finset.range chainEnd \ insert cluster seen).card < (Finset.range chainEnd \ seen).card := by
  have hin : cluster ∈ Finset.range chainEnd \ seen :=
    Finset.mem_sdiff.mpr ⟨Finset.mem_range.mpr hlink, hnew⟩
  rw [Finset.sdiff_insert]
  exact Finset.card_erase_lt_of_mem hin

/-- The loop of `chain_bytes`, which visits no cluster twice. -/
def chainLoop (vol : Fat16) (cluster : ℕ) (seen : Finset ℕ) (out : Bytes) :
    Except ReadError Bytes :=
  if hlink : cluster < chainEnd then
    if hnew : cluster ≥ 2 ∧ cluster ∉ seen then
      if clusterStart vol cluster + vol.clusterBytes ≤ vol.image.length then
        have := unseen_card_lt hlink hnew.2
        match nextCluster vol cluster with
        | .error e => .error e
        | .ok next => chainLoop vol next (insert cluster seen) (out ++ clusterSlice vol cluster)
      else .error (.assertion "FAT chain points outside ESP")
    else .error (.assertion "invalid or looping FAT chain")
  else .ok out
termination_by (Finset.range chainEnd \ seen).card
decreasing_by assumption

/-- `chain_bytes`. -/
def chainBytes (vol : Fat16) (first : ℕ) (size : Option ℕ) : Except ReadError Bytes :=
  if size = some 0 then .ok []
  else do
    expect (first ≥ 2) "non-empty file or directory has no starting cluster"
    let out ← chainLoop vol first ∅ []
    match size with
    | none => return out
    | some size => do
      expect (out.length ≥ size) "FAT chain is shorter than directory/file size"
      return out.take size

/-! ## Directories -/

/-- The white space that `rstrip` finds in decoded ASCII. -/
def isSpace (c : Char) : Bool := c.toNat ∈ [9, 10, 11, 12, 13, 28, 29, 30, 31, 32]

/-- `s.rstrip()`. -/
def rstrip (s : List Char) : List Char := (s.reverse.dropWhile isSpace).reverse

/-- `raw.decode("ascii")`. -/
def decodeAscii (raw : Bytes) : Except ReadError (List Char) :=
  if raw.all (·.toNat < 128) then .ok (raw.map fun b => Char.ofNat b.toNat)
  else .error .unicodeDecode

/-- `short_name`. -/
def shortName (raw : Bytes) : Except ReadError (List Char) := do
  let name ← decodeAscii (raw.slice 0 8)
  let ext ← decodeAscii (raw.slice 8 11)
  return if rstrip ext ≠ [] then rstrip name ++ '.' :: rstrip ext else rstrip name

/-- A dictionary of files, in insertion order. -/
abbrev Files := List (List Char × Bytes)

/-- `files[path] = data`. -/
def setItem (files : Files) (path : List Char) (data : Bytes) : Files :=
  if path ∈ files.map Prod.fst then
    files.map fun file => if file.1 = path then (path, data) else file
  else files ++ [(path, data)]

/-- The 32-byte pieces of a directory. -/
def directoryEntries (blob : Bytes) : List Bytes :=
  (List.range ((blob.length + 31) / 32)).map fun i => blob.slice (i * 32) (i * 32 + 32)

/-- The loop of `read_entries`; `descend` is the recursive call. -/
def entriesLoop (vol : Fat16) (descend : Bytes → List Char → Files → Except ReadError Files)
    (dir : List Char) : List Bytes → Files → Except ReadError Files
  | [], files => .ok files
  | ent :: ents, files =>
    if ent.length < 32 ∨ byteAt ent 0 = 0x00 then .ok files
    else if byteAt ent 0 = 0xE5 ∨ byteAt ent 11 = 0x0F then entriesLoop vol descend dir ents files
    else do
      let name ← shortName (ent.slice 0 11)
      if name = ['.'] ∨ name = ['.', '.'] then entriesLoop vol descend dir ents files
      else do
        let path := dir ++ '/' :: name
        let attr := byteAt ent 11
        let cluster := u16 ent 26
        let size := u32 ent 28
        if attr &&& 0x10 ≠ 0 then do
          let directory ← chainBytes vol cluster none
          let files ← descend directory path files
          entriesLoop vol descend dir ents files
        else do
          let data ← chainBytes vol cluster (some size)
          entriesLoop vol descend dir ents (setItem files path data)

/-- `read_entries`, where the interpreter has room for `limit` nested calls. -/
def readEntries (vol : Fat16) : ℕ → Bytes → List Char → Files → Except ReadError Files
  | 0, _, _, _ => .error .recursion
  | limit + 1, blob, dir, files =>
    entriesLoop vol (readEntries vol limit) dir (directoryEntries blob) files

/-- `fat16_files`. -/
def fat16Files (limit : ℕ) (image : Bytes) : Except ReadError Files := do
  let vol ← openVolume image
  readEntries vol limit (image.slice vol.rootStart (vol.rootStart + vol.rootBytes)) [] []

/-! ## Reading a chain -/

section Chains

variable {vol : Fat16} {next : ℕ → ℕ} {c last : ℕ} {cs : List ℕ}

/-- A cluster that the loop can read, and go on from. -/
structure Readable (vol : Fat16) (next : ℕ → ℕ) (c : ℕ) : Prop where
  ge_two : 2 ≤ c
  lt_end : c < chainEnd
  inside : clusterStart vol c + vol.clusterBytes ≤ vol.image.length
  link : nextCluster vol c = .ok (next c)

theorem chainLoop_stop (hend : chainEnd ≤ c) (seen : Finset ℕ) (out : Bytes) :
    chainLoop vol c seen out = .ok out := by
  rw [chainLoop, dif_neg (not_lt.mpr hend)]

theorem chainLoop_step (hc : Readable vol next c) {seen : Finset ℕ} (hnew : c ∉ seen)
    (out : Bytes) : chainLoop vol c seen out =
      chainLoop vol (next c) (insert c seen) (out ++ clusterSlice vol c) := by
  rw [chainLoop, dif_pos hc.lt_end, dif_pos ⟨hc.ge_two, hnew⟩, if_pos hc.inside, hc.link]

/-- The loop reads a chain of distinct clusters one after the other. -/
theorem chainLoop_linked (h : LinkedChain next last c cs) (hlast : chainEnd ≤ last)
    (hnodup : cs.Nodup) (hcs : ∀ c ∈ cs, Readable vol next c) {seen : Finset ℕ}
    (hseen : ∀ c ∈ cs, c ∉ seen) (out : Bytes) :
    chainLoop vol c seen out = .ok (out ++ cs.flatMap (clusterSlice vol)) := by
  induction h generalizing seen out with
  | @stop c hstop =>
    have hself : c ∈ [c] := List.mem_singleton_self c
    rw [chainLoop_step (hcs c hself) (hseen c hself), hstop, chainLoop_stop hlast,
      List.flatMap_singleton]
  | @link c cs hne hrest ih =>
    obtain ⟨hnot, hnodup⟩ := List.nodup_cons.mp hnodup
    have hself : c ∈ c :: cs := List.mem_cons_self
    have hunseen : ∀ d ∈ cs, d ∉ insert c seen := by
      intro d hd hin
      obtain rfl | hin := Finset.mem_insert.mp hin
      · exact hnot hd
      · exact hseen d (List.mem_cons_of_mem _ hd) hin
    rw [chainLoop_step (hcs c hself) (hseen c hself),
      ih hnodup (fun d hd => hcs d (List.mem_cons_of_mem _ hd)) hunseen, List.flatMap_cons,
      List.append_assoc]

/-- `chain_bytes` of a directory. -/
theorem chainBytes_none (h : LinkedChain next last c cs) (hlast : chainEnd ≤ last)
    (hnodup : cs.Nodup) (hcs : ∀ c ∈ cs, Readable vol next c) :
    chainBytes vol c none = .ok (cs.flatMap (clusterSlice vol)) := by
  have hstart := (hcs c h.start_mem).ge_two
  have hloop := chainLoop_linked h hlast hnodup hcs (fun d _ => Finset.notMem_empty d) []
  rw [chainBytes, if_neg nofun]
  exact Prog.bind_eq_ok_iff.mpr ⟨⟨⟩, expect_of hstart, Prog.bind_eq_ok_iff.mpr ⟨_, hloop, rfl⟩⟩

/-- `chain_bytes` of a file, whose bytes are at the start of its chain. -/
theorem chainBytes_some (h : LinkedChain next last c cs) (hlast : chainEnd ≤ last)
    (hnodup : cs.Nodup) (hcs : ∀ c ∈ cs, Readable vol next c) {data : Bytes}
    (hdata : data <+: cs.flatMap (clusterSlice vol)) :
    chainBytes vol c (some data.length) = .ok data := by
  have hstart := (hcs c h.start_mem).ge_two
  have hloop := chainLoop_linked h hlast hnodup hcs (fun d _ => Finset.notMem_empty d) []
  have hsize := hdata.length_le
  obtain ⟨rest, hrest⟩ := hdata
  by_cases hempty : data = []
  · rw [chainBytes, if_pos (by rw [hempty]; rfl), hempty]
  · have hlength : ¬some data.length = some 0 := by
      rw [Option.some_inj, List.length_eq_zero_iff]
      exact hempty
    rw [chainBytes, if_neg hlength]
    refine Prog.bind_eq_ok_iff.mpr ⟨⟨⟩, expect_of hstart, Prog.bind_eq_ok_iff.mpr ⟨_, hloop, ?_⟩⟩
    refine Prog.bind_eq_ok_iff.mpr ⟨⟨⟩, expect_of hsize, ?_⟩
    rw [← hrest, List.nil_append, List.take_left]
    rfl

end Chains

/-! ## Filling a dictionary -/

/-- The dictionary after the assignments of a list. -/
def setAll (files : Files) (new : Files) : Files :=
  new.foldl (fun files file => setItem files file.1 file.2) files

theorem mem_keys_setItem {files : Files} {path key : List Char} {data : Bytes} :
    key ∈ (setItem files path data).map Prod.fst ↔ key ∈ files.map Prod.fst ∨ key = path := by
  rw [setItem]
  split
  · rename_i hin
    have hkeys : (files.map fun file => if file.1 = path then (path, data) else file).map Prod.fst =
        files.map Prod.fst := by
      rw [List.map_map]
      refine List.map_congr_left fun file _ => ?_
      rw [Function.comp_apply]
      split
      · exact Eq.symm ‹_›
      · rfl
    rw [hkeys]
    exact ⟨.inl, fun h => h.elim id fun heq => heq ▸ hin⟩
  · rw [List.map_append, List.mem_append, List.map_singleton, List.mem_singleton]

/-- Every key that is assigned is there. -/
theorem mem_keys_setAll {files new : Files} {key : List Char} :
    key ∈ (setAll files new).map Prod.fst ↔ key ∈ files.map Prod.fst ∨ key ∈ new.map Prod.fst := by
  induction new generalizing files with
  | nil => simp [setAll]
  | cons file new ih =>
    rw [setAll, List.foldl_cons, ← setAll, ih, mem_keys_setItem, List.map_cons, List.mem_cons,
      or_assoc]

/-- Distinct new keys are appended. -/
theorem setAll_of_nodup {files new : Files} (h : ((files ++ new).map Prod.fst).Nodup) :
    setAll files new = files ++ new := by
  induction new generalizing files with
  | nil => exact (List.append_nil files).symm
  | cons file new ih =>
    have hfresh : file.1 ∉ files.map Prod.fst := by
      intro hin
      rw [List.map_append, List.nodup_append] at h
      exact h.2.2 _ hin _ List.mem_cons_self rfl
    have hset : setItem files file.1 file.2 = files ++ [file] := if_neg hfresh
    rw [List.append_cons] at h ⊢
    rw [setAll, List.foldl_cons, hset]
    exact ih h

end Sypas.ValidateMedia
