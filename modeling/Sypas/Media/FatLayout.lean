import Mathlib

/-!
# The layout of the FAT16 volume (`tools/mkfat.py`)

The constants of the builder, the loop that sizes the FAT, and the regions that a volume
is made of. The number of clusters and the size of the FAT depend on each other; the loop
ends because a larger FAT leaves fewer clusters.

## Main definitions

- `Sypas.Mkfat.sizeFat` — the loop that sizes the FAT
- `Sypas.Mkfat.Geometry` — sizes that fit together, which `geometry` computes
- `Sypas.Mkfat.Region` — the parts of the image

## Main results

- `Sypas.Mkfat.fatNeed_anti` — a larger FAT never needs more sectors
- `Sypas.Mkfat.sizeFat_iterate` — the rounds of the loop
- `Sypas.Mkfat.Geometry.region_unique`, `Sypas.Mkfat.Region.Has.lt` — the regions partition the
  image
-/

namespace Sypas.Mkfat

def sec : ℕ := 512
def spc : ℕ := 1
def reserved : ℕ := 4
def nfats : ℕ := 2
def rootEntries : ℕ := 512
def rootSecs : ℕ := rootEntries * 32 / sec
def clusterBytes : ℕ := spc * sec

/-- What stops the builder. -/
inductive BuildError where
  /-- `cluster count … out of FAT16 range` -/
  | clusterCount
  /-- a mapping without `=` -/
  | noEquals
  /-- a source that cannot be read -/
  | unreadable
  /-- a destination without a name -/
  | noName
  /-- `image too small for contents` -/
  | imageTooSmall
  /-- `… does not fit 8.3` -/
  | nameTooLong
  | notAscii
  /-- a number that `struct.pack` has no room for -/
  | structRange
  /-- `root directory full` -/
  | rootFull
deriving DecidableEq, Repr

/-! ## The size of the FAT -/

def dataSecs (totalSecs fatSecs : ℤ) : ℤ := totalSecs - reserved - nfats * fatSecs - rootSecs

def clusterCount (totalSecs fatSecs : ℤ) : ℤ := dataSecs totalSecs fatSecs / spc

/-- The sectors of a FAT for the clusters that a FAT of `fatSecs` leaves. -/
def fatNeed (totalSecs fatSecs : ℤ) : ℤ :=
  ((clusterCount totalSecs fatSecs + 2) * 2 + sec - 1) / sec

theorem clusterCount_eq (totalSecs fatSecs : ℤ) :
    clusterCount totalSecs fatSecs = totalSecs - 36 - 2 * fatSecs := by
  simp only [clusterCount, dataSecs, reserved, nfats, rootSecs, rootEntries, sec, spc]
  omega

theorem fatNeed_eq (totalSecs fatSecs : ℤ) :
    fatNeed totalSecs fatSecs = ((totalSecs - 34 - 2 * fatSecs) * 2 + 511) / 512 := by
  simp only [fatNeed, clusterCount_eq, sec]
  omega

theorem fatNeed_anti (totalSecs : ℤ) {fatSecs fatSecs' : ℤ} (h : fatSecs ≤ fatSecs') :
    fatNeed totalSecs fatSecs' ≤ fatNeed totalSecs fatSecs := by
  rw [fatNeed_eq, fatNeed_eq]
  omega

/-- The loop that sizes the FAT. -/
def sizeFat (totalSecs fatSecs : ℤ) : ℤ :=
  if fatNeed totalSecs fatSecs ≤ fatSecs then fatSecs
  else sizeFat totalSecs (fatNeed totalSecs fatSecs)
termination_by (fatNeed totalSecs fatSecs - fatSecs).toNat
decreasing_by
  -- the next round needs no more than this one asked for
  have hanti := fatNeed_anti totalSecs (show fatSecs ≤ fatNeed totalSecs fatSecs by omega)
  omega

/-- The loop makes at most two rounds. -/
theorem sizeFat_eq (totalSecs fatSecs : ℤ) :
    sizeFat totalSecs fatSecs = max fatSecs (fatNeed totalSecs fatSecs) := by
  rw [sizeFat]
  by_cases hfits : fatNeed totalSecs fatSecs ≤ fatSecs
  · rw [if_pos hfits, max_eq_left hfits]
  · have hanti := fatNeed_anti totalSecs (show fatSecs ≤ fatNeed totalSecs fatSecs by omega)
    rw [if_neg hfits, sizeFat, if_pos hanti, max_eq_right (by omega)]

/-- The loop ends with the first round whose FAT is large enough, which is one of the first two. -/
theorem sizeFat_iterate (totalSecs fatSecs : ℤ) :
    ∃ n ≤ 1, (∀ k < n, ¬fatNeed totalSecs ((fatNeed totalSecs)^[k] fatSecs) ≤
        (fatNeed totalSecs)^[k] fatSecs) ∧
      fatNeed totalSecs ((fatNeed totalSecs)^[n] fatSecs) ≤ (fatNeed totalSecs)^[n] fatSecs ∧
      sizeFat totalSecs fatSecs = (fatNeed totalSecs)^[n] fatSecs := by
  by_cases hfits : fatNeed totalSecs fatSecs ≤ fatSecs
  · refine ⟨0, zero_le_one, fun k hk => absurd hk (Nat.not_lt_zero k), hfits, ?_⟩
    rw [sizeFat, if_pos hfits, Function.iterate_zero_apply]
  · have hanti := fatNeed_anti totalSecs (show fatSecs ≤ fatNeed totalSecs fatSecs by omega)
    refine ⟨1, le_rfl, fun k hk => ?_, hanti, ?_⟩
    · rw [Nat.lt_one_iff.1 hk, Function.iterate_zero_apply]
      exact hfits
    · rw [sizeFat_eq, max_eq_right (by omega), Function.iterate_one]

theorem fatNeed_sizeFat_le (totalSecs fatSecs : ℤ) :
    fatNeed totalSecs (sizeFat totalSecs fatSecs) ≤ sizeFat totalSecs fatSecs := by
  rw [sizeFat_eq]
  exact (fatNeed_anti totalSecs (le_max_left _ _)).trans (le_max_right _ _)

theorem le_sizeFat (totalSecs fatSecs : ℤ) : fatSecs ≤ sizeFat totalSecs fatSecs := by
  rw [sizeFat_eq]
  exact le_max_left _ _

/-! ## Geometry -/

/-- Sizes, in sectors and clusters, that fit together and that FAT16 allows. -/
structure Geometry where
  totalSecs : ℕ
  fatSecs : ℕ
  clusters : ℕ
  sectors : reserved + nfats * fatSecs + rootSecs + clusters = totalSecs
  covered : (clusters + 2) * 2 ≤ fatSecs * sec
  enough : 4085 ≤ clusters
  few : clusters < 65525

/-- The sizes of an image of `sizeMib` mebibytes. -/
def geometry (sizeMib : ℤ) : Except BuildError Geometry :=
  let totalSecs := sizeMib * 1024 * 1024 / sec
  let fatSecs := sizeFat totalSecs 1
  let clusters := clusterCount totalSecs fatSecs
  if h : 4085 ≤ clusters ∧ clusters < 65525 then
    .ok
      { totalSecs := totalSecs.toNat
        fatSecs := fatSecs.toNat
        clusters := clusters.toNat
        sectors := by
          have hcount : clusters = totalSecs - 36 - 2 * fatSecs := clusterCount_eq _ _
          have hpos : 1 ≤ fatSecs := le_sizeFat _ _
          simp only [reserved, nfats, rootSecs, rootEntries, sec]
          omega
        covered := by
          have hcount : clusters = totalSecs - 36 - 2 * fatSecs := clusterCount_eq _ _
          have hneed : fatNeed totalSecs fatSecs ≤ fatSecs := fatNeed_sizeFat_le _ _
          rw [fatNeed_eq] at hneed
          simp only [sec]
          omega
        enough := by omega
        few := by omega }
  else .error .clusterCount

/-- `geometry` takes the sizes that the loop ends with, if their clusters are in range. -/
theorem geometry_of_range {sizeMib fatSecs clusters : ℤ}
    (hfat : fatSecs = sizeFat (sizeMib * 1024 * 1024 / sec) 1)
    (hclusters : clusters = clusterCount (sizeMib * 1024 * 1024 / sec) fatSecs)
    (hrange : 4085 ≤ clusters ∧ clusters < 65525) :
    ∃ g, geometry sizeMib = .ok g ∧ (g.totalSecs : ℤ) = sizeMib * 1024 * 1024 / sec ∧
      (g.fatSecs : ℤ) = fatSecs ∧ (g.clusters : ℤ) = clusters := by
  subst hfat hclusters
  have hpos := le_sizeFat (sizeMib * 1024 * 1024 / sec) 1
  have hcount := clusterCount_eq (sizeMib * 1024 * 1024 / sec)
    (sizeFat (sizeMib * 1024 * 1024 / sec) 1)
  refine ⟨_, dif_pos hrange, ?_, ?_, ?_⟩
  · exact Int.toNat_of_nonneg (by omega)
  · exact Int.toNat_of_nonneg (by omega)
  · exact Int.toNat_of_nonneg (by omega)

/-- The sizes that `geometry` computes have room in the fields of the boot sector. -/
theorem geometry_small {sizeMib : ℤ} {g : Geometry} (h : geometry sizeMib = .ok g) :
    g.fatSecs < 65536 ∧ g.totalSecs < 2 ^ 32 := by
  unfold geometry at h
  dsimp only at h
  split at h
  · rename_i hrange
    obtain rfl := Except.ok.inj h
    dsimp only
    rw [clusterCount_eq, sizeFat_eq, fatNeed_eq] at hrange
    rw [sizeFat_eq, fatNeed_eq]
    omega
  · cases h

namespace Geometry

/-- The first sector of the data area. -/
def dataStart (g : Geometry) : ℕ := reserved + nfats * g.fatSecs + rootSecs

/-- `cluster_off`. -/
def clusterOff (g : Geometry) (c : ℕ) : ℕ := (g.dataStart + (c - 2) * spc) * sec

/-- Where copy `n` of the FAT starts. -/
def fatOff (g : Geometry) (n : ℕ) : ℕ := (reserved + n * g.fatSecs) * sec

def rootOff (g : Geometry) : ℕ := (reserved + nfats * g.fatSecs) * sec

theorem fatOff_eq (g : Geometry) (n : ℕ) : g.fatOff n = 2048 + n * (g.fatSecs * 512) := by
  simp only [fatOff, reserved, sec]
  ring

theorem rootOff_eq (g : Geometry) : g.rootOff = 2048 + 2 * (g.fatSecs * 512) := g.fatOff_eq 2

theorem clusterOff_eq (g : Geometry) (c : ℕ) :
    g.clusterOff c = g.rootOff + 16384 + (c - 2) * 512 := by
  simp only [clusterOff, dataStart, rootOff, reserved, nfats, rootSecs, rootEntries, sec, spc]
  ring

theorem totalSecs_eq (g : Geometry) : g.totalSecs * 512 = g.rootOff + 16384 + g.clusters * 512 := by
  rw [← g.sectors, rootOff_eq]
  simp only [reserved, nfats, rootSecs, rootEntries, sec]
  ring

end Geometry

/-! ## Regions -/

/-- The parts of a volume: the reserved sectors, the copies of the FAT, the root directory
    and the clusters of the data area. -/
inductive Region where
  | reserved
  | fat (copy : ℕ)
  | root
  | cluster (c : ℕ)
deriving DecidableEq, Repr

namespace Region

/-- The regions that a volume has. -/
def In (g : Geometry) : Region → Prop
  | reserved => True
  | fat copy => copy < nfats
  | root => True
  | cluster c => 2 ≤ c ∧ c < g.clusters + 2

def start (g : Geometry) : Region → ℕ
  | reserved => 0
  | fat copy => g.fatOff copy
  | root => g.rootOff
  | cluster c => g.clusterOff c

def size (g : Geometry) : Region → ℕ
  | reserved => Mkfat.reserved * sec
  | fat _ => g.fatSecs * sec
  | root => rootEntries * 32
  | cluster _ => clusterBytes

/-- The region holds byte `k` of the image. -/
def Has (g : Geometry) (r : Region) (k : ℕ) : Prop := r.start g ≤ k ∧ k < r.start g + r.size g

theorem has_reserved {g : Geometry} {k : ℕ} : reserved.Has g k ↔ k < 2048 := by
  simp [Has, start, size, Mkfat.reserved, sec]

theorem has_fat {g : Geometry} {k copy : ℕ} : (fat copy).Has g k ↔
    2048 + copy * (g.fatSecs * 512) ≤ k ∧ k < 2048 + (copy + 1) * (g.fatSecs * 512) := by
  simp only [Has, start, size, g.fatOff_eq, sec]
  rw [Nat.add_mul, Nat.one_mul, Nat.add_assoc]

theorem has_root {g : Geometry} {k : ℕ} :
    root.Has g k ↔ g.rootOff ≤ k ∧ k < g.rootOff + 16384 := by
  simp [Has, start, size, rootEntries]

theorem has_cluster {g : Geometry} {k c : ℕ} : (cluster c).Has g k ↔
    g.rootOff + 16384 + (c - 2) * 512 ≤ k ∧ k < g.rootOff + 16384 + (c - 2) * 512 + 512 := by
  simp only [Has, start, size, g.clusterOff_eq, clusterBytes, spc, sec, Nat.one_mul]

end Region

/-- The region of byte `k`. -/
def Geometry.regionAt (g : Geometry) (k : ℕ) : Region :=
  if k < 2048 then .reserved
  else if k < 2048 + g.fatSecs * 512 then .fat 0
  else if k < g.rootOff then .fat 1
  else if k < g.rootOff + 16384 then .root
  else .cluster (2 + (k - (g.rootOff + 16384)) / 512)

theorem Region.has_iff {g : Geometry} {r : Region} (hin : r.In g) (k : ℕ) :
    r.Has g k ↔ g.regionAt k = r ∧ k < g.totalSecs * sec := by
  have hroot := g.rootOff_eq
  have htotal := g.totalSecs_eq
  unfold Geometry.regionAt
  simp only [sec]
  cases r with
  | reserved =>
    rw [has_reserved]
    split_ifs <;> simp <;> omega
  | fat copy =>
    rw [has_fat]
    have hcopy : copy = 0 ∨ copy = 1 := by
      simp only [In, nfats] at hin
      omega
    obtain rfl | rfl := hcopy <;> split_ifs <;> simp <;> omega
  | root =>
    rw [has_root]
    split_ifs <;> simp <;> omega
  | cluster c =>
    rw [has_cluster]
    obtain ⟨hlow, hhigh⟩ := hin
    split_ifs <;> simp <;> omega

theorem Geometry.regionAt_in (g : Geometry) {k : ℕ} (hk : k < g.totalSecs * sec) :
    (g.regionAt k).In g := by
  have hroot := g.rootOff_eq
  have htotal := g.totalSecs_eq
  simp only [sec] at hk
  unfold regionAt
  split_ifs <;> simp only [Region.In, nfats] <;> omega

/-- Every byte of the image lies in exactly one region. -/
theorem Geometry.region_unique (g : Geometry) {k : ℕ} (hk : k < g.totalSecs * sec) :
    ∃! r : Region, r.In g ∧ r.Has g k := by
  have hin := g.regionAt_in hk
  refine ⟨g.regionAt k, ⟨hin, (Region.has_iff hin k).2 ⟨rfl, hk⟩⟩, fun r hr => ?_⟩
  exact ((Region.has_iff hr.1 k).1 hr.2).1.symm

/-- No region reaches past the end of the image. -/
theorem Region.Has.lt {g : Geometry} {r : Region} (hin : r.In g) {k : ℕ} (hk : r.Has g k) :
    k < g.totalSecs * sec :=
  ((has_iff hin k).1 hk).2

end Sypas.Mkfat
