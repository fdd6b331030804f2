import Sypas.Media.Fat16Files
import Sypas.Media.FatVolume

/-!
# The builder's volume under the reader

The reader of the media test takes the builder's volume for what it is: the boot sector passes
its checks, and the chain of every node that the builder's traversals visit is read as the node's
contents, up to zeros at the end of the last cluster.

## Main definitions

- `Sypas.Mkfat.Volume.reader` — what the reader takes from the boot sector
- `Sypas.Mkfat.Volume.clusterAt` — the cluster of the directory at a path

## Main results

- `Sypas.Mkfat.sizeFat_spec` — the sizes of the builder suit the reader
- `Sypas.Mkfat.Built.openVolume_eq` — the boot sector is accepted
- `Sypas.Mkfat.Built.chainBytes_file`, `Sypas.Mkfat.Built.chainBytes_directory`,
  `Sypas.Mkfat.Built.root_slice` — what the chains hold
-/

namespace Sypas.Mkfat

open ValidateMedia (Fat16 u16 u32 byteAt openVolume chainBytes clusterSlice expect_of)

variable {host : Host} {sizeMib : ℤ} {mappings : List Str} {v : Volume} {bpb fatBlob : Bytes}

/-- The cluster of the directory at a path, `0` for the root. -/
def Volume.clusterAt (v : Volume) (path : List Str) : ℕ :=
  match v.tree.at? path with
  | none => 0
  | some x => x.1.cluster

/-- What the reader takes from the boot sector. -/
def Volume.reader (v : Volume) : Fat16 where
  image := v.image
  fat := v.fatCopy 0
  rootStart := v.geo.rootOff
  rootBytes := 16384
  dataStart := v.geo.rootOff + 16384
  clusterBytes := 512

/-! ## Cluster numbers -/

/-- For every image size the loop that sizes the FAT ends, after at most one more round. If the
    builder then takes the sizes, the FAT has an entry for every cluster, the parts add up to the
    image, the FAT's size has room in its field, and no cluster number ends a chain. -/
theorem sizeFat_spec (sizeMib : ℤ) :
    ∃ totalSecs fatSecs clusters : ℤ, totalSecs = sizeMib * 1024 * 1024 / sec ∧
    fatSecs = sizeFat totalSecs 1 ∧ clusters = clusterCount totalSecs fatSecs ∧
    (∃ n ≤ 1, (∀ k < n, ¬fatNeed totalSecs ((fatNeed totalSecs)^[k] 1) ≤
        (fatNeed totalSecs)^[k] 1) ∧
      fatNeed totalSecs ((fatNeed totalSecs)^[n] 1) ≤ (fatNeed totalSecs)^[n] 1 ∧
      fatSecs = (fatNeed totalSecs)^[n] 1) ∧
    (4085 ≤ clusters ∧ clusters < 65525 →
      (∃ g, geometry sizeMib = .ok g ∧ (g.totalSecs : ℤ) = totalSecs ∧
        (g.fatSecs : ℤ) = fatSecs ∧ (g.clusters : ℤ) = clusters) ∧
      (clusters + 2) * 2 ≤ fatSecs * 512 ∧
      reserved + nfats * fatSecs + rootSecs + clusters = totalSecs ∧
      0 ≤ fatSecs ∧ fatSecs < 2 ^ 16 ∧
      ∀ c, 2 ≤ c → c ≤ clusters + 1 → c < ValidateMedia.chainEnd) := by
  refine ⟨_, _, _, rfl, rfl, rfl, sizeFat_iterate _ 1, fun hrange => ?_⟩
  obtain ⟨g, hg, htotal, hfat, hclusters⟩ := geometry_of_range rfl rfl hrange
  have hcovered := g.covered
  have hsectors := g.sectors
  have hsmall := (geometry_small hg).1
  have hend : (ValidateMedia.chainEnd : ℤ) = 0xFFF8 := rfl
  have hsec : sec = 512 := rfl
  refine ⟨⟨g, hg, htotal, hfat, hclusters⟩, ?_, ?_, ?_, ?_, fun c _ hc => ?_⟩
  · rw [← hclusters, ← hfat]
    rw [hsec] at hcovered
    exact_mod_cast hcovered
  · rw [← hclusters, ← hfat, ← htotal]
    exact_mod_cast hsectors
  · rw [← hfat]
    exact Int.natCast_nonneg _
  · rw [← hfat]
    exact_mod_cast hsmall
  · rw [hend]
    omega

/-! ## The boot sector -/

/-- The widths of the fields of the boot sector. -/
def bpbWidths : List ℕ := [3, 8, 2, 1, 2, 1, 2, 2, 1, 2, 2, 2, 4, 4, 1, 1, 1, 4, 11, 8]

theorem map_width_bpbFields (g : Geometry) : (bpbFields g).map PackField.width = bpbWidths := rfl

/-- A field of the boot sector as it is in the image. -/
theorem Built.bpb_slice (h : Built host sizeMib mappings v) (hi : Imaged v bpb fatBlob)
    {k i j : ℕ} {f : PackField} (hf : (bpbFields v.geo)[k]? = some f)
    (hstart : i = (bpbWidths.take k).sum) (hstop : j = i + f.width) :
    v.image.slice i j = f.bytes := by
  have hrecord := (pack_eq_ok_iff.1 hi.packed).2
  have hwhole : v.image.slice 0 bpb.length = bpb := by
    have hmem : ⟨0, bpb⟩ ∈ v.patches bpb fatBlob := List.mem_append_left _ List.mem_cons_self
    simpa only [Patch.stop, Nat.zero_add] using h.slice_of_mem hi hmem
  rw [← map_width_bpbFields v.geo, ← List.map_take] at hstart
  obtain ⟨hfield, hend⟩ := PackField.slice_record_getElem? hf hstart hstop
  rw [← hrecord] at hfield hend
  rw [← hwhole, Bytes.slice_slice (by omega), Nat.zero_add, Nat.zero_add] at hfield
  exact hfield

/-- A number of the boot sector. -/
theorem Built.bpb_num (h : Built host sizeMib mappings v) (hi : Imaged v bpb fatBlob)
    {k i n x : ℕ} (hf : (bpbFields v.geo)[k]? = some (.num n x))
    (hstart : i = (bpbWidths.take k).sum) :
    Bytes.leValue (v.image.slice i (i + n)) = x := by
  have hfits := (pack_eq_ok_iff.1 hi.packed).1 _ (List.mem_of_getElem? hf)
  have hslice : v.image.slice i (i + n) = (PackField.num n x).bytes :=
    h.bpb_slice hi hf hstart rfl
  rw [hslice]
  exact Bytes.leValue_leBytes hfits

theorem byteAt_eq_leValue (b : Bytes) (i : ℕ) :
    byteAt b i = Bytes.leValue (b.slice i (i + 1)) := by
  have hslice : b.slice i (i + 1) = (b[i]?).toList := by
    apply List.ext_getElem?
    intro k
    rw [Bytes.getElem?_slice]
    cases hb : b[i]? with
    | none =>
      have hk : b[i + k]? = none := by
        rw [List.getElem?_eq_none_iff] at hb ⊢
        omega
      simp [hk]
    | some x =>
      cases k with
      | zero => simp [hb]
      | succ k => simp
  rw [byteAt, hslice, List.getD_eq_getElem?_getD]
  cases b[i]? with
  | none => rfl
  | some x => simp [Bytes.leValue]

/-- The builder's boot sector passes the reader's checks. -/
theorem Built.openVolume_eq (h : Built host sizeMib mappings v) :
    openVolume v.image = .ok v.reader := by
  obtain ⟨bpb, fatBlob, hi⟩ := h.imaged
  have hlength := h.length_image
  have htotal := v.geo.totalSecs_eq
  have hroot := v.geo.rootOff_eq
  have henough := v.geo.enough
  simp only [sec] at hlength
  have hsignature : v.image.slice 510 512 = [0x55, 0xAA] := by
    have hmem : ⟨510, [0x55, 0xAA]⟩ ∈ v.patches bpb fatBlob :=
      List.mem_append_left _ (List.mem_cons_of_mem _ List.mem_cons_self)
    exact h.slice_of_mem hi hmem
  -- the fields of the boot sector that the reader takes, by their place in the layout
  have hsec : u16 v.image 11 = 512 := h.bpb_num hi (k := 2) (n := 2) rfl (by decide)
  have hspc : byteAt v.image 13 = 1 :=
    (byteAt_eq_leValue _ _).trans (h.bpb_num hi (k := 3) (n := 1) rfl (by decide))
  have hreserved : u16 v.image 14 = 4 := h.bpb_num hi (k := 4) (n := 2) rfl (by decide)
  have hfats : byteAt v.image 16 = 2 :=
    (byteAt_eq_leValue _ _).trans (h.bpb_num hi (k := 5) (n := 1) rfl (by decide))
  have hentries : u16 v.image 17 = 512 := h.bpb_num hi (k := 6) (n := 2) rfl (by decide)
  have htotal16 : u16 v.image 19 = if v.geo.totalSecs < 0x10000 then v.geo.totalSecs else 0 :=
    h.bpb_num hi (k := 7) (n := 2) rfl (by decide)
  have hfatSecs : u16 v.image 22 = v.geo.fatSecs := h.bpb_num hi (k := 9) (n := 2) rfl (by decide)
  have htotal32 : u32 v.image 32 = if v.geo.totalSecs ≥ 0x10000 then v.geo.totalSecs else 0 :=
    h.bpb_num hi (k := 13) (n := 4) rfl (by decide)
  have hlabel : v.image.slice 54 62 = ValidateMedia.fat16Label := by
    have hascii : (PackField.text 8 (ascii "FAT16   ")).bytes = ValidateMedia.fat16Label := by
      decide
    rw [← hascii]
    exact h.bpb_slice hi (k := 19) rfl (by decide) rfl
  have hsectors : (if u16 v.image 19 ≠ 0 then u16 v.image 19 else u32 v.image 32) =
      v.geo.totalSecs := by
    rw [htotal16, htotal32]
    split_ifs <;> omega
  have hlayout : 2048 + v.geo.fatSecs * 512 ≤ v.image.length ∧
      v.geo.rootOff + 16384 ≤ v.image.length := by
    omega
  have hfatCopy : v.fatCopy 0 = v.image.slice 2048 (2048 + v.geo.fatSecs * 512) := by
    rw [Volume.fatCopy, v.geo.fatOff_eq 0, Nat.zero_mul]
    rfl
  have hrootOff : (4 + 2 * v.geo.fatSecs) * 512 = v.geo.rootOff := by
    rw [hroot]
    ring
  have hlong : v.image.length ≥ 512 := by omega
  have hfits : v.geo.totalSecs * 512 ≤ v.image.length := by omega
  -- the checks in the order of the source
  unfold openVolume
  refine Prog.bind_eq_ok_iff.2 ⟨⟨⟩, expect_of hlong, ?_⟩
  refine Prog.bind_eq_ok_iff.2 ⟨⟨⟩, expect_of hsignature, ?_⟩
  simp only [hsec, hspc, hreserved, hfats, hentries, hsectors, hfatSecs]
  refine Prog.bind_eq_ok_iff.2 ⟨⟨⟩, expect_of trivial, ?_⟩
  refine Prog.bind_eq_ok_iff.2 ⟨⟨⟩, expect_of trivial, ?_⟩
  refine Prog.bind_eq_ok_iff.2 ⟨⟨⟩, expect_of trivial, ?_⟩
  refine Prog.bind_eq_ok_iff.2 ⟨⟨⟩, expect_of hlabel, ?_⟩
  refine Prog.bind_eq_ok_iff.2 ⟨⟨⟩, expect_of hfits, ?_⟩
  rw [hrootOff]
  refine Prog.bind_eq_ok_iff.2 ⟨⟨⟩, expect_of hlayout, ?_⟩
  rw [Volume.reader, hfatCopy]
  rfl

/-! ## Chains -/

theorem clusterStart_reader (v : Volume) (c : ℕ) :
    ValidateMedia.clusterStart v.reader c = v.geo.rootOff + 16384 + (c - 2) * 512 := rfl

/-- The reader follows the links of the volume. -/
theorem Built.nextCluster_eq (h : Built host sizeMib mappings v) {c : ℕ}
    (hc : c < v.geo.clusters + 2) : ValidateMedia.nextCluster v.reader c = .ok (v.fatEntry c) := by
  have hcovered := v.geo.covered
  have htotal := v.geo.totalSecs_eq
  have hroot := v.geo.rootOff_eq
  have hfat := v.geo.fatOff_eq 0
  have hlength := h.length_image
  simp only [sec] at hcovered hlength
  have hlen : (v.fatCopy 0).length = v.geo.fatSecs * 512 := by
    rw [Volume.fatCopy, Bytes.length_slice (by simp only [sec]; omega), sec]
    omega
  refine Prog.bind_eq_ok_iff.2 ⟨⟨⟩, expect_of (show c * 2 + 2 ≤ (v.fatCopy 0).length by omega), ?_⟩
  change Except.ok (u16 (v.fatCopy 0) (c * 2)) = _
  rw [u16, Volume.fatCopy, Bytes.slice_slice (by simp only [sec]; omega), Volume.fatEntry,
    Nat.mul_comm c 2, ← Nat.add_assoc]

/-- The chain of a node that takes room, as the reader sees it. -/
theorem Built.readable_run (h : Built host sizeMib mappings v) {e : Entry}
    (he : e ∈ v.tree.walk []) (hpos : e.needed ≠ 0) :
    ∀ c ∈ e.run.members, ValidateMedia.Readable v.reader v.fatEntry c := by
  intro c hc
  have hbounds := (h.owns_run he hpos).bounds c hc
  have hfew := v.geo.few
  have htotal := v.geo.totalSecs_eq
  have hlength := h.length_image
  simp only [sec] at hlength
  exact {
    ge_two := hbounds.1
    lt_end := by
      rw [ValidateMedia.chainEnd]
      omega
    inside := by
      rw [clusterStart_reader]
      change v.geo.rootOff + 16384 + (c - 2) * 512 + 512 ≤ v.image.length
      omega
    link := h.nextCluster_eq hbounds.2 }

/-- The bytes of the clusters of a write: what was written, then zeros. -/
theorem Built.cluster_slice (h : Built host sizeMib mappings v) {writes : List RenderWrite}
    (hwrites : v.tree.render host v.geo 0 = .ok writes) {e : Entry}
    (he : e ∈ (v.tree.walk []).filter fun e => e.needed ≠ 0) {w : RenderWrite} (hw : w ∈ writes)
    (hrendered : e.Rendered host v.geo w) :
    e.run.members.flatMap (clusterSlice v.reader) =
      w.patch.bytes ++ Bytes.zeros (clusterStop w.patch - w.patch.stop) := by
  obtain ⟨bpb, fatBlob, hi⟩ := h.imaged
  obtain ⟨entries, writes', hentries, hroom, hwrites', -, heq⟩ := h.patches_eq bpb fatBlob
  obtain rfl := Except.ok.inj (hwrites.symm.trans hwrites')
  obtain ⟨hlow, hhigh, hoff, -⟩ := h.rendered_bounds he hrendered
  have hfat := hi.length_fatBlob
  rw [h.length_fat] at hfat
  have htotal := v.geo.totalSecs_eq
  have hheads := (headPatches_ascending hi.length_bpb hfat hroom).2
  have hstop := clusterStop_rendered hrendered
  have hle := stop_le_clusterStop w.patch
  have hstart : w.patch.off ≤ w.patch.stop := Nat.le_add_right _ _
  have hin : w.patch ∈ writes.map (·.patch) := List.mem_map_of_mem hw
  have hpatch : w.patch ∈ v.patches bpb fatBlob := heq ▸ List.mem_append_right _ hin
  -- nothing is written behind the contents in the last cluster
  have hfree : ∀ u ∈ v.patches bpb fatBlob,
      clusterStop w.patch ≤ u.off ∨ u.stop ≤ w.patch.stop := by
    intro u hu
    rw [heq, List.mem_append] at hu
    obtain hu | hu := hu
    · have := hheads u hu
      omega
    · by_cases hsame : w.patch = u
      · exact .inr (hsame ▸ le_rfl)
      · have hsymm : Std.Symm fun w w' : Patch =>
            clusterStop w ≤ w'.off ∨ clusterStop w' ≤ w.off := ⟨fun _ _ => Or.symm⟩
        have happart := (h.clusters_apart hwrites).forall hin hu hsame
        have := stop_le_clusterStop u
        omega
  have hrun : e.run.members = List.range' e.node.cluster e.needed := by
    rw [Run.members, h.count_eq (List.mem_filter.1 he).1]
    rfl
  have hpieces : (List.range' e.node.cluster e.needed).flatMap (clusterSlice v.reader) =
      v.image.slice (ValidateMedia.clusterStart v.reader e.node.cluster)
        (ValidateMedia.clusterStart v.reader e.node.cluster + e.needed * 512) := by
    refine v.image.flatMap_slice e.needed fun c hc => ?_
    change ValidateMedia.clusterStart v.reader (c + 1) = ValidateMedia.clusterStart v.reader c + 512
    rw [clusterStart_reader, clusterStart_reader]
    omega
  rw [clusterStart_reader, ← hoff, ← hstop] at hpieces
  rw [hrun]
  refine hpieces.trans ?_
  rw [← Bytes.slice_append_slice hstart hle, h.slice_of_mem hi hpatch,
    h.slice_of_untouched hi (by simp only [sec]; omega) hfree]

/-- A node that takes room is written once. -/
theorem Built.exists_write (h : Built host sizeMib mappings v) {e : Entry}
    (he : e ∈ v.tree.walk []) (hpos : e.needed ≠ 0) :
    ∃ writes w, v.tree.render host v.geo 0 = .ok writes ∧ w ∈ writes ∧
      v.tree.RenderedBelow host v.geo [] 0 e w := by
  obtain ⟨entries, writes, -, -, hwrites, -⟩ := h.renderRoot_eq
  have hmem : e ∈ (v.tree.walk []).filter fun e => e.needed ≠ 0 :=
    List.mem_filter.2 ⟨he, decide_eq_true hpos⟩
  obtain ⟨w, hw, hrendered⟩ := (Children.render_below hwrites []).exists_right hmem
  exact ⟨writes, w, hwrites, hw, hrendered⟩

theorem Built.linked_run (h : Built host sizeMib mappings v) {e : Entry}
    (he : e ∈ v.tree.walk []) (hpos : e.needed ≠ 0) :
    LinkedChain v.fatEntry 0xFFFF e.node.cluster e.run.members :=
  (h.owns_run he hpos).linked

theorem nodup_members (r : Run) : r.members.Nodup := List.nodup_range'

/-- The reader gets the data of a file that it finds. -/
theorem Built.chainBytes_file (h : Built host sizeMib mappings v) {e : Entry}
    (he : e ∈ v.tree.walk []) {data : Bytes} (hfile : e.node.data = some data) :
    chainBytes v.reader e.node.cluster (some data.length) = .ok data := by
  by_cases hempty : data = []
  · subst hempty
    rfl
  have hpos : e.needed ≠ 0 := by
    rw [Entry.needed_ne_zero, hfile]
    exact fun heq => hempty (Option.some.inj heq)
  obtain ⟨writes, w, hwrites, hw, hbelow⟩ := h.exists_write he hpos
  have hcontents := hbelow.rendered.contents
  rw [Entry.Contents, hfile] at hcontents
  have hslice := h.cluster_slice hwrites (List.mem_filter.2 ⟨he, decide_eq_true hpos⟩) hw
    hbelow.rendered
  refine ValidateMedia.chainBytes_some (h.linked_run he hpos) (by decide) (nodup_members _)
    (h.readable_run he hpos) ?_
  rw [hslice, hcontents]
  exact List.prefix_append _ _

/-- The reader gets the entries of a directory that it finds, then zeros. -/
theorem Built.chainBytes_directory (h : Built host sizeMib mappings v) {e : Entry}
    (he : e ∈ v.tree.walk []) (hdir : e.node.data = none) :
    ∃ bytes k, directory host e.node.cluster (v.clusterAt e.path.dropLast) e.children = .ok bytes ∧
      chainBytes v.reader e.node.cluster none = .ok (bytes ++ Bytes.zeros k) := by
  have hpos : e.needed ≠ 0 := by
    rw [Entry.needed_ne_zero, hdir]
    exact nofun
  obtain ⟨writes, w, hwrites, hw, hbelow⟩ := h.exists_write he hpos
  obtain ⟨c, hparent, hbytes⟩ := hbelow.directory hdir
  have hcluster : v.clusterAt e.path.dropLast = c := by
    unfold Volume.clusterAt
    obtain ⟨hpath, rfl⟩ | ⟨e', he', -, hpath, rfl⟩ := hparent
    · rw [hpath, Children.at?_root]
    · have hnode : v.tree.at? e'.path = some (e'.node, e'.children) := ((h.mem_walk e').1 he').1
      rw [← hpath, hnode]
  have hslice := h.cluster_slice hwrites (List.mem_filter.2 ⟨he, decide_eq_true hpos⟩) hw
    hbelow.rendered
  refine ⟨w.patch.bytes, clusterStop w.patch - w.patch.stop, hcluster ▸ hbytes, ?_⟩
  rw [← hslice]
  exact ValidateMedia.chainBytes_none (h.linked_run he hpos) (by decide) (nodup_members _)
    (h.readable_run he hpos)

/-- The reader gets the entries of the root directory, then zeros. -/
theorem Built.root_slice (h : Built host sizeMib mappings v) :
    ∃ entries k, v.tree.entries host = .ok entries ∧
      v.image.slice v.reader.rootStart (v.reader.rootStart + v.reader.rootBytes) =
        entries ++ Bytes.zeros k := by
  obtain ⟨bpb, fatBlob, hi⟩ := h.imaged
  obtain ⟨entries, writes, hentries, hroom, hwrites, -, heq⟩ := h.patches_eq bpb fatBlob
  have hfat := h.length_fatBlob hi
  have hbpb := hi.length_bpb
  have hnodes := (h.nodePatches hwrites).2
  have htotal := v.geo.totalSecs_eq
  have hfat0 := v.geo.fatOff_eq 0
  have hfat1 := v.geo.fatOff_eq 1
  have hroot := v.geo.rootOff_eq
  set w : Patch := ⟨v.geo.rootOff, entries⟩ with hw
  have hstop : w.stop = v.geo.rootOff + entries.length := rfl
  have hmem : w ∈ v.patches bpb fatBlob := by
    rw [heq]
    exact List.mem_append_left _ (by simp [headPatches, hw])
  have hfree : ∀ u ∈ v.patches bpb fatBlob, v.geo.rootOff + 16384 ≤ u.off ∨ u.stop ≤ w.stop := by
    intro u hu
    rw [heq, List.mem_append] at hu
    obtain hu | hu := hu
    · simp only [headPatches, List.mem_cons, List.not_mem_nil, or_false] at hu
      obtain rfl | rfl | rfl | rfl | rfl := hu <;>
        simp only [Patch.stop, List.length_cons, List.length_nil] at hstop ⊢ <;> omega
    · exact .inl (hnodes u hu).1
  refine ⟨entries, v.geo.rootOff + 16384 - w.stop, hentries, ?_⟩
  change v.image.slice v.geo.rootOff (v.geo.rootOff + 16384) = _
  rw [← Bytes.slice_append_slice (show v.geo.rootOff ≤ w.stop by omega)
    (show w.stop ≤ v.geo.rootOff + 16384 by omega), h.slice_of_untouched hi
    (by simp only [sec]; omega) hfree]
  exact congrArg (· ++ _) (h.slice_of_mem hi hmem)

end Sypas.Mkfat
