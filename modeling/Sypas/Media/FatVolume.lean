import Sypas.Media.FatRender

/-!
# The volume that the FAT builder makes

An image is sound if its regions partition it, every node of the tree that takes room has
a chain of clusters of its own, nothing else is marked in the FAT, and every write of
`render` stays where it belongs. The traversals do not look below files, so what a mapping
puts below another mapping's file is lost; this is the only way in which a volume can fail
to be sound.

## Main definitions

- `Sypas.Mkfat.Built` — a run of the builder that raises nothing
- `Sypas.Mkfat.Volume.Sound` — a sound volume

## Main results

- `Sypas.Mkfat.build_eq_ok_iff` — when the builder accepts, and what it makes
- `Sypas.Mkfat.build_sound_iff` — the volume is sound exactly if nothing is hidden
-/

namespace Sypas.Mkfat

variable {host : Host} {sizeMib : ℤ} {mappings : List Str} {v : Volume}

/-! ## What the builder makes -/

/-- The image is what the writes make of zeros. -/
structure Imaged (v : Volume) (bpb fatBlob : Bytes) : Prop where
  packed : pack (bpbFields v.geo) = .ok bpb
  packed_fat : pack (v.fat.map (.num 2)) = .ok fatBlob
  image : v.image = (Bytes.zeros (v.geo.totalSecs * sec)).patched
    (systemWrites v.geo bpb fatBlob ++ v.writes.map (·.patch))

/-- The volume of a run of the builder that raised nothing. -/
structure Built (host : Host) (sizeMib : ℤ) (mappings : List Str) (v : Volume) : Prop where
  geo : geometry sizeMib = .ok v.geo
  count : (loaded host mappings).length = mappings.length
  tree : v.tree = ((treeOf (loaded host mappings)).assign 2).1
  fits : ((treeOf (loaded host mappings)).assign 2).2 ≤ v.geo.clusters + 2
  fat : v.fat = v.tree.chainAll (emptyFat v.geo)
  writes : renderRoot host v.geo v.tree = .ok v.writes
  imaged : ∃ bpb fatBlob, Imaged v bpb fatBlob

theorem build_eq_ok_iff : build host sizeMib mappings = .ok v ↔ Built host sizeMib mappings v := by
  unfold build
  rw [Prog.bind_eq_ok_iff]
  constructor
  · rintro ⟨geo, hgeo, h⟩
    obtain ⟨tree, htree, h⟩ := Prog.bind_eq_ok_iff.1 h
    obtain ⟨hcount, rfl⟩ := foldlM_addMapping_eq_ok_iff.1 htree
    dsimp only at h
    split at h
    · cases h
    rename_i hfits
    obtain ⟨bpb, hbpb, h⟩ := Prog.bind_eq_ok_iff.1 h
    obtain ⟨fatBlob, hfatBlob, h⟩ := Prog.bind_eq_ok_iff.1 h
    obtain ⟨writes, hwrites, h⟩ := Prog.bind_eq_ok_iff.1 h
    obtain rfl := Except.ok.inj h
    have hle := (Children.assign_endToEnd (treeOf (loaded host mappings)) [] 2).le
    refine ⟨hgeo, hcount, rfl, ?_, rfl, hwrites, bpb, fatBlob, hbpb, hfatBlob, ?_⟩
    · change ¬((treeOf (loaded host mappings)).assign 2).2 - 2 > geo.clusters at hfits
      dsimp only
      omega
    · dsimp only
  · intro h
    obtain ⟨bpb, fatBlob, hbpb, hfatBlob, himage⟩ := h.imaged
    refine ⟨v.geo, h.geo, Prog.bind_eq_ok_iff.2 ⟨treeOf (loaded host mappings),
      foldlM_addMapping_eq_ok_iff.2 ⟨h.count, rfl⟩, ?_⟩⟩
    have hfits := h.fits
    dsimp only
    rw [if_neg (by omega), ← h.tree, ← h.fat]
    refine Prog.bind_eq_ok_iff.2 ⟨bpb, hbpb, Prog.bind_eq_ok_iff.2 ⟨fatBlob, hfatBlob,
      Prog.bind_eq_ok_iff.2 ⟨v.writes, h.writes, ?_⟩⟩⟩
    rw [← himage]
    rfl

/-! ## Soundness -/

namespace Volume

/-- The entry is a node of the tree. -/
def Holds (v : Volume) (e : Entry) : Prop := v.tree.at? e.path = some (e.node, e.children)

/-- Entry `k` of the image's first FAT. -/
def fatEntry (v : Volume) (k : ℕ) : ℕ :=
  Bytes.leValue (v.image.slice (v.geo.fatOff 0 + 2 * k) (v.geo.fatOff 0 + 2 * k + 2))

/-- Copy `n` of the FAT, as it is in the image. -/
def fatCopy (v : Volume) (n : ℕ) : Bytes :=
  v.image.slice (v.geo.fatOff n) (v.geo.fatOff n + v.geo.fatSecs * sec)

/-- The node owns the chain of clusters `cs`: it starts at the recorded cluster, has the
    length that the contents need, stays in the data area and ends in `0xFFFF`. -/
structure Owns (v : Volume) (e : Entry) (cs : List ℕ) : Prop where
  linked : LinkedChain v.fatEntry 0xFFFF e.node.cluster cs
  length : cs.length = e.needed
  bounds : ∀ c ∈ cs, 2 ≤ c ∧ c < v.geo.clusters + 2

/-- A write of `render` stays in the root directory, or in the chain of its node. -/
def Placed (v : Volume) (w : RenderWrite) : Prop :=
  match w.node with
  | none => ∀ k, w.patch.off ≤ k → k < w.patch.stop → Region.root.Has v.geo k
  | some node => ∃ e cs, v.Holds e ∧ e.node = node ∧ v.Owns e cs ∧
      ∀ k, w.patch.off ≤ k → k < w.patch.stop → ∃ c ∈ cs, (Region.cluster c).Has v.geo k

/-- A sound volume. Directories and non-empty files take room: all nodes whose data is not
    empty. -/
structure Sound (v : Volume) : Prop where
  length : v.image.length = v.geo.totalSecs * sec
  region_unique : ∀ k < v.image.length, ∃! r : Region, r.In v.geo ∧ r.Has v.geo k
  region_inside : ∀ r : Region, r.In v.geo → ∀ k, r.Has v.geo k → k < v.image.length
  copies : v.fatCopy 0 = v.fatCopy 1
  owned : ∀ e, v.Holds e → e.node.data ≠ some [] → ∃ cs, v.Owns e cs
  disjoint : ∀ e e' cs cs', v.Holds e → v.Holds e' → e.path ≠ e'.path → v.Owns e cs →
    v.Owns e' cs' → cs.Disjoint cs'
  free : ∀ k, 2 ≤ k → k < v.geo.fatSecs * 256 →
    (∀ e cs, v.Holds e → v.Owns e cs → k ∉ cs) → v.fatEntry k = 0
  placed : ∀ w ∈ v.writes, v.Placed w

end Volume

namespace Built

/-! ## Cluster numbers and the FAT -/

/-- The walk visits the nodes that directories lead to. -/
theorem mem_walk (h : Built host sizeMib mappings v) (e : Entry) :
    e ∈ v.tree.walk [] ↔ v.Holds e ∧ v.tree.Reached e.path := by
  have hdistinct : v.tree.Distinct := h.tree ▸ (Children.distinct_treeOf _).assign 2
  rw [Children.mem_walk hdistinct]
  constructor
  · rintro ⟨q, hpath, hnode, hreached⟩
    rw [List.nil_append] at hpath
    subst hpath
    exact ⟨hnode, hreached⟩
  · rintro ⟨hnode, hreached⟩
    exact ⟨e.path, rfl, hnode, hreached⟩

theorem count_eq (h : Built host sizeMib mappings v) {e : Entry} (he : e ∈ v.tree.walk []) :
    e.run.count = e.needed := by
  rw [h.tree] at he
  exact Children.assign_needed _ [] 2 e he

theorem runs (h : Built host sizeMib mappings v) :
    Run.EndToEnd 2 ((v.tree.walk []).map Entry.run)
      ((treeOf (loaded host mappings)).assign 2).2 := by
  rw [h.tree]
  exact Children.assign_endToEnd _ [] 2

/-- The clusters of a node lie in the data area. -/
theorem run_bounds (h : Built host sizeMib mappings v) {e : Entry} (he : e ∈ v.tree.walk [])
    (hpos : e.needed ≠ 0) :
    2 ≤ e.node.cluster ∧ e.node.cluster + e.needed ≤ v.geo.clusters + 2 := by
  have hcount := h.count_eq he
  have hbounds := h.runs.bounds (List.mem_map_of_mem he) (hcount.trans_ne hpos)
  rw [hcount] at hbounds
  exact ⟨hbounds.1, hbounds.2.trans h.fits⟩

theorem length_fat (h : Built host sizeMib mappings v) : v.fat.length = v.geo.clusters + 2 := by
  rw [h.fat, Children.chainAll_eq _ [], length_chained, emptyFat, List.length_set, List.length_set,
    List.length_replicate]

theorem runs_inside (h : Built host sizeMib mappings v) :
    ∀ r ∈ (v.tree.walk []).map Entry.run, r.count ≠ 0 →
      r.start + r.count ≤ (emptyFat v.geo).length := by
  intro r hr hpos
  have hlen : (emptyFat v.geo).length = v.geo.clusters + 2 := by
    rw [emptyFat, List.length_set, List.length_set, List.length_replicate]
  rw [hlen]
  exact (h.runs.bounds hr hpos).2.trans h.fits

theorem fat_link (h : Built host sizeMib mappings v) {e : Entry} (he : e ∈ v.tree.walk []) {k : ℕ}
    (hk : k ∈ e.run.members) : v.fat[k]? = some (e.run.linkOf 0xFFFF k) := by
  rw [h.fat, Children.chainAll_eq _ []]
  exact getElem?_chained h.runs.pairwise h.runs_inside (List.mem_map_of_mem he) hk

theorem fat_free (h : Built host sizeMib mappings v) {k : ℕ} (hlow : 2 ≤ k)
    (hhigh : k < v.geo.clusters + 2) (hk : ∀ e ∈ v.tree.walk [], k ∉ e.run.members) :
    v.fat[k]? = some 0 := by
  have hruns : ∀ r ∈ (v.tree.walk []).map Entry.run, k ∉ r.members := by
    intro r hr
    obtain ⟨e, he, rfl⟩ := List.mem_map.1 hr
    exact hk e he
  rw [h.fat, Children.chainAll_eq _ [], getElem?_chained_of_not_mem h.runs_inside hruns, emptyFat,
    List.getElem?_set_ne (by omega), List.getElem?_set_ne (by omega),
    List.getElem?_replicate_of_lt hhigh]

/-! ## The writes -/

theorem renderRoot_eq (h : Built host sizeMib mappings v) :
    ∃ entries writes, v.tree.entries host = .ok entries ∧ entries.length ≤ 16384 ∧
      v.tree.render host v.geo 0 = .ok writes ∧
      v.writes = ⟨none, ⟨v.geo.rootOff, entries⟩⟩ :: writes := by
  obtain ⟨entries, hentries, hrest⟩ := Prog.bind_eq_ok_iff.1 h.writes
  split at hrest
  · cases hrest
  rename_i hroom
  obtain ⟨writes, hwrites, hrest⟩ := Prog.bind_eq_ok_iff.1 hrest
  refine ⟨entries, writes, hentries, ?_, hwrites, (Except.ok.inj hrest).symm⟩
  simp only [rootEntries] at hroom
  omega

end Built

/-- Every slice assignment that makes the image. -/
def Volume.patches (v : Volume) (bpb fatBlob : Bytes) : List Patch :=
  systemWrites v.geo bpb fatBlob ++ v.writes.map (·.patch)

section Patches

variable {bpb fatBlob : Bytes}

theorem Imaged.length_bpb (hi : Imaged v bpb fatBlob) : bpb.length = 62 := by
  have hrecord := (pack_eq_ok_iff.1 hi.packed).2
  rw [hrecord, PackField.length_record]
  simp [bpbFields, PackField.width]

theorem Imaged.length_fatBlob (hi : Imaged v bpb fatBlob) :
    fatBlob.length = 2 * v.fat.length := by
  have hrecord := (pack_eq_ok_iff.1 hi.packed_fat).2
  have hwidth : PackField.width ∘ PackField.num 2 = fun _ => 2 := rfl
  rw [hrecord, PackField.length_record, List.map_map, hwidth, List.map_const', List.sum_replicate,
    smul_eq_mul, mul_comm]

/-- Where the contents of a node are written. -/
theorem Built.rendered_bounds (h : Built host sizeMib mappings v) {e : Entry}
    (he : e ∈ (v.tree.walk []).filter fun e => e.needed ≠ 0) {w : RenderWrite}
    (hw : e.Rendered host v.geo w) :
    2 ≤ e.node.cluster ∧ e.node.cluster + e.needed ≤ v.geo.clusters + 2 ∧
      w.patch.off = v.geo.rootOff + 16384 + (e.node.cluster - 2) * 512 ∧
      w.patch.stop ≤ w.patch.off + e.needed * 512 := by
  obtain ⟨he, hpos⟩ := List.mem_filter.1 he
  obtain ⟨hlow, hhigh⟩ := h.run_bounds he (of_decide_eq_true hpos)
  have hlen := hw.contents.length
  refine ⟨hlow, hhigh, hw.off.trans (v.geo.clusterOff_eq _), ?_⟩
  rw [Patch.stop, hlen, Entry.needed, clustersFor_eq]
  omega

/-- The writes before those for the nodes: boot sector, both FATs and the root directory. -/
def headPatches (g : Geometry) (bpb fatBlob entries : Bytes) : List Patch :=
  [⟨0, bpb⟩, ⟨510, [0x55, 0xAA]⟩, ⟨g.fatOff 0, fatBlob⟩, ⟨g.fatOff 1, fatBlob⟩,
    ⟨g.rootOff, entries⟩]

/-- The image is made of the writes before the nodes and one for each node with contents. -/
theorem Built.patches_eq (h : Built host sizeMib mappings v) (bpb fatBlob : Bytes) :
    ∃ entries writes, v.tree.entries host = .ok entries ∧ entries.length ≤ 16384 ∧
      v.tree.render host v.geo 0 = .ok writes ∧
      v.writes = ⟨none, ⟨v.geo.rootOff, entries⟩⟩ :: writes ∧
      v.patches bpb fatBlob = headPatches v.geo bpb fatBlob entries ++ writes.map (·.patch) := by
  obtain ⟨entries, writes, hentries, hroom, hwrites, heq⟩ := h.renderRoot_eq
  refine ⟨entries, writes, hentries, hroom, hwrites, heq, ?_⟩
  rw [Volume.patches, heq]
  rfl

/-- The writes before those for the nodes follow each other up to the data area. -/
theorem headPatches_ascending {g : Geometry} {entries : Bytes} (hbpb : bpb.length = 62)
    (hfat : fatBlob.length = 2 * (g.clusters + 2)) (hroom : entries.length ≤ 16384) :
    ((headPatches g bpb fatBlob entries).Pairwise fun w w' => w.stop ≤ w'.off) ∧
      ∀ w ∈ headPatches g bpb fatBlob entries, w.stop ≤ g.rootOff + 16384 := by
  have hcovered := g.covered
  simp only [sec] at hcovered
  have hfat0 := g.fatOff_eq 0
  have hfat1 := g.fatOff_eq 1
  have hroot := g.rootOff_eq
  constructor
  · simp only [headPatches, List.pairwise_cons, List.mem_cons, List.not_mem_nil, or_false,
      forall_eq_or_imp, forall_eq, Patch.stop, List.length_cons, List.length_nil, hbpb, hfat]
    refine ⟨?_, ?_, ?_, ?_, ?_, List.Pairwise.nil⟩
    · omega
    · omega
    · omega
    · omega
    · exact fun w hw => hw.elim
  · simp only [headPatches, List.mem_cons, List.not_mem_nil, or_false, forall_eq_or_imp, forall_eq,
      Patch.stop, List.length_cons, List.length_nil, hbpb, hfat]
    omega

/-- The end of the last cluster that a write to the start of a cluster reaches into. -/
def clusterStop (w : Patch) : ℕ := w.off + clustersFor w.bytes.length * 512

theorem stop_le_clusterStop (w : Patch) : w.stop ≤ clusterStop w := by
  rw [Patch.stop, clusterStop, clustersFor_eq]
  omega

theorem clusterStop_rendered {e : Entry} {w : RenderWrite} (hw : e.Rendered host v.geo w) :
    clusterStop w.patch = w.patch.off + e.needed * 512 := by
  rw [clusterStop, hw.contents.length, Entry.needed]

/-- No two writes for nodes reach into one cluster. -/
theorem Built.clusters_apart (h : Built host sizeMib mappings v) {writes : List RenderWrite}
    (hwrites : v.tree.render host v.geo 0 = .ok writes) :
    (writes.map (·.patch)).Pairwise fun w w' =>
      clusterStop w ≤ w'.off ∨ clusterStop w' ≤ w.off := by
  have happart : ((v.tree.walk []).filter fun e => e.needed ≠ 0).Pairwise
      fun e e' => e.run.Apart e'.run :=
    (List.pairwise_map.1 h.runs.pairwise).filter _
  refine List.pairwise_map.2 ((Children.render_walk hwrites []).pairwise happart
    fun e he e' he' w w' hw hw' hrun => ?_)
  obtain ⟨hlow, -, hoff, -⟩ := h.rendered_bounds he hw
  obtain ⟨hlow', -, hoff', -⟩ := h.rendered_bounds he' hw'
  have hcount := h.count_eq (List.mem_filter.1 he).1
  have hcount' := h.count_eq (List.mem_filter.1 he').1
  have hpos : e.needed ≠ 0 := of_decide_eq_true (List.mem_filter.1 he).2
  have hpos' : e'.needed ≠ 0 := of_decide_eq_true (List.mem_filter.1 he').2
  have horder := hrun.before_or_after (hcount.trans_ne hpos) (hcount'.trans_ne hpos')
  rw [hcount, hcount'] at horder
  change e.node.cluster + e.needed ≤ e'.node.cluster ∨
    e'.node.cluster + e'.needed ≤ e.node.cluster at horder
  rw [clusterStop_rendered hw, clusterStop_rendered hw']
  omega

/-- The writes for the nodes are disjoint and stay in the data area. -/
theorem Built.nodePatches (h : Built host sizeMib mappings v) {writes : List RenderWrite}
    (hwrites : v.tree.render host v.geo 0 = .ok writes) :
    (writes.map (·.patch)).Pairwise Patch.Disjoint ∧
      ∀ w ∈ writes.map (·.patch),
        v.geo.rootOff + 16384 ≤ w.off ∧ w.stop ≤ v.geo.totalSecs * sec := by
  have htotal := v.geo.totalSecs_eq
  constructor
  · refine (h.clusters_apart hwrites).imp fun {w w'} happart => ?_
    have := stop_le_clusterStop w
    have := stop_le_clusterStop w'
    rw [Patch.Disjoint]
    omega
  · intro w hw
    obtain ⟨write, hwrite, rfl⟩ := List.mem_map.1 hw
    obtain ⟨e, he, hrendered⟩ := (Children.render_walk hwrites []).exists_left hwrite
    obtain ⟨hlow, hhigh, hoff, hstop⟩ := h.rendered_bounds he hrendered
    simp only [sec]
    omega

/-- No write reaches past the image, and no two writes meet. -/
theorem Built.patches_sound (h : Built host sizeMib mappings v) (hi : Imaged v bpb fatBlob) :
    (v.patches bpb fatBlob).Pairwise Patch.Disjoint ∧
      ∀ w ∈ v.patches bpb fatBlob, w.stop ≤ v.geo.totalSecs * sec := by
  obtain ⟨entries, writes, -, hroom, hwrites, -, heq⟩ := h.patches_eq bpb fatBlob
  have hfat := hi.length_fatBlob
  rw [h.length_fat] at hfat
  obtain ⟨hordered, hstops⟩ := headPatches_ascending hi.length_bpb hfat hroom
  obtain ⟨hnodes, hbounds⟩ := h.nodePatches hwrites
  have htotal := v.geo.totalSecs_eq
  rw [heq]
  constructor
  · refine List.pairwise_append.2 ⟨hordered.imp fun hle => .inl hle, hnodes, ?_⟩
    intro w hw w' hw'
    exact .inl ((hstops w hw).trans (hbounds w' hw').1)
  · intro w hw
    obtain hw | hw := List.mem_append.1 hw
    · have := hstops w hw
      simp only [sec]
      omega
    · exact (hbounds w hw).2

/-! ## The image -/

theorem Built.length_image (h : Built host sizeMib mappings v) :
    v.image.length = v.geo.totalSecs * sec := by
  obtain ⟨bpb, fatBlob, hi⟩ := h.imaged
  have hzeros : (Bytes.zeros (v.geo.totalSecs * sec)).length = v.geo.totalSecs * sec :=
    List.length_replicate
  rw [hi.image, Bytes.length_patched, hzeros]
  rw [hzeros]
  exact (h.patches_sound hi).2

/-- What a write puts into the image is there at the end. -/
theorem Built.slice_of_mem (h : Built host sizeMib mappings v) (hi : Imaged v bpb fatBlob)
    {w : Patch} (hw : w ∈ v.patches bpb fatBlob) : v.image.slice w.off w.stop = w.bytes := by
  obtain ⟨hdisjoint, hinside⟩ := h.patches_sound hi
  rw [hi.image]
  refine Bytes.slice_patched (fun w' hw' => ?_) hdisjoint hw
  rw [Bytes.zeros, List.length_replicate]
  exact hinside w' hw'

/-- What no write touches is zero. -/
theorem Built.slice_of_untouched (h : Built host sizeMib mappings v) (hi : Imaged v bpb fatBlob)
    {i j : ℕ} (hj : j ≤ v.geo.totalSecs * sec)
    (hfree : ∀ w ∈ v.patches bpb fatBlob, j ≤ w.off ∨ w.stop ≤ i) :
    v.image.slice i j = Bytes.zeros (j - i) := by
  rw [hi.image, ← Bytes.slice_zeros hj]
  refine Bytes.slice_patched_of_disjoint (fun w hw => ?_) hfree
  rw [Bytes.zeros, List.length_replicate]
  exact (h.patches_sound hi).2 w hw

theorem Built.length_fatBlob (h : Built host sizeMib mappings v) (hi : Imaged v bpb fatBlob) :
    fatBlob.length = 2 * (v.geo.clusters + 2) ∧ fatBlob.length ≤ v.geo.fatSecs * 512 := by
  have hcovered := v.geo.covered
  simp only [sec] at hcovered
  rw [hi.length_fatBlob, h.length_fat]
  omega

theorem mem_patches_fat (v : Volume) (bpb fatBlob : Bytes) {n : ℕ} (hn : n < nfats) :
    ⟨v.geo.fatOff n, fatBlob⟩ ∈ v.patches bpb fatBlob :=
  List.mem_append_left _ (List.mem_cons_of_mem _ (List.mem_cons_of_mem _
    (List.mem_map.2 ⟨n, List.mem_range.2 hn, rfl⟩)))

/-- The sectors of a FAT behind its entries are zero. -/
theorem Built.slice_behind_fat (h : Built host sizeMib mappings v) (hi : Imaged v bpb fatBlob)
    {n i j : ℕ} (hn : n < nfats) (hlow : v.geo.fatOff n + fatBlob.length ≤ i)
    (hhigh : j ≤ v.geo.fatOff n + v.geo.fatSecs * 512) :
    v.image.slice i j = Bytes.zeros (j - i) := by
  obtain ⟨entries, writes, -, hroom, hwrites, -, heq⟩ := h.patches_eq bpb fatBlob
  have hfat := h.length_fatBlob hi
  have hbpb := hi.length_bpb
  have hnodes := (h.nodePatches hwrites).2
  have htotal := v.geo.totalSecs_eq
  have hfat0 := v.geo.fatOff_eq 0
  have hfat1 := v.geo.fatOff_eq 1
  have hroot := v.geo.rootOff_eq
  have hcopy : n = 0 ∨ n = 1 := by
    simp only [nfats] at hn
    omega
  have hoff : v.geo.fatOff n + v.geo.fatSecs * 512 ≤ v.geo.rootOff := by
    obtain rfl | rfl := hcopy <;> omega
  refine h.slice_of_untouched hi (by simp only [sec]; omega) fun w hw => ?_
  rw [heq, List.mem_append] at hw
  obtain hw | hw := hw
  · simp only [headPatches, List.mem_cons, List.not_mem_nil, or_false] at hw
    obtain rfl | rfl | rfl | rfl | rfl := hw <;>
      simp only [Patch.stop, List.length_cons, List.length_nil] <;>
      obtain rfl | rfl := hcopy <;> omega
  · have := (hnodes w hw).1
    omega

/-- Both copies of the FAT are in the image. -/
theorem Built.fatCopy_eq (h : Built host sizeMib mappings v) (hi : Imaged v bpb fatBlob) {n : ℕ}
    (hn : n < nfats) :
    v.fatCopy n = fatBlob ++ Bytes.zeros (v.geo.fatSecs * sec - fatBlob.length) := by
  have hfat := (h.length_fatBlob hi).2
  have hblob := h.slice_of_mem hi (mem_patches_fat v bpb fatBlob hn)
  have hrest := h.slice_behind_fat hi hn le_rfl le_rfl
  rw [Patch.stop] at hblob
  rw [Volume.fatCopy, sec,
    ← Bytes.slice_append_slice (Nat.le_add_right _ fatBlob.length) (Nat.add_le_add_left hfat _),
    hblob, hrest, Nat.add_sub_add_left]

/-- An entry of the table as it is in a copy of the FAT. -/
theorem Built.fat_slice (h : Built host sizeMib mappings v) (hi : Imaged v bpb fatBlob) {n : ℕ}
    (hn : n < nfats) {k x : ℕ} (hk : v.fat[k]? = some x) :
    Bytes.leValue (v.image.slice (v.geo.fatOff n + 2 * k) (v.geo.fatOff n + 2 * k + 2)) = x := by
  obtain ⟨hlt, rfl⟩ := List.getElem?_eq_some_iff.1 hk
  obtain ⟨hfits, hblob⟩ := pack_eq_ok_iff.1 hi.packed_fat
  have hlen := hi.length_fatBlob
  have hsplit : v.fat.map (PackField.num 2) =
      (v.fat.take k).map (.num 2) ++ .num 2 v.fat[k] :: (v.fat.drop (k + 1)).map (.num 2) := by
    rw [← List.map_cons, ← List.map_append, List.cons_getElem_drop_succ, List.take_append_drop]
  have hwidth : PackField.width ∘ PackField.num 2 = fun _ => 2 := rfl
  have hslice : v.image.slice (v.geo.fatOff n) (v.geo.fatOff n + fatBlob.length) = fatBlob :=
    h.slice_of_mem hi (mem_patches_fat v bpb fatBlob hn)
  have hentry : (v.image.slice (v.geo.fatOff n) (v.geo.fatOff n + fatBlob.length)).slice (2 * k)
      (2 * k + 2) = Bytes.leBytes 2 v.fat[k] := by
    rw [hslice, hblob, hsplit]
    refine PackField.slice_record _ (.num 2 v.fat[k]) _ ?_ rfl
    rw [List.map_map, hwidth, List.map_const', List.sum_replicate, List.length_take, smul_eq_mul,
      min_eq_left (by omega), mul_comm]
  have hfit : v.fat[k] < 256 ^ 2 :=
    hfits (.num 2 v.fat[k]) (List.mem_map_of_mem (List.getElem_mem hlt))
  rw [Bytes.slice_slice (by omega), ← Nat.add_assoc] at hentry
  rw [hentry, Bytes.leValue_leBytes hfit]

end Patches

/-! ## The chains -/

theorem Entry.needed_ne_zero {e : Entry} : e.needed ≠ 0 ↔ e.node.data ≠ some [] := by
  rw [Entry.needed, Ne, clustersFor_eq_zero, Entry.contentLength]
  cases e.node.data with
  | none => simp
  | some data =>
    cases data with
    | nil => simp
    | cons b bs => simp

namespace Built

theorem fatEntry_eq (h : Built host sizeMib mappings v) {k x : ℕ} (hk : v.fat[k]? = some x) :
    v.fatEntry k = x := by
  obtain ⟨bpb, fatBlob, hi⟩ := h.imaged
  exact h.fat_slice hi (by decide) hk

/-- A node of the walk that takes room owns its run. -/
theorem owns_run (h : Built host sizeMib mappings v) {e : Entry} (he : e ∈ v.tree.walk [])
    (hpos : e.needed ≠ 0) : v.Owns e e.run.members := by
  have hcount := h.count_eq he
  obtain ⟨hlow, hhigh⟩ := h.run_bounds he hpos
  have hfew := v.geo.few
  have hstart : e.run.start = e.node.cluster := rfl
  refine ⟨?_, e.run.length_members.trans hcount, fun c hc => ?_⟩
  · refine Run.linked (hcount.trans_ne hpos) (fun c hc => h.fatEntry_eq (h.fat_link he hc)) ?_
    rw [hcount, hstart]
    omega
  · rw [Run.mem_members, hcount, hstart] at hc
    omega

/-- A node that owns a chain is reached, so its chain is its run. -/
theorem Owns.eq_run (h : Built host sizeMib mappings v) {e : Entry} (he : v.Holds e) {cs : List ℕ}
    (hcs : v.Owns e cs) : e ∈ v.tree.walk [] ∧ cs = e.run.members := by
  have hlow := (hcs.bounds _ hcs.linked.start_mem).1
  have hreached : v.tree.Reached e.path := by
    by_contra hnot
    rw [Volume.Holds] at he
    rw [h.tree] at he hnot
    rw [(Children.fresh_treeOf _).assign_cluster he hnot] at hlow
    omega
  have hmem := (h.mem_walk e).2 ⟨he, hreached⟩
  have hpos : e.needed ≠ 0 := by
    rw [← hcs.length, Ne, List.length_eq_zero_iff]
    exact hcs.linked.ne_nil
  exact ⟨hmem, hcs.linked.unique (h.owns_run hmem hpos).linked⟩

theorem disjoint (h : Built host sizeMib mappings v) {e e' : Entry} {cs cs' : List ℕ}
    (he : v.Holds e) (he' : v.Holds e') (hne : e.path ≠ e'.path) (hcs : v.Owns e cs)
    (hcs' : v.Owns e' cs') : cs.Disjoint cs' := by
  obtain ⟨hmem, rfl⟩ := Owns.eq_run h he hcs
  obtain ⟨hmem', rfl⟩ := Owns.eq_run h he' hcs'
  have happart := List.pairwise_map.1 h.runs.pairwise
  have hsymm : Std.Symm fun e e' : Entry => e.run.Apart e'.run := ⟨fun _ _ hrun => hrun.symm⟩
  exact happart.forall hmem hmem' fun heq => hne (congrArg _ heq)

theorem free (h : Built host sizeMib mappings v) {k : ℕ} (hlow : 2 ≤ k)
    (hhigh : k < v.geo.fatSecs * 256)
    (hk : ∀ e cs, v.Holds e → v.Owns e cs → k ∉ cs) : v.fatEntry k = 0 := by
  by_cases hentry : k < v.geo.clusters + 2
  · refine h.fatEntry_eq (h.fat_free hlow hentry fun e he hmem => ?_)
    have hpos : e.needed ≠ 0 := by
      rw [← h.count_eq he]
      have := Run.mem_members.1 hmem
      omega
    exact hk e _ ((h.mem_walk e).1 he).1 (h.owns_run he hpos) hmem
  · obtain ⟨bpb, fatBlob, hi⟩ := h.imaged
    have hlen := (h.length_fatBlob hi).1
    rw [Volume.fatEntry, h.slice_behind_fat hi (show 0 < nfats by decide) (by omega) (by omega),
      Nat.add_sub_cancel_left]
    rfl

theorem placed (h : Built host sizeMib mappings v) {w : RenderWrite} (hw : w ∈ v.writes) :
    v.Placed w := by
  obtain ⟨entries, writes, -, hroom, hwrites, heq⟩ := h.renderRoot_eq
  rw [heq] at hw
  cases hw with
  | head =>
    intro k hlow hhigh
    rw [Region.has_root]
    simp only [Patch.stop] at hlow hhigh
    omega
  | tail _ hw =>
    obtain ⟨e, he, hrendered⟩ := (Children.render_walk hwrites []).exists_left hw
    obtain ⟨hlow, hhigh, hoff, hstop⟩ := h.rendered_bounds he hrendered
    obtain ⟨hmem, hpos⟩ := List.mem_filter.1 he
    rw [Volume.Placed, hrendered.node]
    refine ⟨e, _, ((h.mem_walk e).1 hmem).1, rfl, h.owns_run hmem (of_decide_eq_true hpos), ?_⟩
    intro k hk hk'
    refine ⟨e.node.cluster + (k - w.patch.off) / 512, ?_, ?_⟩
    · have hstart : e.run.start = e.node.cluster := rfl
      rw [Run.mem_members, h.count_eq hmem, hstart]
      omega
    · rw [Region.has_cluster]
      omega

end Built

theorem Built.describes (h : Built host sizeMib mappings v) :
    Describes (standing (loaded host mappings)) v.tree := by
  have hstart := describes_treeOf (loaded host mappings)
  constructor
  · intro q data
    rw [h.tree, Children.dataAt?_assign]
    exact hstart.file q data
  · intro q
    rw [h.tree, Children.dataAt?_assign]
    exact hstart.dir q

theorem Volume.Holds.dataAt?_eq {e : Entry} (he : v.Holds e) :
    v.tree.dataAt? e.path = some e.node.data := by
  rw [Holds] at he
  rw [Children.dataAt?, he]
  rfl

/-- Where no mapping lies below another, all nodes are reached. -/
theorem Built.mem_walk_iff_holds (h : Built host sizeMib mappings v)
    (hbelow : NoneBelow (loaded host mappings)) {e : Entry} : e ∈ v.tree.walk [] ↔ v.Holds e := by
  rw [h.mem_walk]
  refine and_iff_left_of_imp fun he r hle hr hne => ?_
  obtain ⟨m, hm, hpath⟩ := h.describes.exists_prefix he.dataAt?_eq
  have hbefore : r ≠ m.parts := fun heq => hne (hle.eq_of_length_le (heq ▸ hpath.length_le))
  refine (h.describes.dir r).2 ⟨hr, fun m' hm' => ?_, m, hm, hle.trans hpath⟩
  exact hbelow.parts_ne (mem_of_mem_standing hm) (mem_of_mem_standing hm') (hle.trans hpath) hbefore

/-- A volume is sound exactly if every node that takes room is reached. -/
theorem Built.sound_iff (h : Built host sizeMib mappings v) :
    v.Sound ↔ NothingHidden (loaded host mappings) := by
  rw [← Children.reached_iff_nothingHidden h.describes]
  constructor
  · intro hsound q x hx hroom
    have hholds : v.Holds ⟨q, x.1, x.2⟩ := hx
    obtain ⟨cs, hcs⟩ := hsound.owned _ hholds hroom
    exact ((h.mem_walk _).1 (Built.Owns.eq_run h hholds hcs).1).2
  · intro hreached
    obtain ⟨bpb, fatBlob, hi⟩ := h.imaged
    exact
      { length := h.length_image
        region_unique := fun k hk => v.geo.region_unique (hk.trans_eq h.length_image)
        region_inside := fun r hin k hk => (hk.lt hin).trans_eq h.length_image.symm
        copies := by rw [h.fatCopy_eq hi (by decide), h.fatCopy_eq hi (by decide)]
        owned := fun e he hroom => ⟨_, h.owns_run
          ((h.mem_walk e).2 ⟨he, hreached e.path (e.node, e.children) he hroom⟩)
          (Entry.needed_ne_zero.2 hroom)⟩
        disjoint := fun e e' cs cs' => h.disjoint
        free := fun k => h.free
        placed := fun w => h.placed }

/-- The volume that the builder makes is sound if and only if no mapping ends up below the
    file of another. -/
theorem build_sound_iff (hbuild : build host sizeMib mappings = .ok v) :
    v.Sound ↔ NothingHidden (loaded host mappings) :=
  (build_eq_ok_iff.1 hbuild).sound_iff

/-! ## When the builder accepts -/

theorem mem_chain_lt {first count n : ℕ} {fat : List ℕ} (hfat : ∀ x ∈ fat, x < n)
    (hlinks : first + count ≤ n) (hlast : 0xFFFF < n) : ∀ x ∈ chain first count fat, x < n := by
  rw [chain]
  generalize List.range count = is
  induction is generalizing fat with
  | nil => exact hfat
  | cons i is ih =>
    refine ih fun x hx => ?_
    obtain hx | rfl := List.mem_or_eq_of_mem_set hx
    · exact hfat x hx
    · split <;> omega

theorem mem_chained_lt {runs : List Run} {n : ℕ} {fat : List ℕ} (hfat : ∀ x ∈ fat, x < n)
    (hruns : ∀ r ∈ runs, r.count ≠ 0 → r.start + r.count ≤ n) (hlast : 0xFFFF < n) :
    ∀ x ∈ chained runs fat, x < n := by
  induction runs generalizing fat with
  | nil => exact hfat
  | cons r runs ih =>
    refine ih ?_ fun r' hr' => hruns r' (List.mem_cons_of_mem _ hr')
    by_cases hpos : r.count = 0
    · dsimp only
      rw [hpos]
      exact hfat
    · exact mem_chain_lt hfat (hruns r List.mem_cons_self hpos) hlast

theorem bpbFields_fit {g : Geometry} (h : geometry sizeMib = .ok g) :
    ∀ f ∈ bpbFields g, f.Fits := by
  obtain ⟨hfat, htotal⟩ := geometry_small h
  have hshort : (if g.totalSecs < 0x10000 then g.totalSecs else 0) < 256 ^ 2 := by
    split <;> omega
  have hlong : (if g.totalSecs ≥ 0x10000 then g.totalSecs else 0) < 256 ^ 4 := by
    split <;> omega
  simpa [bpbFields, PackField.Fits, hfat, sec, spc, reserved, nfats, rootEntries, volumeId]
    using And.intro hshort hlong

/-- The builder accepts where the image has room for all nodes and rendering raises nothing. -/
theorem build_accepts {g : Geometry} (hgeo : geometry sizeMib = .ok g)
    (hcount : (loaded host mappings).length = mappings.length)
    (hfits : ((treeOf (loaded host mappings)).assign 2).2 ≤ g.clusters + 2)
    {writes : List RenderWrite}
    (hwrites : renderRoot host g ((treeOf (loaded host mappings)).assign 2).1 = .ok writes) :
    ∃ v, build host sizeMib mappings = .ok v ∧ v.geo = g ∧
      v.tree = ((treeOf (loaded host mappings)).assign 2).1 := by
  have hruns := Children.assign_endToEnd (treeOf (loaded host mappings)) [] 2
  have hfew := g.few
  have hfat : ∀ f ∈ (((treeOf (loaded host mappings)).assign 2).1.chainAll (emptyFat g)).map
      (PackField.num 2), f.Fits := by
    intro f hf
    obtain ⟨x, hx, rfl⟩ := List.mem_map.1 hf
    rw [Children.chainAll_eq _ []] at hx
    refine mem_chained_lt (n := 256 ^ 2) (fun y hy => ?_) (fun r hr hpos => ?_) (by omega) x hx
    · obtain hy | rfl := List.mem_or_eq_of_mem_set hy
      · obtain hy | rfl := List.mem_or_eq_of_mem_set hy
        · rw [(List.mem_replicate.1 hy).2]
          omega
        · omega
      · omega
    · have := (hruns.bounds hr hpos).2
      omega
  obtain ⟨bpb, hbpb⟩ : ∃ bpb, pack (bpbFields g) = .ok bpb :=
    ⟨_, pack_eq_ok_iff.2 ⟨bpbFields_fit hgeo, rfl⟩⟩
  obtain ⟨fatBlob, hfatBlob⟩ : ∃ fatBlob, pack ((((treeOf (loaded host mappings)).assign
      2).1.chainAll (emptyFat g)).map (.num 2)) = .ok fatBlob := ⟨_, pack_eq_ok_iff.2 ⟨hfat, rfl⟩⟩
  refine ⟨⟨g, _, _, writes, (Bytes.zeros (g.totalSecs * sec)).patched
      (systemWrites g bpb fatBlob ++ writes.map (·.patch))⟩,
    build_eq_ok_iff.2 ⟨hgeo, hcount, rfl, hfits, rfl, hwrites, bpb, fatBlob, hbpb, hfatBlob, ?_⟩,
    rfl, rfl⟩
  dsimp only

/-! ## Two small volumes -/

/-- A host with one file, `a`, of one byte. -/
def sampleHost : Host where
  readFile s := if s = ['a'] then some [0x41] else none
  dosTime := 0x6000
  dosDate := 0x5B39
  unicodeUpper _ := []

/-- The sizes of the smallest image. -/
def threeMib : Geometry where
  totalSecs := 6144
  fatSecs := 24
  clusters := 6060
  sectors := by decide
  covered := by decide
  enough := by decide
  few := by decide

theorem geometry_three : geometry 3 = .ok threeMib := by
  have hfat : sizeFat 6144 1 = 24 := by
    rw [sizeFat_eq, fatNeed_eq]
    decide
  have hsecs : (3 : ℤ) * 1024 * 1024 / sec = 6144 := by decide
  unfold geometry
  simp only [hsecs, hfat]
  rw [dif_pos (by rw [clusterCount_eq]; decide)]
  rfl

theorem Except.eq_ok_of_toBool {ε α : Type*} {x : Except ε α} (h : x.toBool = true) :
    ∃ a, x = .ok a := by
  cases x with
  | error e => cases h
  | ok a => exact ⟨a, rfl⟩

/-- The builder accepts mappings of the sample host that the smallest image has room for. -/
theorem sample_build (mappings : List Str)
    (hcount : (loaded sampleHost mappings).length = mappings.length)
    (hfits : ((treeOf (loaded sampleHost mappings)).assign 2).2 ≤ threeMib.clusters + 2)
    (hrender : (renderRoot sampleHost threeMib
      ((treeOf (loaded sampleHost mappings)).assign 2).1).toBool = true) :
    ∃ v, build sampleHost 3 mappings = .ok v := by
  obtain ⟨writes, hwrites⟩ := Except.eq_ok_of_toBool hrender
  obtain ⟨v, hv, -, -⟩ := build_accepts geometry_three hcount hfits hwrites
  exact ⟨v, hv⟩

/-- A mapping below another mapping's file is lost, and the volume is not sound. -/
theorem hiddenFile_not_sound :
    ∃ v, build sampleHost 3 ["a=/a".toList, "a=/a/b".toList] = .ok v ∧ ¬v.Sound := by
  obtain ⟨v, hv⟩ := sample_build ["a=/a".toList, "a=/a/b".toList]
    (by decide) (by decide) (by decide +kernel)
  refine ⟨v, hv, fun hsound => ?_⟩
  have hhidden := (build_eq_ok_iff.1 hv).sound_iff.1 hsound
  exact absurd hhidden (by decide)

theorem bootFile_sound_iff :
    ∃ v, build sampleHost 3 ["a=/EFI/BOOT/X64.EFI".toList, "a=/b".toList] = .ok v ∧ v.Sound := by
  obtain ⟨v, hv⟩ := sample_build ["a=/EFI/BOOT/X64.EFI".toList, "a=/b".toList]
    (by decide) (by decide) (by decide +kernel)
  exact ⟨v, hv, (build_sound_iff hv).2 (by decide)⟩

end Sypas.Mkfat
