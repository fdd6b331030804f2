import Sypas.Lib.State
import Sypas.Media.FatTraversal

/-!
# What the FAT builder renders

`render` makes one slice assignment for each node of the walk that has contents, in the
order of the walk, at the cluster that the node records.

## Main definitions

- `Sypas.Mkfat.Entry.Contents` — the bytes that belong on the volume for a node
- `Sypas.Mkfat.Entry.Rendered` — a slice assignment for a node
- `Sypas.Mkfat.Children.RenderedBelow` — the same, with the cluster that `..` leads to

## Main results

- `Sypas.Mkfat.Entry.Contents.length` — contents take the bytes that were allotted
- `Sypas.Mkfat.Children.render_below` — one slice assignment for each node with contents
-/

namespace Sypas.Mkfat

variable {host : Host} {g : Geometry}

/-! ## Sizes -/

theorem pack_eq_ok_iff {fields : List PackField} {b : Bytes} :
    pack fields = .ok b ↔ (∀ f ∈ fields, f.Fits) ∧ b = PackField.record fields := by
  unfold pack
  split
  · exact ⟨fun h => ⟨‹_›, (Except.ok.inj h).symm⟩, fun h => congrArg _ h.2.symm⟩
  · exact ⟨fun h => (nomatch h), fun h => absurd h.1 ‹_›⟩

theorem length_dirent {name83b b : Bytes} {attr cluster size : ℕ}
    (h : dirent host name83b attr cluster size = .ok b) : b.length = 32 := by
  obtain ⟨-, rfl⟩ := pack_eq_ok_iff.1 h
  exact PackField.length_record _

theorem length_nodeEntry {node : Node} {b : Bytes} (h : nodeEntry host node = .ok b) :
    b.length = 32 := by
  obtain ⟨name, -, hentry⟩ := Prog.bind_eq_ok_iff.1 h
  exact length_dirent hentry

theorem Children.entries_cons_eq_ok_iff {node : Node} {children rest : Children} {b : Bytes} :
    (cons node children rest).entries host = .ok b ↔
      ∃ entry entries, nodeEntry host node = .ok entry ∧ rest.entries host = .ok entries ∧
        b = entry ++ entries := by
  simp only [entries, Prog.bind_eq_ok_iff, pure, Except.pure, Except.ok.injEq]
  constructor
  · rintro ⟨entry, hentry, entries, hentries, rfl⟩
    exact ⟨entry, entries, hentry, hentries, rfl⟩
  · rintro ⟨entry, entries, hentry, hentries, rfl⟩
    exact ⟨entry, hentry, entries, hentries, rfl⟩

theorem Children.length_entries {t : Children} {b : Bytes} (h : t.entries host = .ok b) :
    b.length = 32 * t.length := by
  induction t generalizing b with
  | nil =>
    cases h
    rfl
  | cons node children rest _ ihr =>
    obtain ⟨entry, entries, hentry, hentries, rfl⟩ := entries_cons_eq_ok_iff.1 h
    rw [List.length_append, length_nodeEntry hentry, ihr hentries, length]
    ring

theorem directory_eq_ok_iff {cluster parentCluster : ℕ} {children : Children} {b : Bytes} :
    directory host cluster parentCluster children = .ok b ↔
      ∃ dot dotdot entries, dirent host (ascii ".          ") attrDir cluster 0 = .ok dot ∧
        dirent host (ascii "..         ") attrDir parentCluster 0 = .ok dotdot ∧
        children.entries host = .ok entries ∧ b = dot ++ dotdot ++ entries := by
  simp only [directory, Prog.bind_eq_ok_iff, pure, Except.pure, Except.ok.injEq]
  constructor
  · rintro ⟨dot, hdot, dotdot, hdotdot, entries, hentries, rfl⟩
    exact ⟨dot, dotdot, entries, hdot, hdotdot, hentries, rfl⟩
  · rintro ⟨dot, dotdot, entries, hdot, hdotdot, hentries, rfl⟩
    exact ⟨dot, hdot, dotdot, hdotdot, entries, hentries, rfl⟩

namespace Entry

/-- The bytes that belong on the volume for a node: a file's data, a directory's entries. -/
def Contents (host : Host) (e : Entry) (b : Bytes) : Prop :=
  match e.node.data with
  | none => ∃ parentCluster, directory host e.node.cluster parentCluster e.children = .ok b
  | some data => b = data

theorem Contents.length {e : Entry} {b : Bytes} (h : e.Contents host b) :
    b.length = e.contentLength := by
  unfold Contents at h
  unfold contentLength
  cases hdata : e.node.data with
  | none =>
    rw [hdata] at h
    obtain ⟨parentCluster, hdirectory⟩ := h
    obtain ⟨dot, dotdot, entries, hdot, hdotdot, hentries, rfl⟩ :=
      directory_eq_ok_iff.1 hdirectory
    rw [List.length_append, List.length_append, length_dirent hdot, length_dirent hdotdot,
      Children.length_entries hentries]
    ring
  | some data =>
    rw [hdata] at h
    exact congrArg List.length h

/-- The slice assignment that puts the node's contents at its cluster. -/
structure Rendered (host : Host) (g : Geometry) (e : Entry) (w : RenderWrite) : Prop where
  node : w.node = some e.node
  off : w.patch.off = g.clusterOff e.node.cluster
  contents : e.Contents host w.patch.bytes

end Entry

/-! ## The slice assignments -/

theorem Children.render_dir_eq_ok_iff {node : Node} (hdir : node.data = none)
    {children rest : Children} {parentCluster : ℕ} {writes : List RenderWrite} :
    (cons node children rest).render host g parentCluster = .ok writes ↔
      ∃ entries below after, directory host node.cluster parentCluster children = .ok entries ∧
        children.render host g node.cluster = .ok below ∧
        rest.render host g parentCluster = .ok after ∧
        writes = ⟨some node, ⟨g.clusterOff node.cluster, entries⟩⟩ :: (below ++ after) := by
  rw [render, hdir]
  simp only [Prog.bind_eq_ok_iff, pure, Except.pure, Except.ok.injEq]
  constructor
  · rintro ⟨entries, hentries, below, hbelow, -, rfl, after, hafter, rfl⟩
    exact ⟨entries, below, after, hentries, hbelow, hafter, rfl⟩
  · rintro ⟨entries, below, after, hentries, hbelow, hafter, rfl⟩
    exact ⟨entries, hentries, below, hbelow, _, rfl, after, hafter, rfl⟩

theorem Children.render_file_eq_ok_iff {node : Node} {data : Bytes}
    (hfile : node.data = some data) {children rest : Children} {parentCluster : ℕ}
    {writes : List RenderWrite} :
    (cons node children rest).render host g parentCluster = .ok writes ↔
      ∃ after, rest.render host g parentCluster = .ok after ∧
        writes = (if data ≠ [] then [⟨some node, ⟨g.clusterOff node.cluster, data⟩⟩] else []) ++
          after := by
  rw [render, hfile]
  simp only [Prog.bind_eq_ok_iff, pure, Except.pure, Except.ok.injEq]
  constructor
  · rintro ⟨-, rfl, after, hafter, rfl⟩
    exact ⟨after, hafter, rfl⟩
  · rintro ⟨after, hafter, rfl⟩
    exact ⟨_, rfl, after, hafter, rfl⟩

/-- The cluster that the `..` entry of a directory of the walk records: that of the directory which
    holds it, and `parentCluster` at the top. -/
def Children.ParentOf (t : Children) (dir : List Str) (parentCluster : ℕ) (e : Entry) (c : ℕ) :
    Prop :=
  (e.path.dropLast = dir ∧ c = parentCluster) ∨
    ∃ e' ∈ t.walk dir, e'.node.data = none ∧ e'.path = e.path.dropLast ∧ c = e'.node.cluster

/-- A slice assignment for a node, which for a directory names the directory that holds it. -/
structure Children.RenderedBelow (host : Host) (g : Geometry) (t : Children) (dir : List Str)
    (parentCluster : ℕ) (e : Entry) (w : RenderWrite) : Prop where
  rendered : e.Rendered host g w
  directory : e.node.data = none → ∃ c, t.ParentOf dir parentCluster e c ∧
    Mkfat.directory host e.node.cluster c e.children = .ok w.patch.bytes

/-- `render` writes the contents of each node of the walk that has any, in its order. -/
theorem Children.render_below {t : Children} {parentCluster : ℕ} {writes : List RenderWrite}
    (h : t.render host g parentCluster = .ok writes) (dir : List Str) :
    List.Forall₂ (t.RenderedBelow host g dir parentCluster)
      ((t.walk dir).filter fun e => e.needed ≠ 0) writes := by
  induction t generalizing parentCluster writes dir with
  | nil =>
    cases h
    exact .nil
  | cons node children rest ihc ihr =>
    -- what is below a later child is below the whole list
    have hrest {e : Entry} {w : RenderWrite}
        (hw : rest.RenderedBelow host g dir parentCluster e w) :
        (cons node children rest).RenderedBelow host g dir parentCluster e w := by
      refine ⟨hw.rendered, fun hdir => ?_⟩
      obtain ⟨c, hparent, hbytes⟩ := hw.directory hdir
      refine ⟨c, hparent.imp_right ?_, hbytes⟩
      rintro ⟨e', he', hup⟩
      exact ⟨e', List.mem_cons_of_mem _ (List.mem_append_right _ he'), hup⟩
    cases hdata : node.data with
    | none =>
      obtain ⟨entries, below, after, hentries, hbelow, hafter, rfl⟩ :=
        (render_dir_eq_ok_iff hdata).1 h
      have hneeded : (⟨dir ++ [node.name], node, children⟩ : Entry).needed ≠ 0 := by
        rw [Entry.needed, Ne, clustersFor_eq_zero, Entry.contentLength, hdata]
        dsimp only
        omega
      have hchildren {e : Entry} {w : RenderWrite}
          (hw : children.RenderedBelow host g (dir ++ [node.name]) node.cluster e w) :
          (cons node children rest).RenderedBelow host g dir parentCluster e w := by
        refine ⟨hw.rendered, fun hdir => ?_⟩
        obtain ⟨c, hparent, hbytes⟩ := hw.directory hdir
        refine ⟨c, .inr ?_, hbytes⟩
        rw [walk_cons_dir hdata]
        obtain ⟨hpath, hc⟩ | ⟨e', he', hup⟩ := hparent
        · exact ⟨_, List.mem_cons_self, hdata, hpath.symm, hc⟩
        · exact ⟨e', List.mem_cons_of_mem _ (List.mem_append_left _ he'), hup⟩
      have hself : (cons node children rest).RenderedBelow host g dir parentCluster
          ⟨dir ++ [node.name], node, children⟩
          ⟨some node, ⟨g.clusterOff node.cluster, entries⟩⟩ := by
        refine ⟨⟨rfl, rfl, ?_⟩,
          fun _ => ⟨parentCluster, .inl ⟨List.dropLast_concat, rfl⟩, hentries⟩⟩
        rw [Entry.Contents, hdata]
        exact ⟨parentCluster, hentries⟩
      rw [walk_cons_dir hdata, List.filter_cons_of_pos (by simpa using hneeded), List.filter_append]
      exact .cons hself (List.rel_append ((ihc hbelow _).imp fun _ _ => hchildren)
        ((ihr hafter dir).imp fun _ _ => hrest))
    | some data =>
      obtain ⟨after, hafter, rfl⟩ := (render_file_eq_ok_iff hdata).1 h
      have hneeded : (⟨dir ++ [node.name], node, children⟩ : Entry).needed ≠ 0 ↔ data ≠ [] := by
        rw [Entry.needed, Ne, clustersFor_eq_zero, Entry.contentLength, hdata]
        exact not_congr List.length_eq_zero_iff
      have htail := (ihr hafter dir).imp fun _ _ => hrest
      rw [walk_cons_file hdata]
      by_cases hempty : data ≠ []
      · rw [List.filter_cons_of_pos (by simpa using hneeded.2 hempty), if_pos hempty]
        refine .cons ⟨⟨rfl, rfl, ?_⟩, fun hdir => ?_⟩ htail
        · rw [Entry.Contents, hdata]
        · rw [hdata] at hdir
          cases hdir
      · rw [List.filter_cons_of_neg (by simpa using fun h => hempty (hneeded.1 h)),
          if_neg hempty]
        exact htail

theorem Children.render_walk {t : Children} {parentCluster : ℕ} {writes : List RenderWrite}
    (h : t.render host g parentCluster = .ok writes) (dir : List Str) :
    List.Forall₂ (Entry.Rendered host g) ((t.walk dir).filter fun e => e.needed ≠ 0) writes :=
  (render_below h dir).imp fun _ _ hw => hw.rendered

end Sypas.Mkfat
