import Sypas.Lib.Chain
import Sypas.Media.Mkfat

/-!
# The traversals of the FAT builder

`assign`, `chain_all` and `render` all go through the nodes that directories lead to from
the root, in one order. What each of them does is stated along that list of nodes.

## Main definitions

- `Sypas.Mkfat.Children.walk` — the nodes in the order of the traversals
- `Sypas.Mkfat.Children.Reached` — a path with only directories above its end

## Main results

- `Sypas.Mkfat.Children.mem_walk` — the walk visits exactly the reached paths
- `Sypas.Mkfat.Children.assign_endToEnd` — the cluster runs lie end to end
- `Sypas.Mkfat.Children.chainAll_eq` — the FAT is filled run by run
- `Sypas.Mkfat.Children.render_walk` — one write for each node with contents
-/

namespace Sypas.Mkfat

/-- A node of the tree with its path and its children. -/
structure Entry where
  path : List Str
  node : Node
  children : Children

namespace Entry

/-- The clusters that the node records. -/
def run (e : Entry) : Run := ⟨e.node.cluster, e.node.nclusters⟩

/-- The bytes that the node's contents take on the volume. -/
def contentLength (e : Entry) : ℕ :=
  match e.node.data with
  | none => 32 * (2 + e.children.length)
  | some data => data.length

/-- The clusters that the node's contents need. -/
def needed (e : Entry) : ℕ := clustersFor e.contentLength

end Entry

theorem clustersFor_eq (n : ℕ) : clustersFor n = (n + 511) / 512 := by
  simp [clustersFor, clusterBytes, spc, sec]

theorem clustersFor_eq_zero {n : ℕ} : clustersFor n = 0 ↔ n = 0 := by
  rw [clustersFor_eq]
  omega

namespace Children

/-- The nodes in the order of the traversals, with the path `dir` put before their own. -/
def walk (dir : List Str) : Children → List Entry
  | nil => []
  | cons node children rest =>
    ⟨dir ++ [node.name], node, children⟩ ::
      ((if node.data = none then children.walk (dir ++ [node.name]) else []) ++ rest.walk dir)

/-- Only directories stand above the end of the path. -/
def Reached (t : Children) (q : List Str) : Prop :=
  ∀ r, r <+: q → r ≠ [] → r ≠ q → t.dataAt? r = some none

/-- No two children of a node have one name. -/
def Distinct : Children → Prop
  | nil => True
  | cons node children rest => node.name ∉ rest.names ∧ children.Distinct ∧ rest.Distinct

/-! ## The walk -/

theorem names_graft {d : Str} {ds : List Str} {data : Bytes} :
    (graft (d :: ds) data).names = [d] := by
  rw [graft]
  split <;> rfl

theorem names_place (t : Children) (d : Str) (ds : List Str) (data : Bytes) :
    (t.place (d :: ds) data).names = if d ∈ t.names then t.names else t.names ++ [d] := by
  induction t with
  | nil => exact names_graft
  | cons node children rest _ ihr =>
    rw [place]
    by_cases hname : node.name = d
    · subst hname
      have hself : node.name ∈ (cons node children rest).names := List.mem_cons_self
      rw [if_pos rfl, if_pos hself]
      split <;> rfl
    · have hmem : d ∈ node.name :: rest.names ↔ d ∈ rest.names :=
        List.mem_cons.trans (or_iff_right (Ne.symm hname))
      rw [if_neg hname, names, ihr, names]
      by_cases hin : d ∈ rest.names
      · rw [if_pos hin, if_pos (hmem.2 hin)]
      · rw [if_neg hin, if_neg (fun h => hin (hmem.1 h)), List.cons_append]

theorem distinct_graft (parts : List Str) (data : Bytes) : (graft parts data).Distinct := by
  induction parts with
  | nil => trivial
  | cons d ds ih =>
    rw [graft]
    split
    · exact ⟨List.not_mem_nil, trivial, trivial⟩
    · exact ⟨List.not_mem_nil, ih, trivial⟩

theorem Distinct.place {t : Children} (h : t.Distinct) (parts : List Str) (data : Bytes) :
    (t.place parts data).Distinct := by
  induction t generalizing parts with
  | nil => exact distinct_graft parts data
  | cons node children rest ihc ihr =>
    obtain ⟨hnot, hchildren, hrest⟩ := h
    cases parts with
    | nil => exact ⟨hnot, hchildren, hrest⟩
    | cons d ds =>
      rw [Children.place]
      by_cases hname : node.name = d
      · subst hname
        rw [if_pos rfl]
        split
        · exact ⟨hnot, trivial, hrest⟩
        · exact ⟨hnot, ihc hchildren ds, hrest⟩
      · rw [if_neg hname]
        refine ⟨?_, hchildren, ihr hrest _⟩
        rw [names_place]
        split
        · exact hnot
        · rw [List.mem_append, List.mem_singleton]
          exact not_or.2 ⟨hnot, hname⟩

theorem distinct_treeOf (ms : List Mapping) : (treeOf ms).Distinct := by
  induction ms using List.reverseRecOn with
  | nil => trivial
  | append_singleton ms m ih =>
    rw [treeOf, List.foldl_append]
    exact ih.place m.parts m.data

theorem at?_mem_names {t : Children} {d : Str} {ds : List Str} {x : Node × Children}
    (h : t.at? (d :: ds) = some x) : d ∈ t.names := by
  induction t with
  | nil => cases h
  | cons node children rest _ ihr =>
    rw [at?] at h
    by_cases hname : node.name = d
    · exact hname ▸ List.mem_cons_self
    · rw [if_neg hname] at h
      exact List.mem_cons_of_mem _ (ihr h)

theorem exists_at?_of_mem_names {t : Children} {d : Str} (h : d ∈ t.names) :
    ∃ x, t.at? [d] = some x := by
  induction t with
  | nil => cases h
  | cons node children rest _ ihr =>
    rw [at?]
    by_cases hname : node.name = d
    · rw [if_pos hname, if_pos rfl]
      exact ⟨_, rfl⟩
    · rw [if_neg hname]
      obtain heq | h := List.mem_cons.1 h
      · exact absurd heq.symm hname
      · exact ihr h

/-- What is below a node is below its children. -/
theorem at?_append {t : Children} {q : List Str} {node : Node} {children : Children}
    (h : t.at? q = some (node, children)) {ds : List Str} (hds : ds ≠ []) :
    t.at? (q ++ ds) = children.at? ds := by
  induction t generalizing q with
  | nil => cases h
  | cons node' children' rest ihc ihr =>
    cases q with
    | nil => cases h
    | cons e es =>
      rw [at?] at h
      rw [List.cons_append, at?]
      by_cases hname : node'.name = e
      · rw [if_pos hname] at h ⊢
        rw [if_neg (List.append_ne_nil_of_right_ne_nil _ hds)]
        by_cases hes : es = []
        · rw [if_pos hes] at h
          cases h
          rw [hes, List.nil_append]
        · rw [if_neg hes] at h
          exact ihc h
      · rw [if_neg hname] at h ⊢
        exact ihr h

/-- Every path down to a node is there. -/
theorem at?_of_prefix {t : Children} {r q : List Str} {x : Node × Children}
    (hq : t.at? q = some x) (hr : r ≠ []) (hle : r <+: q) : ∃ y, t.at? r = some y := by
  induction t generalizing r q with
  | nil => cases hq
  | cons node children rest ihc ihr =>
    obtain ⟨d, ds, rfl⟩ := List.exists_cons_of_ne_nil hr
    cases q with
    | nil => cases hq
    | cons e es =>
      obtain ⟨rfl, hle'⟩ := List.cons_prefix_cons.1 hle
      rw [at?] at hq ⊢
      by_cases hname : node.name = d
      · rw [if_pos hname] at hq ⊢
        by_cases hds : ds = []
        · rw [if_pos hds]
          exact ⟨_, rfl⟩
        · have hes : es ≠ [] := fun hes => hds (List.prefix_nil.1 (hes ▸ hle'))
          rw [if_neg hes] at hq
          rw [if_neg hds]
          exact ihc hq hds hle'
      · rw [if_neg hname] at hq ⊢
        exact ihr hq hr hle

theorem reached_cons_self {node : Node} {children rest : Children} {ds : List Str} :
    (cons node children rest).Reached (node.name :: ds) ↔
      ds = [] ∨ node.data = none ∧ children.Reached ds := by
  constructor
  · intro h
    refine or_iff_not_imp_left.2 fun hds => ⟨?_, fun r hle hr hne => ?_⟩
    · have hhead := h [node.name] (List.cons_prefix_cons.2 ⟨rfl, List.nil_prefix⟩)
        (List.cons_ne_nil _ _) (fun heq => hds (List.cons.inj heq).2.symm)
      rw [dataAt?_cons, if_pos rfl, if_pos rfl] at hhead
      exact Option.some.inj hhead
    · have hbelow := h (node.name :: r) (List.cons_prefix_cons.2 ⟨rfl, hle⟩)
        (List.cons_ne_nil _ _) (fun heq => hne (List.cons.inj heq).2)
      rwa [dataAt?_cons, if_pos rfl, if_neg hr] at hbelow
  · intro h r hle hr hne
    obtain ⟨e, es, rfl⟩ := List.exists_cons_of_ne_nil hr
    obtain ⟨rfl, hle'⟩ := List.cons_prefix_cons.1 hle
    have hes : es ≠ ds := fun heq => hne (congrArg _ heq)
    obtain rfl | ⟨hdir, hbelow⟩ := h
    · exact absurd (List.prefix_nil.1 hle') hes
    rw [dataAt?_cons, if_pos rfl]
    by_cases hnil : es = []
    · rw [if_pos hnil, hdir]
    · rw [if_neg hnil]
      exact hbelow es hle' hnil hes

theorem reached_cons_of_ne {node : Node} {children rest : Children} {d : Str} {ds : List Str}
    (hne : node.name ≠ d) :
    (cons node children rest).Reached (d :: ds) ↔ rest.Reached (d :: ds) := by
  refine forall_congr' fun r => forall_congr' fun hle => forall_congr' fun hr => ?_
  obtain ⟨e, es, rfl⟩ := List.exists_cons_of_ne_nil hr
  obtain ⟨rfl, -⟩ := List.cons_prefix_cons.1 hle
  rw [dataAt?_cons, if_neg hne]

/-- The walk visits exactly the nodes that directories lead to. -/
theorem mem_walk {t : Children} (h : t.Distinct) (dir : List Str) (e : Entry) :
    e ∈ t.walk dir ↔
      ∃ q, e.path = dir ++ q ∧ t.at? q = some (e.node, e.children) ∧ t.Reached q := by
  induction t generalizing dir with
  | nil => simp [walk]
  | cons node children rest ihc ihr =>
    obtain ⟨hnot, hchildren, hrest⟩ := h
    have hat (q : List Str) : (cons node children rest).at? (node.name :: q) =
        if q = [] then some (node, children) else children.at? q := by
      rw [at?, if_pos rfl]
    rw [walk, List.mem_cons, List.mem_append, ihr hrest]
    constructor
    · rintro (rfl | hbelow | ⟨q, hpath, hnode, hreached⟩)
      · exact ⟨[node.name], rfl, (hat []).trans (if_pos rfl), reached_cons_self.2 (.inl rfl)⟩
      · by_cases hdir : node.data = none
        · rw [if_pos hdir, ihc hchildren] at hbelow
          obtain ⟨q, hpath, hnode, hreached⟩ := hbelow
          have hq : q ≠ [] := fun hq => by rw [hq, at?_root] at hnode; cases hnode
          refine ⟨node.name :: q, ?_, (hat q).trans ((if_neg hq).trans hnode),
            reached_cons_self.2 (.inr ⟨hdir, hreached⟩)⟩
          rw [hpath, List.append_assoc]
          rfl
        · rw [if_neg hdir] at hbelow
          cases hbelow
      · cases q with
        | nil => rw [at?_root] at hnode; cases hnode
        | cons d ds =>
          -- the names of siblings differ, so the path does not lead into `children`
          have hne : node.name ≠ d := fun heq => hnot (heq ▸ at?_mem_names hnode)
          refine ⟨d :: ds, hpath, ?_, (reached_cons_of_ne hne).2 hreached⟩
          rw [at?, if_neg hne]
          exact hnode
    · rintro ⟨q, hpath, hnode, hreached⟩
      cases q with
      | nil => cases hnode
      | cons d ds =>
        by_cases hname : node.name = d
        · subst hname
          rw [hat] at hnode
          by_cases hds : ds = []
          · subst hds
            rw [if_pos rfl] at hnode
            obtain ⟨path, enode, echildren⟩ := e
            cases hnode
            exact .inl (congrArg (Entry.mk · _ _) hpath)
          · rw [if_neg hds] at hnode
            obtain hnil | ⟨hdir, hreached⟩ := reached_cons_self.1 hreached
            · exact absurd hnil hds
            refine .inr (.inl ?_)
            rw [if_pos hdir, ihc hchildren]
            refine ⟨ds, ?_, hnode, hreached⟩
            rw [hpath, List.append_assoc]
            rfl
        · rw [at?, if_neg hname] at hnode
          exact .inr (.inr ⟨d :: ds, hpath, hnode, (reached_cons_of_ne hname).1 hreached⟩)

/-- A path ends in the name of its node. -/
theorem name_mem_path {t : Children} {dir : List Str} {e : Entry} (he : e ∈ t.walk dir) :
    e.node.name ∈ e.path := by
  induction t generalizing dir with
  | nil => cases he
  | cons node children rest ihc ihr =>
    rw [walk, List.mem_cons, List.mem_append] at he
    obtain rfl | he | he := he
    · exact List.mem_append_right _ List.mem_cons_self
    · split at he
      · exact ihc he
      · cases he
    · exact ihr he

/-- What is visited lies at or below a child. -/
theorem walk_below {t : Children} {dir : List Str} {e : Entry} (he : e ∈ t.walk dir) :
    ∃ d ∈ t.names, dir ++ [d] <+: e.path := by
  induction t generalizing dir with
  | nil => cases he
  | cons node children rest ihc ihr =>
    rw [walk, List.mem_cons, List.mem_append] at he
    obtain rfl | he | he := he
    · exact ⟨node.name, List.mem_cons_self, List.prefix_refl _⟩
    · split at he
      · obtain ⟨d, -, hle⟩ := ihc he
        exact ⟨node.name, List.mem_cons_self, (List.prefix_append _ _).trans hle⟩
      · cases he
    · obtain ⟨d, hd, hle⟩ := ihr he
      exact ⟨d, List.mem_cons_of_mem _ hd, hle⟩

/-- No path is visited twice. -/
theorem Distinct.nodup_walk {t : Children} (h : t.Distinct) (dir : List Str) :
    ((t.walk dir).map Entry.path).Nodup := by
  induction t generalizing dir with
  | nil => exact List.nodup_nil
  | cons node children rest ihc ihr =>
    obtain ⟨hnot, hchildren, hrest⟩ := h
    -- the paths of the later children begin with another name
    have hother {e : Entry} (he : e ∈ rest.walk dir) : ¬dir ++ [node.name] <+: e.path := by
      intro hle
      obtain ⟨d, hd, hle'⟩ := walk_below he
      have hsame := (List.prefix_of_prefix_length_le hle hle' (by simp)).eq_of_length (by simp)
      have hname : node.name = d := (List.cons.inj (List.append_cancel_left hsame)).1
      exact hnot (hname ▸ hd)
    have hlater : (dir ++ [node.name]) ∉ (rest.walk dir).map Entry.path := by
      intro hin
      obtain ⟨e, he, hpath⟩ := List.mem_map.1 hin
      exact hother he (hpath ▸ List.prefix_refl _)
    rw [walk]
    split
    · rw [List.map_cons, List.map_append, List.nodup_cons, List.nodup_append, List.mem_append]
      refine ⟨not_or.2 ⟨?_, hlater⟩, ihc hchildren _, ihr hrest dir, ?_⟩
      · intro hin
        obtain ⟨e, he, hpath⟩ := List.mem_map.1 hin
        obtain ⟨d, -, hle⟩ := walk_below he
        have hlong := hle.length_le
        simp only [hpath, List.length_append, List.length_singleton] at hlong
        omega
      · intro q hq q' hq' heq
        obtain ⟨e, he, rfl⟩ := List.mem_map.1 hq
        obtain ⟨e', he', rfl⟩ := List.mem_map.1 hq'
        obtain ⟨d, -, hle⟩ := walk_below he
        exact hother he' (heq ▸ (List.prefix_append _ _).trans hle)
    · rw [List.nil_append, List.map_cons, List.nodup_cons]
      exact ⟨hlater, ihr hrest dir⟩

/-! ## Cluster numbers -/

theorem assign_dir {node : Node} (hdir : node.data = none) (children rest : Children) (n : ℕ) :
    (cons node children rest).assign n =
      let count := clustersFor (32 * (2 + children.length))
      let below := children.assign (n + count)
      (cons { node with cluster := n, nclusters := count } below.1 (rest.assign below.2).1,
        (rest.assign below.2).2) := by
  have hcount : max 1 (clustersFor (32 * (2 + children.length))) =
      clustersFor (32 * (2 + children.length)) := by
    rw [clustersFor_eq]
    omega
  have hpos : clustersFor (32 * (2 + children.length)) ≠ 0 := by
    rw [Ne, clustersFor_eq_zero]
    omega
  obtain ⟨name, data, cluster, nclusters⟩ := node
  cases hdir
  simp only [assign, hcount, alloc, if_pos hpos]

theorem assign_file {node : Node} {data : Bytes} (hfile : node.data = some data)
    (children rest : Children) (n : ℕ) :
    (cons node children rest).assign n =
      let count := clustersFor data.length
      (cons { node with cluster := if count ≠ 0 then n else 0, nclusters := count } children
        (rest.assign (n + count)).1, (rest.assign (n + count)).2) := by
  obtain ⟨name, _, cluster, nclusters⟩ := node
  cases hfile
  simp only [assign, alloc]
  by_cases hzero : clustersFor data.length = 0
  · simp only [hzero, ne_eq, not_true_eq_false, if_false, Nat.add_zero]
  · simp only [ne_eq, hzero, not_false_eq_true, if_true]

/-- `assign` changes cluster numbers only. -/
theorem dataAt?_assign (t : Children) (n : ℕ) (q : List Str) :
    (t.assign n).1.dataAt? q = t.dataAt? q := by
  induction t generalizing n q with
  | nil => rfl
  | cons node children rest ihc ihr =>
    cases q with
    | nil => rw [dataAt?_root, dataAt?_root]
    | cons d ds =>
      cases hdata : node.data with
      | none => rw [assign_dir hdata, dataAt?_cons, dataAt?_cons, ihc, ihr]
      | some data => rw [assign_file hdata, dataAt?_cons, dataAt?_cons, ihr]

theorem names_assign (t : Children) (n : ℕ) : (t.assign n).1.names = t.names := by
  induction t generalizing n with
  | nil => rfl
  | cons node children rest _ ihr =>
    cases hdata : node.data with
    | none => rw [assign_dir hdata, names, names, ihr]
    | some data => rw [assign_file hdata, names, names, ihr]

theorem length_assign (t : Children) (n : ℕ) : (t.assign n).1.length = t.length := by
  induction t generalizing n with
  | nil => rfl
  | cons node children rest _ ihr =>
    cases hdata : node.data with
    | none => rw [assign_dir hdata, length, length, ihr]
    | some data => rw [assign_file hdata, length, length, ihr]

theorem Distinct.assign {t : Children} (h : t.Distinct) (n : ℕ) : (t.assign n).1.Distinct := by
  induction t generalizing n with
  | nil => trivial
  | cons node children rest ihc ihr =>
    obtain ⟨hnot, hchildren, hrest⟩ := h
    cases hdata : node.data with
    | none =>
      rw [assign_dir hdata]
      exact ⟨by rwa [names_assign], ihc hchildren _, ihr hrest _⟩
    | some data =>
      rw [assign_file hdata]
      exact ⟨by rwa [names_assign], hchildren, ihr hrest _⟩

theorem walk_cons_dir {node : Node} (hdir : node.data = none) (children rest : Children)
    (dir : List Str) : (cons node children rest).walk dir =
      ⟨dir ++ [node.name], node, children⟩ ::
        (children.walk (dir ++ [node.name]) ++ rest.walk dir) := by
  rw [walk, if_pos hdir]

theorem walk_cons_file {node : Node} {data : Bytes} (hfile : node.data = some data)
    (children rest : Children) (dir : List Str) : (cons node children rest).walk dir =
      ⟨dir ++ [node.name], node, children⟩ :: rest.walk dir := by
  rw [walk, if_neg (by rw [hfile]; exact Option.some_ne_none _), List.nil_append]

/-- The runs of the nodes follow each other from the first free cluster to the next one. -/
theorem assign_endToEnd (t : Children) (dir : List Str) (n : ℕ) :
    Run.EndToEnd n (((t.assign n).1.walk dir).map Entry.run) (t.assign n).2 := by
  induction t generalizing dir n with
  | nil => rfl
  | cons node children rest ihc ihr =>
    cases hdata : node.data with
    | none =>
      rw [assign_dir hdata]
      dsimp only
      rw [walk_cons_dir (by exact hdata), List.map_cons, List.map_append]
      exact ⟨fun _ => rfl, (ihc _ _).append (ihr _ _)⟩
    | some data =>
      rw [assign_file hdata]
      dsimp only
      rw [walk_cons_file (by exact hdata), List.map_cons]
      exact ⟨fun hpos => if_pos hpos, ihr _ _⟩

/-- Every node gets the clusters that its contents need. -/
theorem assign_needed (t : Children) (dir : List Str) (n : ℕ) :
    ∀ e ∈ (t.assign n).1.walk dir, e.node.nclusters = e.needed := by
  induction t generalizing dir n with
  | nil => exact fun e he => nomatch he
  | cons node children rest ihc ihr =>
    intro e he
    cases hdata : node.data with
    | none =>
      rw [assign_dir hdata] at he
      dsimp only at he
      rw [walk_cons_dir (by exact hdata), List.mem_cons, List.mem_append] at he
      obtain rfl | he | he := he
      · simp only [Entry.needed, Entry.contentLength, hdata, length_assign]
      · exact ihc _ _ e he
      · exact ihr _ _ e he
    | some data =>
      rw [assign_file hdata] at he
      dsimp only at he
      rw [walk_cons_file (by exact hdata), List.mem_cons] at he
      obtain rfl | he := he
      · simp only [Entry.needed, Entry.contentLength, hdata]
      · exact ihr _ _ e he

/-! ## Nodes that no traversal visits -/

/-- No node records a cluster. -/
def Fresh : Children → Prop
  | nil => True
  | cons node children rest => node.cluster = 0 ∧ children.Fresh ∧ rest.Fresh

theorem fresh_graft (parts : List Str) (data : Bytes) : (graft parts data).Fresh := by
  induction parts with
  | nil => trivial
  | cons d ds ih =>
    rw [graft]
    split
    · exact ⟨rfl, trivial, trivial⟩
    · exact ⟨rfl, ih, trivial⟩

theorem Fresh.place {t : Children} (h : t.Fresh) (parts : List Str) (data : Bytes) :
    (t.place parts data).Fresh := by
  induction t generalizing parts with
  | nil => exact fresh_graft parts data
  | cons node children rest ihc ihr =>
    obtain ⟨hnode, hchildren, hrest⟩ := h
    cases parts with
    | nil => exact ⟨hnode, hchildren, hrest⟩
    | cons d ds =>
      rw [Children.place]
      split
      · split
        · exact ⟨rfl, trivial, hrest⟩
        · exact ⟨hnode, ihc hchildren ds, hrest⟩
      · exact ⟨hnode, hchildren, ihr hrest _⟩

theorem fresh_treeOf (ms : List Mapping) : (treeOf ms).Fresh := by
  induction ms using List.reverseRecOn with
  | nil => trivial
  | append_singleton ms m ih =>
    rw [treeOf, List.foldl_append]
    exact ih.place m.parts m.data

theorem Fresh.cluster_eq {t : Children} (h : t.Fresh) {q : List Str} {x : Node × Children}
    (hx : t.at? q = some x) : x.1.cluster = 0 := by
  induction t generalizing q with
  | nil => cases hx
  | cons node children rest ihc ihr =>
    obtain ⟨hnode, hchildren, hrest⟩ := h
    cases q with
    | nil => cases hx
    | cons d ds =>
      rw [at?] at hx
      split at hx
      · split at hx
        · cases hx
          exact hnode
        · exact ihc hchildren hx
      · exact ihr hrest hx

/-- A node below a file stays without a cluster. -/
theorem Fresh.assign_cluster {t : Children} (h : t.Fresh) {n : ℕ} {q : List Str}
    {x : Node × Children} (hx : (t.assign n).1.at? q = some x) (hq : ¬(t.assign n).1.Reached q) :
    x.1.cluster = 0 := by
  induction t generalizing n q with
  | nil => cases hx
  | cons node children rest ihc ihr =>
    obtain ⟨hnode, hchildren, hrest⟩ := h
    cases q with
    | nil => rw [at?_root] at hx; cases hx
    | cons d ds =>
      cases hdata : node.data with
      | none =>
        rw [assign_dir hdata] at hx hq
        dsimp only at hx hq
        rw [at?] at hx
        by_cases hname : node.name = d
        · subst hname
          rw [reached_cons_self, not_or] at hq
          rw [if_pos rfl, if_neg hq.1] at hx
          exact ihc hchildren hx fun hreached => hq.2 ⟨hdata, hreached⟩
        · rw [reached_cons_of_ne (by exact hname)] at hq
          rw [if_neg hname] at hx
          exact ihr hrest hx hq
      | some data =>
        rw [assign_file hdata] at hx hq
        dsimp only at hx hq
        rw [at?] at hx
        by_cases hname : node.name = d
        · subst hname
          rw [reached_cons_self, not_or] at hq
          rw [if_pos rfl, if_neg hq.1] at hx
          exact hchildren.cluster_eq hx
        · rw [reached_cons_of_ne (by exact hname)] at hq
          rw [if_neg hname] at hx
          exact ihr hrest hx hq

/-! ## What the mappings hide -/

theorem at?_of_dataAt? {t : Children} {q : List Str} {data : Option Bytes}
    (h : t.dataAt? q = some data) : ∃ x, t.at? q = some x ∧ x.1.data = data := by
  rw [dataAt?, Option.map_eq_some_iff] at h
  exact h

theorem dataAt?_of_at? {t : Children} {q : List Str} {x : Node × Children}
    (h : t.at? q = some x) : t.dataAt? q = some x.1.data := by
  rw [dataAt?, h]
  rfl

theorem prefix_dropLast {p q : List Str} (hle : p <+: q) (hne : p ≠ q) : p <+: q.dropLast := by
  obtain ⟨t, rfl⟩ := hle
  have ht : t ≠ [] := fun hnil => hne (by rw [hnil, List.append_nil])
  rw [List.dropLast_append_of_ne_nil ht]
  exact List.prefix_append _ _

/-- Where nothing is hidden, every path between a file and a file below it is a file's. -/
theorem standing_of_below {ms : List Mapping} (h : NothingHidden ms) {f m : Mapping}
    (hf : f ∈ standing ms) (hm : m ∈ standing ms) {q : List Str} (hle : f.parts <+: q)
    (hne : f.parts ≠ q) (hq : q <+: m.parts) : ∃ p ∈ standing ms, p.parts = q := by
  induction hn : m.parts.length generalizing m with
  | zero => exact absurd (List.length_eq_zero_iff.1 hn) m.named
  | succ n ih =>
    by_cases heq : q = m.parts
    · exact ⟨m, hm, heq.symm⟩
    -- one step up from `m` there is a file again
    have hfm : f.parts ≠ m.parts := by
      intro hself
      rw [← hself] at hq
      exact hne (hle.eq_of_length_le hq.length_le)
    obtain ⟨-, p, hp, hparts⟩ := h f hf m hm (hle.trans hq) hfm
    refine ih hp (hparts ▸ prefix_dropLast hq heq) ?_
    rw [hparts, List.length_dropLast, hn, Nat.add_sub_cancel]

/-- Everything that takes room is reached exactly if the mappings hide nothing. -/
theorem reached_iff_nothingHidden {ms : List Mapping} {t : Children}
    (h : Describes (standing ms) t) :
    (∀ q x, t.at? q = some x → x.1.data ≠ some [] → t.Reached q) ↔ NothingHidden ms := by
  constructor
  · intro hreached f hf m hm hle hne
    have hfile := (h.file f.parts f.data).2 ⟨f, hf, rfl, rfl⟩
    obtain ⟨x, hx, hdata⟩ := at?_of_dataAt? ((h.file m.parts m.data).2 ⟨m, hm, rfl, rfl⟩)
    -- a node that takes room cannot be below the file
    have hbelow (q : List Str) (hq : f.parts <+: q) (hqne : f.parts ≠ q) (y : Node × Children)
        (hy : t.at? q = some y) : y.1.data = some [] := by
      by_contra hroom
      have hdir := hreached q y hy hroom f.parts hq f.named hqne
      rw [hfile] at hdir
      cases hdir
    have hempty := hbelow m.parts hle hne x hx
    rw [hdata] at hempty
    refine ⟨Option.some.inj hempty, ?_⟩
    have hparent : f.parts <+: m.parts.dropLast := prefix_dropLast hle hne
    obtain ⟨y, hy⟩ := at?_of_prefix hx (fun hnil => f.named (List.prefix_nil.1 (hnil ▸ hparent)))
      (List.dropLast_prefix m.parts)
    by_cases heq : f.parts = m.parts.dropLast
    · exact ⟨f, hf, heq⟩
    · have hempty' := hbelow _ hparent heq y hy
      have hat := dataAt?_of_at? hy
      rw [hempty'] at hat
      obtain ⟨p, hp, hparts, -⟩ := (h.file _ _).1 hat
      exact ⟨p, hp, hparts⟩
  · intro hhidden q x hx hroom r hle hr hne
    obtain ⟨y, hy⟩ := at?_of_prefix hx hr hle
    have hat := dataAt?_of_at? hy
    cases hdata : y.1.data with
    | none => rw [hat, hdata]
    | some data =>
      rw [hdata] at hat
      obtain ⟨f, hf, rfl, -⟩ := (h.file _ _).1 hat
      exfalso
      have hx' := dataAt?_of_at? hx
      cases hxdata : x.1.data with
      | some data' =>
        rw [hxdata] at hx'
        obtain ⟨m, hm, rfl, rfl⟩ := (h.file _ _).1 hx'
        exact hroom (hxdata.trans (congrArg some (hhidden f hf m hm hle hne).1))
      | none =>
        rw [hxdata] at hx'
        obtain ⟨-, hnot, m, hm, hqle⟩ := (h.dir _).1 hx'
        obtain ⟨p, hp, hparts⟩ := standing_of_below hhidden hf hm hle hne hqle
        exact hnot p hp hparts

end Children

/-! ## The FAT -/

@[simp] theorem length_chain (first count : ℕ) (fat : List ℕ) :
    (chain first count fat).length = fat.length := by
  rw [chain]
  generalize List.range count = is
  induction is generalizing fat with
  | nil => rfl
  | cons i is ih => exact (ih _).trans (List.length_set ..)

/-- A chain enters the links of its run and nothing else. -/
theorem getElem?_chain (r : Run) (fat : List ℕ) (hin : r.start + r.count ≤ fat.length) (k : ℕ) :
    (chain r.start r.count fat)[k]? =
      if k ∈ r.members then some (r.linkOf 0xFFFF k) else fat[k]? := by
  -- the first `m` rounds have entered the links of the first `m` clusters
  have hrounds (m : ℕ) (hm : m ≤ r.count) : ((List.range m).foldl (fun fat i =>
        fat.set (r.start + i) (if i + 1 < r.count then r.start + i + 1 else 0xFFFF)) fat).length =
          fat.length ∧
      ((List.range m).foldl (fun fat i =>
        fat.set (r.start + i) (if i + 1 < r.count then r.start + i + 1 else 0xFFFF)) fat)[k]? =
          if r.start ≤ k ∧ k < r.start + m then some (r.linkOf 0xFFFF k) else fat[k]? := by
    induction m with
    | zero => exact ⟨rfl, (if_neg (by omega)).symm⟩
    | succ m ih =>
      obtain ⟨hlen, hget⟩ := ih (by omega)
      rw [List.range_succ, List.foldl_append, List.foldl_cons, List.foldl_nil, List.length_set,
        List.getElem?_set, hlen, hget]
      refine ⟨rfl, ?_⟩
      by_cases hk : r.start + m = k
      · subst hk
        have hroom : r.start + m < fat.length := by omega
        have hcovered : r.start ≤ r.start + m ∧ r.start + m < r.start + (m + 1) := by omega
        rw [if_pos rfl, if_pos hroom, if_pos hcovered, Run.linkOf]
        congr 2
        exact propext (by omega)
      · rw [if_neg hk]
        congr 1
        exact propext (by omega)
  rw [chain, (hrounds r.count le_rfl).2]
  congr 1
  exact propext Run.mem_members.symm

/-- The FAT after the chains of a list of runs. -/
def chained (runs : List Run) (fat : List ℕ) : List ℕ :=
  runs.foldl (fun fat r => chain r.start r.count fat) fat

theorem length_chained (runs : List Run) (fat : List ℕ) :
    (chained runs fat).length = fat.length := by
  induction runs generalizing fat with
  | nil => rfl
  | cons r runs ih => exact (ih _).trans (length_chain ..)

/-- What no run covers is as before. -/
theorem getElem?_chained_of_not_mem {runs : List Run} {fat : List ℕ}
    (hin : ∀ r ∈ runs, r.count ≠ 0 → r.start + r.count ≤ fat.length) {k : ℕ}
    (hk : ∀ r ∈ runs, k ∉ r.members) : (chained runs fat)[k]? = fat[k]? := by
  induction runs generalizing fat with
  | nil => rfl
  | cons r runs ih =>
    have hrest : ∀ r' ∈ runs, r'.count ≠ 0 →
        r'.start + r'.count ≤ (chain r.start r.count fat).length := fun r' hr' hpos => by
      rw [length_chain]
      exact hin r' (List.mem_cons_of_mem _ hr') hpos
    refine (ih hrest fun r' hr' => hk r' (List.mem_cons_of_mem _ hr')).trans ?_
    by_cases hpos : r.count = 0
    · rw [hpos]
      rfl
    · rw [getElem?_chain r fat (hin r List.mem_cons_self hpos), if_neg (hk r List.mem_cons_self)]

/-- Runs that keep apart all keep their links. -/
theorem getElem?_chained {runs : List Run} {fat : List ℕ} (happart : runs.Pairwise Run.Apart)
    (hin : ∀ r ∈ runs, r.count ≠ 0 → r.start + r.count ≤ fat.length) {r : Run} (hr : r ∈ runs)
    {k : ℕ} (hk : k ∈ r.members) : (chained runs fat)[k]? = some (r.linkOf 0xFFFF k) := by
  induction runs generalizing fat with
  | nil => cases hr
  | cons r' runs ih =>
    obtain ⟨hhead, htail⟩ := List.pairwise_cons.1 happart
    have hrest : ∀ r'' ∈ runs, r''.count ≠ 0 →
        r''.start + r''.count ≤ (chain r'.start r'.count fat).length := fun r'' hr'' hpos => by
      rw [length_chain]
      exact hin r'' (List.mem_cons_of_mem _ hr'') hpos
    cases hr with
    | head =>
      have hpos : r.count ≠ 0 := by
        have := Run.mem_members.1 hk
        omega
      refine (getElem?_chained_of_not_mem hrest fun r'' hr'' => hhead r'' hr'' k hk).trans ?_
      rw [getElem?_chain r fat (hin r List.mem_cons_self hpos), if_pos hk]
    | tail _ hr => exact ih htail hrest hr

/-- `chain_all` enters the runs of the walk. -/
theorem Children.chainAll_eq (t : Children) (dir : List Str) (fat : List ℕ) :
    t.chainAll fat = chained ((t.walk dir).map Entry.run) fat := by
  induction t generalizing dir fat with
  | nil => rfl
  | cons node children rest ihc ihr =>
    have hfirst : (if node.nclusters ≠ 0 then chain node.cluster node.nclusters fat else fat) =
        chain node.cluster node.nclusters fat := by
      by_cases hzero : node.nclusters = 0
      · rw [if_neg (not_not.2 hzero), hzero]
        rfl
      · rw [if_pos hzero]
    rw [chainAll, hfirst]
    cases hdata : node.data with
    | none =>
      rw [if_pos rfl, walk_cons_dir hdata, ihr dir, ihc (dir ++ [node.name]), List.map_cons,
        List.map_append, chained, chained, chained, List.foldl_cons, List.foldl_append]
      rfl
    | some data =>
      rw [if_neg (Option.some_ne_none _), walk_cons_file hdata, ihr dir, List.map_cons]
      rfl

end Sypas.Mkfat
