import Sypas.Lib.Bytes
import Sypas.Media.FatLayout

/-!
# The tree of the FAT builder (`tools/mkfat.py`)

The builder reads its mappings into a tree of nodes. A dictionary of children is a list
in insertion order; each entry holds the child's fields, its own dictionary and the rest
of the list.

## Main definitions

- `Sypas.Mkfat.loadMapping` — a `SRC=/DST` argument with the bytes of its source
- `Sypas.Mkfat.Children.place` — one mapping put into the tree
- `Sypas.Mkfat.standing` — the mappings that no later one replaces
- `Sypas.Mkfat.NothingHidden` — no mapping ends up below a file
- `Sypas.Mkfat.NoneBelow` — no mapping lies below another

## Main results

- `Sypas.Mkfat.Children.dataAt?_place` — what is where after one mapping
- `Sypas.Mkfat.describes_treeOf` — the tree of a list of mappings
-/

namespace Sypas.Mkfat

/-- A Python string. -/
abbrev Str := List Char

/-- What the builder takes from its host: the files, the time stamp of the image and the
    upper case of characters outside ASCII. -/
structure Host where
  readFile : Str → Option Bytes
  dosTime : ℕ
  dosDate : ℕ
  unicodeUpper : Char → Str

/-! ## Mappings -/

/-- `m.split("=", 1)`. -/
def splitEquals (m : Str) : Except BuildError (Str × Str) :=
  match m.dropWhile (· ≠ '=') with
  | [] => .error .noEquals
  | _ :: dst => .ok (m.takeWhile (· ≠ '='), dst)

/-- `s.strip("/")`. -/
def stripSlashes (s : Str) : Str :=
  ((s.dropWhile (· = '/')).reverse.dropWhile (· = '/')).reverse

/-- The components of a destination, empty ones dropped. -/
def destParts (dst : Str) : List Str := ((stripSlashes dst).splitOn '/').filter (· ≠ [])

/-- A destination and the bytes for it. -/
structure Mapping where
  parts : List Str
  data : Bytes
  named : parts ≠ []
deriving DecidableEq

def loadMapping (host : Host) (m : Str) : Except BuildError Mapping := do
  let (src, dst) ← splitEquals m
  match host.readFile src with
  | none => .error .unreadable
  | some data =>
    if h : destParts dst = [] then .error .noName else .ok ⟨destParts dst, data, h⟩

/-- The mappings of an argument list, as far as they can be loaded. -/
def loaded (host : Host) (mappings : List Str) : List Mapping :=
  mappings.filterMap fun m => (loadMapping host m).toOption

/-! ## The tree -/

/-- The fields of `Node` besides its children. `data` is `none` for directories. -/
structure Node where
  name : Str
  data : Option Bytes
  cluster : ℕ
  nclusters : ℕ
deriving DecidableEq

def Node.new (name : Str) (data : Option Bytes) : Node := ⟨name, data, 0, 0⟩

/-- The `children` of a node, in insertion order. -/
inductive Children where
  | nil
  | cons (node : Node) (children rest : Children)
deriving DecidableEq

namespace Children

/-- `len(children)`. -/
def length : Children → ℕ
  | nil => 0
  | cons _ _ rest => rest.length + 1

def names : Children → List Str
  | nil => []
  | cons node _ rest => node.name :: rest.names

/-- New directories down to a new file. -/
def graft : List Str → Bytes → Children
  | [], _ => nil
  | d :: ds, data =>
    if ds = [] then cons (.new d (some data)) nil nil else cons (.new d none) (graft ds data) nil

/-- One round of the loop over the mappings: `setdefault` down the path, then a new node
    under the last component, in place of what was there. -/
def place : Children → List Str → Bytes → Children
  | nil, parts, data => graft parts data
  | cons node children rest, [], _ => cons node children rest
  | cons node children rest, d :: ds, data =>
    if node.name = d then
      if ds = [] then cons (.new d (some data)) nil rest
      else cons node (children.place ds data) rest
    else cons node children (rest.place (d :: ds) data)

/-- The node at a path, with its children. -/
def at? : Children → List Str → Option (Node × Children)
  | nil, _ => none
  | cons _ _ _, [] => none
  | cons node children rest, d :: ds =>
    if node.name = d then if ds = [] then some (node, children) else children.at? ds
    else rest.at? (d :: ds)

/-- The data of the node at a path: `some none` for a directory. -/
def dataAt? (t : Children) (path : List Str) : Option (Option Bytes) :=
  (t.at? path).map fun x => x.1.data

end Children

def addMapping (host : Host) (tree : Children) (m : Str) : Except BuildError Children := do
  let mapping ← loadMapping host m
  return tree.place mapping.parts mapping.data

/-- The tree of a list of mappings. -/
def treeOf (maps : List Mapping) : Children :=
  maps.foldl (fun tree m => tree.place m.parts m.data) .nil

theorem loaded_cons_of_ok {host : Host} {m : Str} {mapping : Mapping}
    (h : loadMapping host m = .ok mapping) (ms : List Str) :
    loaded host (m :: ms) = mapping :: loaded host ms := by
  rw [loaded, List.filterMap_cons, h]
  rfl

/-- The builder's loop over the mappings returns exactly when all of them can be loaded. -/
theorem foldlM_addMapping_eq_ok_iff {host : Host} {mappings : List Str} {start tree : Children} :
    mappings.foldlM (addMapping host) start = .ok tree ↔
      (loaded host mappings).length = mappings.length ∧
        tree = (loaded host mappings).foldl (fun tree m => tree.place m.parts m.data) start := by
  induction mappings generalizing start with
  | nil => exact ⟨fun h => ⟨rfl, (Except.ok.inj h).symm⟩, fun h => congrArg _ h.2.symm⟩
  | cons m ms ih =>
    rw [List.foldlM_cons]
    unfold addMapping
    cases hm : loadMapping host m with
    | error e =>
      refine ⟨fun h => (nomatch h), fun h => ?_⟩
      have hskip : loaded host (m :: ms) = loaded host ms := by
        rw [loaded, List.filterMap_cons, hm]
        rfl
      have hle : (loaded host ms).length ≤ ms.length := List.length_filterMap_le ..
      rw [hskip, List.length_cons] at h
      omega
    | ok mapping =>
      rw [loaded_cons_of_ok hm, List.length_cons, List.length_cons, Nat.add_right_cancel_iff]
      exact ih

namespace Children

/-! ## Looking up a path -/

@[simp] theorem at?_nil (path : List Str) : nil.at? path = none := rfl

@[simp] theorem at?_root (t : Children) : t.at? [] = none := by
  cases t <;> rfl

@[simp] theorem dataAt?_nil (path : List Str) : nil.dataAt? path = none := rfl

@[simp] theorem dataAt?_root (t : Children) : t.dataAt? [] = none := by
  rw [dataAt?, at?_root]
  rfl

theorem dataAt?_cons (node : Node) (children rest : Children) (d : Str) (ds : List Str) :
    (cons node children rest).dataAt? (d :: ds) =
      if node.name = d then if ds = [] then some node.data else children.dataAt? ds
      else rest.dataAt? (d :: ds) := by
  rw [dataAt?, at?]
  split
  · split <;> rfl
  · rfl

theorem dataAt?_graft (parts : List Str) (data : Bytes) (q : List Str) :
    (graft parts data).dataAt? q =
      if q = [] then none
      else if q = parts then some (some data)
      else if q <+: parts then some none
      else none := by
  induction parts generalizing q with
  | nil =>
    cases q with
    | nil => rfl
    | cons e es => simp [graft]
  | cons d ds ih =>
    cases q with
    | nil => simp
    | cons e es =>
      rw [graft]
      by_cases hlast : ds = []
      · subst hlast
        rw [if_pos rfl, dataAt?_cons, Node.new]
        by_cases hd : d = e <;> by_cases hes : es = [] <;> simp [hd, hes, eq_comm]
      · rw [if_neg hlast, dataAt?_cons, Node.new, ih]
        by_cases hd : d = e
        · subst hd
          by_cases hes : es = []
          · simp [hes, Ne.symm hlast]
          · simp [hes]
        · simp [hd, Ne.symm hd]

/-- Where the nodes are after one mapping: the file stands at its path and hides all that
    was below, and the path down to it exists. -/
theorem dataAt?_place (t : Children) {parts : List Str} (hparts : parts ≠ []) (data : Bytes)
    {q : List Str} (hq : q ≠ []) :
    (t.place parts data).dataAt? q =
      if q = parts then some (some data)
      else if parts <+: q then none
      else if q <+: parts then some ((t.dataAt? q).getD none)
      else t.dataAt? q := by
  induction t generalizing parts q with
  | nil =>
    rw [place, dataAt?_graft, if_neg hq, dataAt?_nil, Option.getD_none]
    by_cases hbelow : parts <+: q
    · by_cases habove : q <+: parts
      · have heq : q = parts := habove.eq_of_length_le hbelow.length_le
        rw [if_pos heq, if_pos heq]
      · rw [if_neg habove, if_pos hbelow]
    · rw [if_neg hbelow]
  | cons node children rest ihc ihr =>
    obtain ⟨d, ds, rfl⟩ := List.exists_cons_of_ne_nil hparts
    obtain ⟨e, es, rfl⟩ := List.exists_cons_of_ne_nil hq
    rw [place]
    by_cases hname : node.name = d
    · rw [if_pos hname]
      by_cases hlast : ds = []
      · -- the node itself is replaced
        rw [if_pos hlast, dataAt?_cons, dataAt?_cons, Node.new]
        by_cases hd : d = e <;> by_cases hes : es = [] <;> simp [hd, hes, hname, hlast, eq_comm]
      · rw [if_neg hlast, dataAt?_cons, dataAt?_cons]
        by_cases hd : d = e
        · by_cases hes : es = []
          · simp [hd, hes, hname, Ne.symm hlast, hlast]
          · rw [ihc hlast hes]
            simp [hd, hes, hname]
        · simp [hd, hname, Ne.symm hd]
    · rw [if_neg hname, dataAt?_cons, dataAt?_cons]
      by_cases hd : node.name = e
      · have hne : ¬e = d := fun h => hname (hd.trans h)
        simp [hd, hne, Ne.symm hne]
      · rw [if_neg hd, if_neg hd, ihr (List.cons_ne_nil _ _) (List.cons_ne_nil _ _)]

end Children

/-! ## The tree of a list of mappings -/

/-- The mappings that no later one replaces: those whose destination is neither equal to
    a later one nor below it. -/
def standing : List Mapping → List Mapping
  | [] => []
  | m :: ms => if ∃ m' ∈ ms, m'.parts <+: m.parts then standing ms else m :: standing ms

/-- Among the mappings that no later one replaces, whatever lies below another's file is an
    empty file directly below a file. -/
def NothingHidden (ms : List Mapping) : Prop :=
  ∀ f ∈ standing ms, ∀ m ∈ standing ms, f.parts <+: m.parts → f.parts ≠ m.parts →
    m.data = [] ∧ ∃ p ∈ standing ms, p.parts = m.parts.dropLast

instance (ms : List Mapping) : Decidable (NothingHidden ms) :=
  inferInstanceAs (Decidable (∀ f ∈ standing ms, ∀ m ∈ standing ms, _))

/-- No destination lies below another. -/
def NoneBelow (ms : List Mapping) : Prop :=
  ∀ m ∈ ms, ∀ m' ∈ ms, m.parts <+: m'.parts → m.parts = m'.parts

instance (ms : List Mapping) : Decidable (NoneBelow ms) :=
  inferInstanceAs (Decidable (∀ m ∈ ms, ∀ m' ∈ ms, _))

theorem mem_of_mem_standing {ms : List Mapping} {m : Mapping} (h : m ∈ standing ms) : m ∈ ms := by
  induction ms with
  | nil => cases h
  | cons m' ms ih =>
    rw [standing] at h
    split at h
    · exact List.mem_cons_of_mem _ (ih h)
    · obtain rfl | h := List.mem_cons.1 h
      · exact List.mem_cons_self
      · exact List.mem_cons_of_mem _ (ih h)

/-- At or above every mapping one is left standing. -/
theorem exists_standing {ms : List Mapping} {m : Mapping} (h : m ∈ ms) :
    ∃ m' ∈ standing ms, m'.parts <+: m.parts := by
  induction ms generalizing m with
  | nil => cases h
  | cons m' ms ih =>
    rw [standing]
    split
    · rename_i hlater
      obtain rfl | h := List.mem_cons.1 h
      · obtain ⟨m'', hm'', hle⟩ := hlater
        obtain ⟨f, hf, hle'⟩ := ih hm''
        exact ⟨f, hf, hle'.trans hle⟩
      · exact ih h
    · obtain rfl | h := List.mem_cons.1 h
      · exact ⟨m, List.mem_cons_self, List.prefix_refl _⟩
      · obtain ⟨f, hf, hle⟩ := ih h
        exact ⟨f, List.mem_cons_of_mem _ hf, hle⟩

namespace NoneBelow

variable {ms : List Mapping} (h : NoneBelow ms)

include h

theorem tail {m : Mapping} {ms' : List Mapping} (hms : ms = m :: ms') : NoneBelow ms' := by
  subst hms
  exact fun f hf m hm => h f (List.mem_cons_of_mem _ hf) m (List.mem_cons_of_mem _ hm)

theorem exists_standing_parts {m : Mapping} (hm : m ∈ ms) :
    ∃ m' ∈ standing ms, m'.parts = m.parts := by
  obtain ⟨m', hm', hle⟩ := exists_standing hm
  exact ⟨m', hm', h m' (mem_of_mem_standing hm') m hm hle⟩

/-- Above a mapping there is no file. -/
theorem parts_ne {m m' : Mapping} (hm : m ∈ ms) (hm' : m' ∈ ms) {q : List Str} (hle : q <+: m.parts)
    (hne : q ≠ m.parts) : m'.parts ≠ q := by
  rintro rfl
  exact hne (h m' hm' m hm hle)

end NoneBelow

theorem standing_append (ms : List Mapping) (m : Mapping) :
    standing (ms ++ [m]) = (standing ms).filter (fun m' => ¬m.parts <+: m'.parts) ++ [m] := by
  induction ms with
  | nil => rfl
  | cons m' ms ih =>
    rw [List.cons_append, standing, standing, ih]
    by_cases hlater : ∃ m'' ∈ ms, m''.parts <+: m'.parts
    · obtain ⟨m'', hm'', hle⟩ := hlater
      rw [if_pos ⟨m'', List.mem_append_left _ hm'', hle⟩, if_pos ⟨m'', hm'', hle⟩]
    rw [if_neg hlater]
    by_cases hnew : m.parts <+: m'.parts
    · rw [if_pos ⟨m, by simp, hnew⟩, List.filter_cons_of_neg (by simpa using hnew)]
    · have hnone : ¬∃ m'' ∈ ms ++ [m], m''.parts <+: m'.parts := by
        rintro ⟨m'', hm'', hle⟩
        obtain hm'' | hm'' := List.mem_append.1 hm''
        · exact hlater ⟨m'', hm'', hle⟩
        · rw [List.mem_singleton.1 hm''] at hle
          exact hnew hle
      rw [if_neg hnone, List.filter_cons_of_pos (by simpa using hnew), List.cons_append]

/-- The tree holds the files of the mappings `ms`, the directories above them and nothing
    else. -/
structure Describes (ms : List Mapping) (t : Children) : Prop where
  file : ∀ q data, t.dataAt? q = some (some data) ↔ ∃ m ∈ ms, m.parts = q ∧ m.data = data
  dir : ∀ q, t.dataAt? q = some none ↔
    q ≠ [] ∧ (∀ m ∈ ms, m.parts ≠ q) ∧ ∃ m ∈ ms, q <+: m.parts

/-- The files and directories of the tree lie on the way to mappings. -/
theorem Describes.exists_prefix {ms : List Mapping} {t : Children} (h : Describes ms t)
    {q : List Str} {data : Option Bytes} (hq : t.dataAt? q = some data) :
    ∃ m ∈ ms, q <+: m.parts := by
  cases data with
  | none => exact ((h.dir q).1 hq).2.2
  | some data =>
    obtain ⟨m, hm, rfl, -⟩ := (h.file q data).1 hq
    exact ⟨m, hm, List.prefix_refl _⟩

theorem Describes.nil : Describes [] .nil where
  file := by simp
  dir := by simp

/-- What remains of the mappings `ms` after `m`. -/
theorem mem_standing_append {ms : List Mapping} {m m' : Mapping} :
    m' ∈ ms.filter (fun m' => ¬m.parts <+: m'.parts) ++ [m] ↔
      m' ∈ ms ∧ ¬m.parts <+: m'.parts ∨ m' = m := by
  rw [List.mem_append, List.mem_filter, List.mem_singleton, decide_eq_true_eq]

/-- A path at or below the new file ends no other mapping. -/
theorem eq_of_mem_standing_append {ms : List Mapping} {m m' : Mapping} {q : List Str}
    (hm' : m' ∈ ms.filter (fun m' => ¬m.parts <+: m'.parts) ++ [m]) (hq : m.parts <+: q)
    (hle : q <+: m'.parts) : m' = m := by
  obtain ⟨-, hnot⟩ | rfl := mem_standing_append.1 hm'
  · exact absurd (hq.trans hle) hnot
  · rfl

/-- Any other path ends a mapping exactly if it did before, … -/
theorem exists_file_standing_append {ms : List Mapping} {m : Mapping} {q : List Str}
    (hq : ¬m.parts <+: q) (data : Bytes) :
    (∃ m' ∈ ms.filter (fun m' => ¬m.parts <+: m'.parts) ++ [m], m'.parts = q ∧ m'.data = data) ↔
      ∃ m' ∈ ms, m'.parts = q ∧ m'.data = data := by
  constructor
  · rintro ⟨m', hm', rfl, hdata⟩
    obtain ⟨hms, -⟩ | rfl := mem_standing_append.1 hm'
    · exact ⟨m', hms, rfl, hdata⟩
    · exact absurd (List.prefix_refl _) hq
  · rintro ⟨m', hms, rfl, hdata⟩
    exact ⟨m', mem_standing_append.2 (.inl ⟨hms, hq⟩), rfl, hdata⟩

/-- … and lies above one exactly if it did before or lies above the new file. -/
theorem exists_dir_standing_append {ms : List Mapping} {m : Mapping} {q : List Str}
    (hq : ¬m.parts <+: q) :
    (∃ m' ∈ ms.filter (fun m' => ¬m.parts <+: m'.parts) ++ [m], q <+: m'.parts) ↔
      q <+: m.parts ∨ ∃ m' ∈ ms, q <+: m'.parts := by
  constructor
  · rintro ⟨m', hm', hle⟩
    obtain ⟨hms, -⟩ | rfl := mem_standing_append.1 hm'
    · exact .inr ⟨m', hms, hle⟩
    · exact .inl hle
  · rintro (hle | ⟨m', hms, hle⟩)
    · exact ⟨m, mem_standing_append.2 (.inr rfl), hle⟩
    by_cases hnew : m.parts <+: m'.parts
    · obtain hcase | hcase := List.prefix_or_prefix_of_prefix hle hnew
      · exact ⟨m, mem_standing_append.2 (.inr rfl), hcase⟩
      · exact absurd hcase hq
    · exact ⟨m', mem_standing_append.2 (.inl ⟨hms, hnew⟩), hle⟩

theorem Describes.place_file {ms : List Mapping} {t : Children} (h : Describes ms t) (m : Mapping)
    (q : List Str) (data : Bytes) :
    (t.place m.parts m.data).dataAt? q = some (some data) ↔
      ∃ m' ∈ ms.filter (fun m' => ¬m.parts <+: m'.parts) ++ [m],
        m'.parts = q ∧ m'.data = data := by
  by_cases hq : q = []
  · subst hq
    rw [Children.dataAt?_root]
    exact ⟨fun hnone => (nomatch hnone), fun ⟨m', _, hroot, _⟩ => absurd hroot m'.named⟩
  rw [t.dataAt?_place m.named m.data hq]
  by_cases hself : q = m.parts
  · subst hself
    rw [if_pos rfl]
    constructor
    · intro heq
      exact ⟨m, mem_standing_append.2 (.inr rfl), rfl, Option.some.inj (Option.some.inj heq)⟩
    · rintro ⟨m', hm', hparts, rfl⟩
      rw [eq_of_mem_standing_append hm' (List.prefix_refl _) (hparts ▸ List.prefix_refl _)]
  rw [if_neg hself]
  by_cases hbelow : m.parts <+: q
  · rw [if_pos hbelow]
    refine ⟨fun hnone => (nomatch hnone), ?_⟩
    rintro ⟨m', hm', rfl, -⟩
    have heq := eq_of_mem_standing_append hm' hbelow (List.prefix_refl _)
    exact absurd (congrArg Mapping.parts heq) hself
  rw [if_neg hbelow, exists_file_standing_append hbelow data, ← h.file]
  split
  · cases t.dataAt? q <;> simp
  · rfl

/-- Above the new file, what is not a file is or becomes a directory. -/
theorem Describes.getD_eq_none_iff {ms : List Mapping} {t : Children} (h : Describes ms t)
    (q : List Str) : (t.dataAt? q).getD none = none ↔ ∀ m ∈ ms, m.parts ≠ q := by
  constructor
  · intro heq m hms hparts
    rw [(h.file q m.data).2 ⟨m, hms, hparts, rfl⟩] at heq
    cases heq
  · intro hnot
    cases hfile : (t.dataAt? q).getD none with
    | none => rfl
    | some data =>
      obtain hdata | ⟨-, hdata⟩ := Option.getD_eq_iff.1 hfile
      · obtain ⟨m, hms, hparts, -⟩ := (h.file q data).1 hdata
        exact absurd hparts (hnot m hms)
      · cases hdata

theorem Describes.place_dir {ms : List Mapping} {t : Children} (h : Describes ms t) (m : Mapping)
    (q : List Str) :
    (t.place m.parts m.data).dataAt? q = some none ↔
      q ≠ [] ∧ (∀ m' ∈ ms.filter (fun m' => ¬m.parts <+: m'.parts) ++ [m], m'.parts ≠ q) ∧
        ∃ m' ∈ ms.filter (fun m' => ¬m.parts <+: m'.parts) ++ [m], q <+: m'.parts := by
  by_cases hq : q = []
  · subst hq
    rw [Children.dataAt?_root]
    exact ⟨fun hnone => (nomatch hnone), fun hdir => absurd rfl hdir.1⟩
  rw [t.dataAt?_place m.named m.data hq]
  by_cases hself : q = m.parts
  · subst hself
    rw [if_pos rfl]
    exact ⟨fun hfile => (nomatch hfile),
      fun hdir => absurd rfl (hdir.2.1 m (mem_standing_append.2 (.inr rfl)))⟩
  rw [if_neg hself]
  by_cases hbelow : m.parts <+: q
  · rw [if_pos hbelow]
    refine ⟨fun hnone => (nomatch hnone), ?_⟩
    rintro ⟨-, -, m', hm', hle⟩
    rw [eq_of_mem_standing_append hm' hbelow hle] at hle
    exact absurd (hle.eq_of_length_le hbelow.length_le) hself
  have hfree : (∀ m' ∈ ms.filter (fun m' => ¬m.parts <+: m'.parts) ++ [m], m'.parts ≠ q) ↔
      ∀ m' ∈ ms, m'.parts ≠ q := by
    constructor
    · intro hnot m' hms heq
      exact hnot m' (mem_standing_append.2 (.inl ⟨hms, heq ▸ hbelow⟩)) heq
    · intro hnot m' hm'
      obtain ⟨hms, -⟩ | rfl := mem_standing_append.1 hm'
      · exact hnot m' hms
      · exact Ne.symm hself
  rw [if_neg hbelow, hfree, exists_dir_standing_append hbelow]
  by_cases habove : q <+: m.parts
  · -- the directory stays or is created for the new mapping
    rw [if_pos habove, Option.some_inj, h.getD_eq_none_iff]
    exact ⟨fun hnot => ⟨hq, hnot, .inl habove⟩, fun hall => hall.2.1⟩
  · rw [if_neg habove, h.dir, or_iff_right habove]

/-- Placing a file adds its mapping to those that the tree describes. -/
theorem Describes.place {ms : List Mapping} {t : Children} (h : Describes ms t) (m : Mapping) :
    Describes (ms.filter (fun m' => ¬m.parts <+: m'.parts) ++ [m]) (t.place m.parts m.data) :=
  ⟨h.place_file m, h.place_dir m⟩

theorem describes_treeOf (ms : List Mapping) : Describes (standing ms) (treeOf ms) := by
  induction ms using List.reverseRecOn with
  | nil => exact .nil
  | append_singleton ms m ih =>
    rw [standing_append, treeOf, List.foldl_append]
    exact ih.place m

end Sypas.Mkfat
