import Sypas.Media.FatSpelling

/-!
# Looking destinations up in the volume

A path is looked up component by component, taking at each level the first directory entry that has
the 8.3 name of the component. What is found for a destination is what the mappings put at the path
that its names spell, provided that no mapping lies below another.

## Main definitions

- `Sypas.Mkfat.lookup` — the file that a path of 8.3 names leads to
- `Sypas.Mkfat.Kept` — every mapping is found under its destination
- `Sypas.Mkfat.Spelled` — the mappings are such that this is so

## Main results

- `Sypas.Mkfat.Built.resolve_eq` — looking names up is spelling them
- `Sypas.Mkfat.build_kept_iff` — when no mapping is lost
-/

namespace Sypas.Mkfat

open ValidateMedia (Fat16 Files u16 u32 byteAt openVolume chainBytes directoryEntries setAll
  mem_keys_setAll)

variable {host : Host} {sizeMib : ℤ} {mappings : List Str} {v : Volume}

/-! ## Looking names up -/

/-- The first entry of a directory that has the name `key`. -/
def findEntry (key : Bytes) : List Bytes → Option Bytes
  | [] => none
  | ent :: ents =>
    if ent.length < 32 ∨ byteAt ent 0 = 0x00 then none
    else if ent.slice 0 11 = key then some ent
    else findEntry key ents

/-- The contents of the directory at a cluster, where `0` stands for the root. -/
def directoryAt (vol : Fat16) (cluster : ℕ) : Option Bytes :=
  if cluster = 0 then some (vol.image.slice vol.rootStart (vol.rootStart + vol.rootBytes))
  else (chainBytes vol cluster none).toOption

def entryAt (vol : Fat16) (cluster : ℕ) (key : Bytes) : Option Bytes :=
  (directoryAt vol cluster).bind fun directory => findEntry key (directoryEntries directory)

/-- The bytes of the file that names lead to from the directory at a cluster. -/
def resolve (vol : Fat16) : ℕ → List Bytes → Option Bytes
  | _, [] => none
  | cluster, key :: keys =>
    match entryAt vol cluster key with
    | none => none
    | some ent =>
      if byteAt ent 11 &&& 0x10 ≠ 0 then resolve vol (u16 ent 26) keys
      else if keys = [] then (chainBytes vol (u16 ent 26) (some (u32 ent 28))).toOption
      else none

/-- The bytes of the file that names lead to from the root. -/
def lookup (image : Bytes) (names : List Bytes) : Option Bytes :=
  (openVolume image).toOption.bind fun vol => resolve vol 0 names

/-- The destinations of the mappings, as they are written, with the bytes for them. -/
def destinations (host : Host) (mappings : List Str) : Files :=
  mappings.filterMap fun m =>
    match splitEquals m with
    | .error _ => none
    | .ok (src, dst) => (host.readFile src).map fun data => (dst, data)

/-- The destinations with the bytes of the last mapping for each. -/
def wanted (host : Host) (mappings : List Str) : Files := setAll [] (destinations host mappings)

/-- The 8.3 names of a destination. -/
def names83 (host : Host) (dst : Str) : Option (List Bytes) :=
  ((destParts dst).mapM (name83 host)).toOption

/-- Every mapping is found under its destination. -/
def Kept (host : Host) (mappings : List Str) (v : Volume) : Prop :=
  ∀ file ∈ wanted host mappings, (names83 host file.1).bind (lookup v.image) = some file.2

/-- The bytes that the mappings have at the path which names spell. -/
def spelledData (host : Host) (ms : List Mapping) (names : List Bytes) : Option Bytes :=
  (spell host ms [] names).bind (dataFor ms)

/-- No mapping lies below another, no name looks like the end of a directory, and every destination
    spells a path for which the mappings have the same bytes. -/
structure Spelled (host : Host) (mappings : List Str) : Prop where
  apart : NoneBelow (loaded host mappings)
  used : ∀ m ∈ loaded host mappings, ∀ d ∈ m.parts, ∀ name, name83 host d = .ok name →
    byteAt name 0 ≠ 0
  found : ∀ file ∈ wanted host mappings,
    (names83 host file.1).bind (spelledData host (loaded host mappings)) = some file.2

/-! ## Entries -/

section Entries

variable {key name ent : Bytes} {attr cluster size : ℕ}

theorem findEntry_cons (h : Slot ent name attr cluster size) (hname : byteAt name 0 ≠ 0)
    (ents : List Bytes) :
    findEntry key (ent :: ents) = if name = key then some ent else findEntry key ents := by
  have hused : ¬(ent.length < 32 ∨ byteAt ent 0 = 0x00) := by
    rw [h.length, h.byteAt_zero]
    exact not_or.2 ⟨by decide, hname⟩
  rw [findEntry, if_neg hused, h.name_eq]

theorem findEntry_zeros (k : ℕ) : findEntry key (directoryEntries (Bytes.zeros k)) = none := by
  cases hents : directoryEntries (Bytes.zeros k) with
  | nil => rfl
  | cons ent ents => rw [findEntry, if_pos (directoryEntries_zeros k hents)]

/-- A name that is found does not look like the end of a directory. -/
theorem findEntry_used {ents : List Bytes} (h : findEntry key ents = some ent) :
    byteAt key 0 ≠ 0 := by
  induction ents with
  | nil => cases h
  | cons ent' ents ih =>
    rw [findEntry] at h
    split at h
    · cases h
    rename_i hused
    split at h
    · rename_i hkey
      rw [← hkey, byteAt_eq_leValue, Bytes.slice_slice (by omega), Nat.zero_add, Nat.zero_add,
        ← byteAt_eq_leValue]
      exact (not_or.1 hused).2
    · exact ih h

theorem rel_imp {α β : Type*} {r r' : α → β → Prop} {a : Option α} {b : Option β}
    (h : Option.Rel r a b) (himp : ∀ x y, r x y → r' x y) : Option.Rel r' a b := by
  cases h with
  | some h => exact .some (himp _ _ h)
  | none => exact .none

/-- The first entry of a name is that of the first child which has it. -/
theorem findEntry_entries {t : Children} {b : Bytes} (hb : t.entries host = .ok b)
    (hused : ∀ d ∈ t.names, ∀ name, name83 host d = .ok name → byteAt name 0 ≠ 0) (key : Bytes)
    (k : ℕ) :
    Option.Rel (fun d ent => (name83 host d).toOption = some key ∧
        ∃ x, t.at? [d] = some x ∧ Slot ent key x.1.attr x.1.cluster x.1.size)
      (t.names.find? fun d => (name83 host d).toOption = some key)
      (findEntry key (directoryEntries (b ++ Bytes.zeros k))) := by
  induction t generalizing b with
  | nil =>
    cases hb
    rw [List.nil_append, findEntry_zeros]
    exact .none
  | cons node children rest _ ihr =>
    obtain ⟨entry, entries, hentry, hentries, rfl⟩ := Children.entries_cons_eq_ok_iff.1 hb
    obtain ⟨name, hname, hslot⟩ := nodeEntry_slot hentry
    have htest : (name83 host node.name).toOption = some name := by
      rw [hname]
      rfl
    have hself : (Children.cons node children rest).at? [node.name] = some (node, children) := by
      rw [Children.at?, if_pos rfl, if_pos rfl]
    rw [List.append_assoc, directoryEntries_append (length_nodeEntry hentry),
      findEntry_cons hslot (hused _ List.mem_cons_self _ hname), Children.names]
    -- the reader stops at the first name that fits, and so does `find?`
    by_cases hkey : name = key
    · subst hkey
      rw [if_pos rfl, List.find?_cons, decide_eq_true htest]
      exact .some ⟨htest, _, hself, hslot⟩
    · have hother : ¬(name83 host node.name).toOption = some key := by
        rw [htest]
        exact fun heq => hkey (Option.some.inj heq)
      rw [if_neg hkey, List.find?_cons, decide_eq_false hother]
      refine rel_imp (ihr hentries fun d hd => hused d (List.mem_cons_of_mem _ hd)) ?_
      rintro d ent ⟨hd, x, hx, hent⟩
      have hne : node.name ≠ d := fun heq => hother (heq ▸ hd)
      refine ⟨hd, x, ?_, hent⟩
      rw [Children.at?, if_neg hne, hx]

end Entries

/-! ## One step -/

/-- The entry belongs to the node at the path `q`, or leads to it. -/
inductive Volume.EntryFor (v : Volume) (q : List Str) (ent : Bytes) : Prop
  | directory (hdir : q = [] ∨ v.tree.dataAt? q = some none) (hattr : byteAt ent 11 &&& 0x10 ≠ 0)
    (hcluster : u16 ent 26 = v.clusterAt q)
  | file {data : Bytes} (hfile : v.tree.dataAt? q = some (some data))
    (hattr : byteAt ent 11 &&& 0x10 = 0)
    (hdata : chainBytes v.reader (u16 ent 26) (some (u32 ent 28)) = .ok data)

/-- The components of the nodes are those of mappings. -/
theorem Built.mem_parts (h : Built host sizeMib mappings v) {q : List Str} {d : Str}
    {x : Node × Children} (hx : v.tree.at? (q ++ [d]) = some x) :
    ∃ m ∈ loaded host mappings, d ∈ m.parts := by
  have hholds : v.Holds ⟨q ++ [d], x.1, x.2⟩ := hx
  obtain ⟨m, hm, hle⟩ := h.describes.exists_prefix hholds.dataAt?_eq
  exact ⟨m, mem_of_mem_standing hm, hle.subset (List.mem_append_right _ List.mem_cons_self)⟩

section Built

variable (h : Built host sizeMib mappings v) (hbelow : NoneBelow (loaded host mappings))

include h hbelow

/-- The entry of a node belongs to it. -/
theorem Built.entryFor {q : List Str} {x : Node × Children} (hx : v.tree.at? q = some x)
    {ent name : Bytes} (hslot : Slot ent name x.1.attr x.1.cluster x.1.size) :
    v.EntryFor q ent := by
  have hholds : v.Holds ⟨q, x.1, x.2⟩ := hx
  have hmem := (h.mem_walk_iff_holds hbelow).2 hholds
  have hat := hholds.dataAt?_eq
  dsimp only at hat
  cases hdata : x.1.data with
  | none =>
    refine .directory (.inr (hat.trans (congrArg some hdata))) ?_ ?_
    · rw [hslot.attr_eq, Node.attr, if_pos hdata]
      decide
    · rw [hslot.cluster_eq, Volume.clusterAt, hx]
  | some data =>
    refine .file (hat.trans (congrArg some hdata)) ?_ ?_
    · rw [hslot.attr_eq, Node.attr, if_neg (by rw [hdata]; exact Option.some_ne_none _)]
      decide
    · rw [hslot.cluster_eq, hslot.size_eq, Node.size, hdata]
      exact h.chainBytes_file hmem hdata

variable (hused : ∀ m ∈ loaded host mappings, ∀ d ∈ m.parts, ∀ name, name83 host d = .ok name →
  byteAt name 0 ≠ 0)

include hused

/-- Among the entries of the children of a directory, a name leads to the first mapping's component
    that has it. -/
theorem Built.findEntry_children {q : List Str} (hq : IsDirectory (loaded host mappings) q)
    {t : Children} (hnames : t.names = v.tree.namesAt q)
    (hat : ∀ d, v.tree.at? (q ++ [d]) = t.at? [d]) {b : Bytes} (hb : t.entries host = .ok b)
    (key : Bytes) (k : ℕ) :
    Option.Rel v.EntryFor ((firstNamed host (loaded host mappings) q key).map fun d => q ++ [d])
      (findEntry key (directoryEntries (b ++ Bytes.zeros k))) := by
  have hnamed : ∀ d ∈ t.names, ∀ name, name83 host d = .ok name → byteAt name 0 ≠ 0 := by
    intro d hd
    obtain ⟨x, hx⟩ := Children.exists_at?_of_mem_names hd
    obtain ⟨m, hm, hin⟩ := h.mem_parts ((hat d).trans hx)
    exact hused m hm d hin
  have hfound := findEntry_entries hb hnamed key k
  rw [hnames, ← h.firstNamed_eq hbelow hq] at hfound
  generalize firstNamed host (loaded host mappings) q key = d at hfound ⊢
  generalize findEntry key (directoryEntries (b ++ Bytes.zeros k)) = ent at hfound ⊢
  cases hfound with
  | none => exact .none
  | some hent =>
    obtain ⟨-, x, hx, hslot⟩ := hent
    exact .some (h.entryFor hbelow ((hat _).trans hx) hslot)

/-- In a directory, a name leads where the mappings spell it. -/
theorem Built.entryAt_rel {q : List Str} (hq : IsDirectory (loaded host mappings) q) (key : Bytes) :
    Option.Rel v.EntryFor (spellNext host (loaded host mappings) q key)
      (entryAt v.reader (v.clusterAt q) key) := by
  obtain rfl | hdir := (h.isDirectory_iff hbelow).1 hq
  · -- the root has no `.` and no `..`
    obtain ⟨entries, k, hentries, hroot⟩ := h.root_slice
    have hcluster : v.clusterAt [] = 0 := by rw [Volume.clusterAt, Children.at?_root]
    have hdirectory : directoryAt v.reader 0 = some (entries ++ Bytes.zeros k) :=
      congrArg some hroot
    rw [spellNext, if_neg (fun hne => hne.1 rfl), if_neg (fun hne => hne.1 rfl), entryAt, hcluster,
      hdirectory]
    exact h.findEntry_children hbelow hused hq (Children.namesAt_root _).symm (fun d => rfl)
      hentries key k
  · obtain ⟨⟨node, children⟩, hx, hdata⟩ := Option.map_eq_some_iff.1 hdir
    have hmem : ⟨q, node, children⟩ ∈ v.tree.walk [] := (h.mem_walk_iff_holds hbelow).2 hx
    have hne : q ≠ [] := by
      rintro rfl
      rw [Children.at?_root] at hx
      cases hx
    obtain ⟨bytes, k, hdirectory, hchain⟩ := h.chainBytes_directory hmem hdata
    obtain ⟨dot, dotdot, entries, hdot, hdotdot, hentries, rfl⟩ := directory_eq_ok_iff.1 hdirectory
    have hslot := dirent_slot (by decide) hdot
    have hslot' := dirent_slot (by decide) hdotdot
    have hcluster : v.clusterAt q = node.cluster := by rw [Volume.clusterAt, hx]
    have hpos : node.cluster ≠ 0 := by
      have hneeded : (⟨q, node, children⟩ : Entry).needed ≠ 0 := by
        rw [Entry.needed_ne_zero, hdata]
        exact nofun
      have hlow := (h.run_bounds hmem hneeded).1
      dsimp only at hlow
      omega
    have hcontents : directoryAt v.reader node.cluster =
        some (dot ++ dotdot ++ entries ++ Bytes.zeros k) := by
      rw [directoryAt, if_neg hpos, hchain]
      rfl
    rw [entryAt, hcluster, hcontents, Option.bind_some, List.append_assoc, List.append_assoc,
      directoryEntries_append hslot.length, directoryEntries_append hslot'.length,
      findEntry_cons hslot (by decide), spellNext]
    -- `.` is the directory itself, `..` the one above; only then come the children
    by_cases hkey : key = ascii ".          "
    · rw [if_pos ⟨hne, hkey⟩, if_pos hkey.symm]
      refine .some (.directory (.inr hdir) ?_ (hslot.cluster_eq.trans hcluster.symm))
      rw [hslot.attr_eq]
      decide
    rw [if_neg (fun hand => hkey hand.2), if_neg (Ne.symm hkey), findEntry_cons hslot' (by decide)]
    by_cases hkey' : key = ascii "..         "
    · rw [if_pos ⟨hne, hkey'⟩, if_pos hkey'.symm]
      refine .some (.directory ?_ ?_ hslot'.cluster_eq)
      · exact (h.isDirectory_iff hbelow).1 hq.dropLast
      · rw [hslot'.attr_eq]
        decide
    rw [if_neg (fun hand => hkey' hand.2), if_neg (Ne.symm hkey')]
    exact h.findEntry_children hbelow hused hq (Children.namesAt_of_at? hx).symm
      (fun d => Children.at?_append hx (List.cons_ne_nil _ _)) hentries key k

/-- Looking names up leads to the bytes that the mappings have for the path which they spell. -/
theorem Built.resolve_eq {q : List Str} (hq : IsDirectory (loaded host mappings) q)
    (keys : List Bytes) :
    resolve v.reader (v.clusterAt q) keys =
      (spell host (loaded host mappings) q keys).bind (dataFor (loaded host mappings)) := by
  induction keys generalizing q with
  | nil =>
    rw [resolve, spell, Option.bind_some, hbelow.dataFor_eq_none hq]
  | cons key keys ih =>
    have hentry := h.entryAt_rel hbelow hused hq key
    rw [resolve, spell, if_pos hq]
    generalize spellNext host (loaded host mappings) q key = q' at hentry ⊢
    generalize entryAt v.reader (v.clusterAt q) key = ent at hentry ⊢
    cases hentry with
    | none => rfl
    | @some q' ent hentry =>
      dsimp only [Option.bind_some]
      cases hentry with
      | directory hdir hattr hcluster =>
        rw [if_pos hattr, hcluster, ih ((h.isDirectory_iff hbelow).2 hdir)]
      | @file data hfile hattr hdata =>
        have hbytes := (h.dataFor_eq_some_iff hbelow).2 hfile
        have hnot : ¬IsDirectory (loaded host mappings) q' := by
          intro hdir
          rw [hbelow.dataFor_eq_none hdir] at hbytes
          cases hbytes
        rw [if_neg (not_not.2 hattr)]
        cases keys with
        | nil =>
          rw [if_pos rfl, hdata, spell, Option.bind_some, hbytes]
          rfl
        | cons key' keys => rw [if_neg (List.cons_ne_nil _ _), spell, if_neg hnot, Option.bind_none]

theorem Built.lookup_eq (keys : List Bytes) :
    lookup v.image keys = spelledData host (loaded host mappings) keys := by
  have hroot : v.clusterAt [] = 0 := by rw [Volume.clusterAt, Children.at?_root]
  rw [lookup, h.openVolume_eq, spelledData, ← h.resolve_eq hbelow hused (.inl rfl), hroot]
  rfl

end Built

/-! ## What a successful search shows -/

/-- No name that is found looks like the end of a directory. -/
theorem resolve_used {vol : Fat16} {cluster : ℕ} {keys : List Bytes} {data : Bytes}
    (h : resolve vol cluster keys = some data) : ∀ key ∈ keys, byteAt key 0 ≠ 0 := by
  induction keys generalizing cluster with
  | nil => exact fun key hkey => nomatch hkey
  | cons key keys ih =>
    rw [resolve] at h
    split at h
    · cases h
    rename_i ent hentry
    obtain ⟨directory, -, hfind⟩ := Option.bind_eq_some_iff.1 hentry
    intro key' hkey'
    obtain rfl | hkey' := List.mem_cons.1 hkey'
    · exact findEntry_used hfind
    split at h
    · exact ih h key' hkey'
    · split at h
      · rename_i hlast
        rw [hlast] at hkey'
        cases hkey'
      · cases h

/-- Nothing is found below a file. -/
theorem resolve_append {vol : Fat16} {cluster : ℕ} {keys keys' : List Bytes} {data data' : Bytes}
    (h : resolve vol cluster keys = some data)
    (h' : resolve vol cluster (keys ++ keys') = some data') : keys' = [] := by
  induction keys generalizing cluster with
  | nil => cases h
  | cons key keys ih =>
    rw [List.cons_append, resolve] at h'
    rw [resolve] at h
    cases hentry : entryAt vol cluster key with
    | none =>
      rw [hentry] at h
      cases h
    | some ent =>
      rw [hentry] at h h'
      dsimp only at h h'
      by_cases hattr : byteAt ent 11 &&& 0x10 ≠ 0
      · rw [if_pos hattr] at h h'
        exact ih h h'
      · rw [if_neg hattr] at h h'
        split at h'
        · rename_i hlast
          exact (List.append_eq_nil_iff.1 hlast).2
        · cases h'

/-! ## When no mapping is lost -/

theorem names83_eq_some_iff {dst : Str} {keys : List Bytes} :
    names83 host dst = some keys ↔
      List.Forall₂ (fun d key => name83 host d = .ok key) (destParts dst) keys := by
  rw [← Prog.mapM_eq_ok_iff, names83]
  cases (destParts dst).mapM (name83 host) with
  | error e => exact ⟨fun h => (nomatch h), fun h => (nomatch h)⟩
  | ok keys' =>
    exact ⟨fun h => congrArg _ (Option.some.inj h), fun h => congrArg _ (Except.ok.inj h)⟩

/-- Every mapping has its destination among those that are asked for. -/
theorem exists_wanted {m : Mapping} (hm : m ∈ loaded host mappings) :
    ∃ file ∈ wanted host mappings, destParts file.1 = m.parts := by
  obtain ⟨s, hs, hload⟩ := List.mem_filterMap.1 hm
  have hok : loadMapping host s = .ok m := by
    cases hs : loadMapping host s with
    | error e =>
      rw [hs] at hload
      cases hload
    | ok m' =>
      rw [hs] at hload
      exact congrArg _ (Option.some.inj hload)
  obtain ⟨⟨src, dst⟩, hsplit, hload⟩ := Prog.bind_eq_ok_iff.1 hok
  dsimp only at hload
  split at hload
  · cases hload
  rename_i data hread
  split at hload
  · cases hload
  obtain rfl := Except.ok.inj hload
  have hdest : (dst, data) ∈ destinations host mappings := by
    refine List.mem_filterMap.2 ⟨s, hs, ?_⟩
    rw [hsplit]
    dsimp only
    rw [hread, Option.map_some]
  have hkey : dst ∈ (wanted host mappings).map Prod.fst :=
    mem_keys_setAll.2 (.inr (List.mem_map_of_mem hdest))
  obtain ⟨file, hfile, rfl⟩ := List.mem_map.1 hkey
  exact ⟨file, hfile, rfl⟩

section Built

variable (h : Built host sizeMib mappings v)

include h

/-- Where every mapping is kept, its destination has 8.3 names that lead to its bytes. -/
theorem Built.exists_resolve (hkept : Kept host mappings v) {m : Mapping}
    (hm : m ∈ loaded host mappings) :
    ∃ keys data, List.Forall₂ (fun d key => name83 host d = .ok key) m.parts keys ∧
      resolve v.reader 0 keys = some data := by
  obtain ⟨file, hfile, hparts⟩ := exists_wanted hm
  obtain ⟨keys, hkeys, hlookup⟩ := Option.bind_eq_some_iff.1 (hkept file hfile)
  rw [lookup, h.openVolume_eq] at hlookup
  exact ⟨keys, file.2, hparts ▸ names83_eq_some_iff.1 hkeys, hlookup⟩

theorem Built.apart_of_kept (hkept : Kept host mappings v) : NoneBelow (loaded host mappings) := by
  intro m hm m' hm' hle
  obtain ⟨rest, hrest⟩ := hle
  obtain ⟨keys, data, hkeys, hfound⟩ := h.exists_resolve hkept hm
  obtain ⟨keys', data', hkeys', hfound'⟩ := h.exists_resolve hkept hm'
  rw [← hrest] at hkeys'
  -- the names of the longer destination begin with those of the shorter one
  have hunique : Relator.RightUnique fun d key => name83 host d = .ok key :=
    fun d key key' hkey hkey' => Except.ok.inj (hkey.symm.trans hkey')
  have hhead := (List.forall₂_take_append _ _ _ hkeys'.flip).flip
  have htail := (List.forall₂_drop_append _ _ _ hkeys'.flip).flip
  have hsame := List.right_unique_forall₂' hunique hhead hkeys
  rw [← List.take_append_drop m.parts.length keys', hsame] at hfound'
  have hnil := resolve_append hfound hfound'
  rw [hnil, List.forall₂_nil_right_iff] at htail
  rw [← hrest, htail, List.append_nil]

theorem Built.kept_iff : Kept host mappings v ↔ Spelled host mappings := by
  constructor
  · intro hkept
    have hapart := h.apart_of_kept hkept
    have hused : ∀ m ∈ loaded host mappings, ∀ d ∈ m.parts, ∀ name, name83 host d = .ok name →
        byteAt name 0 ≠ 0 := by
      intro m hm d hd name hname
      obtain ⟨keys, data, hkeys, hfound⟩ := h.exists_resolve hkept hm
      obtain ⟨key, hkey, hnamed⟩ := hkeys.exists_right hd
      rw [Except.ok.inj (hname.symm.trans hnamed)]
      exact resolve_used hfound key hkey
    refine ⟨hapart, hused, fun file hfile => ?_⟩
    have hfound := hkept file hfile
    rwa [funext (h.lookup_eq hapart hused)] at hfound
  · intro hspelled file hfile
    rw [funext (h.lookup_eq hspelled.apart hspelled.used)]
    exact hspelled.found file hfile

end Built

/-- No mapping of a volume is lost if and only if none lies below another, no 8.3 name begins with a
    zero byte, and each destination spells a path for which the mappings have the same bytes. -/
theorem build_kept_iff (hbuild : build host sizeMib mappings = .ok v) :
    Kept host mappings v ↔ Spelled host mappings :=
  (build_eq_ok_iff.1 hbuild).kept_iff

theorem bootFile_kept :
    ∃ v, build sampleHost 3 ["a=/EFI/BOOT/X64.EFI".toList, "a=/b".toList, "a=/b".toList] = .ok v ∧
      Kept sampleHost ["a=/EFI/BOOT/X64.EFI".toList, "a=/b".toList, "a=/b".toList] v := by
  obtain ⟨v, hv⟩ := sample_build ["a=/EFI/BOOT/X64.EFI".toList, "a=/b".toList, "a=/b".toList]
    (by decide) (by decide) (by decide +kernel)
  have hused : ∀ m ∈ loaded sampleHost ["a=/EFI/BOOT/X64.EFI".toList, "a=/b".toList,
      "a=/b".toList], ∀ d ∈ m.parts, (name83 sampleHost d).toOption.all fun name =>
        decide (byteAt name 0 ≠ 0) := by decide +kernel
  refine ⟨v, hv, (build_kept_iff hv).2
    ⟨by decide, fun m hm d hd name hname => ?_, by decide +kernel⟩⟩
  have hname' := hused m hm d hd
  rw [hname] at hname'
  exact of_decide_eq_true hname'

/-- A mapping below another mapping's file is lost. -/
theorem hiddenFile_not_kept :
    ∃ v, build sampleHost 3 ["a=/a".toList, "a=/a/b".toList] = .ok v ∧
      ¬Kept sampleHost ["a=/a".toList, "a=/a/b".toList] v := by
  obtain ⟨v, hv⟩ := sample_build ["a=/a".toList, "a=/a/b".toList]
    (by decide) (by decide) (by decide +kernel)
  refine ⟨v, hv, fun hkept => ?_⟩
  have hapart := (build_eq_ok_iff.1 hv).apart_of_kept hkept
  exact absurd hapart (by decide)

/-- So is one in a directory that differs from an earlier one in case only. -/
example : ¬Spelled sampleHost ["a=/d/x".toList, "a=/D/y".toList] := by
  intro hspelled
  exact absurd hspelled.found (by decide +kernel)

end Sypas.Mkfat
