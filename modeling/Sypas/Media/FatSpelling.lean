import Sypas.Media.FatSlots

/-!
# The spelling of a destination

Directory entries carry 8.3 names, in which several components can be the same. The first entry
that has the name of a component is that of the first mapping which leads through the directory
with such a component, so which path is found for a destination depends on the mappings before it.

## Main definitions

- `Sypas.Mkfat.nextAfter` — the component of a destination behind a directory
- `Sypas.Mkfat.spell` — the path that 8.3 names lead to
- `Sypas.Mkfat.dataFor` — the bytes that the mappings put at a path

## Main results

- `Sypas.Mkfat.find?_namesAt` — the children of a directory come in the order of the mappings
- `Sypas.Mkfat.Built.isDirectory_iff`, `Sypas.Mkfat.Built.dataFor_eq_some_iff`,
  `Sypas.Mkfat.Built.firstNamed_eq` — the builder's tree under the mappings' terms
-/

namespace Sypas.Mkfat

variable {host : Host} {sizeMib : ℤ} {mappings : List Str} {v : Volume}

/-! ## What the mappings say about a path -/

/-- The component behind `q` in a path that goes on from there. -/
def nextAfter : List Str → List Str → Option Str
  | [], parts => parts.head?
  | _ :: _, [] => none
  | e :: q, d :: parts => if e = d then nextAfter q parts else none

/-- Mappings go on from `q`. -/
def IsDirectory (ms : List Mapping) (q : List Str) : Prop :=
  q = [] ∨ ∃ m ∈ ms, q <+: m.parts ∧ q ≠ m.parts

instance (ms : List Mapping) (q : List Str) : Decidable (IsDirectory ms q) :=
  inferInstanceAs (Decidable (_ ∨ ∃ m ∈ ms, _))

/-- The bytes of the last mapping for a path. -/
def dataFor (ms : List Mapping) (q : List Str) : Option Bytes :=
  (ms.reverse.find? fun m => m.parts = q).map Mapping.data

/-- The first component behind `q` that has the 8.3 name `key`. -/
def firstNamed (host : Host) (ms : List Mapping) (q : List Str) (key : Bytes) : Option Str :=
  (ms.filterMap fun m => nextAfter q m.parts).find? fun d => (name83 host d).toOption = some key

/-- Where the name `key` leads to from the directory `q`. Below the root, `.` and `..` lead to the
    directory itself and to the one that holds it. -/
def spellNext (host : Host) (ms : List Mapping) (q : List Str) (key : Bytes) : Option (List Str) :=
  if q ≠ [] ∧ key = ascii ".          " then some q
  else if q ≠ [] ∧ key = ascii "..         " then some q.dropLast
  else (firstNamed host ms q key).map fun d => q ++ [d]

/-- The path that 8.3 names lead to from `q`. -/
def spell (host : Host) (ms : List Mapping) : List Str → List Bytes → Option (List Str)
  | q, [] => some q
  | q, key :: keys =>
    if IsDirectory ms q then (spellNext host ms q key).bind fun q' => spell host ms q' keys
    else none

/-- What holds a directory is one. -/
theorem IsDirectory.dropLast {ms : List Mapping} {q : List Str} (h : IsDirectory ms q) :
    IsDirectory ms q.dropLast := by
  obtain rfl | ⟨m, hm, hle, hne⟩ := h
  · exact .inl rfl
  · refine .inr ⟨m, hm, q.dropLast_prefix.trans hle, fun heq => hne ?_⟩
    exact hle.eq_of_length_le (heq ▸ q.dropLast_prefix.length_le)

theorem dataFor_cons (m : Mapping) (ms : List Mapping) (q : List Str) :
    dataFor (m :: ms) q = (dataFor ms q).or (if m.parts = q then some m.data else none) := by
  rw [dataFor, List.reverse_cons, List.find?_append, Option.map_or, ← dataFor, List.find?_singleton]
  by_cases hq : m.parts = q <;> simp [hq]

/-- Where no mapping lies below another, each path keeps the bytes of its last mapping. -/
theorem NoneBelow.dataFor_eq_some_iff {ms : List Mapping} (h : NoneBelow ms) {q : List Str}
    {data : Bytes} :
    dataFor ms q = some data ↔ ∃ m ∈ standing ms, m.parts = q ∧ m.data = data := by
  induction ms generalizing data with
  | nil => simp [dataFor, standing]
  | cons m ms ih =>
    have hlast {data : Bytes} : dataFor ms q = some data ↔ _ := ih (h.tail rfl)
    -- a mapping for `q` behind `m` replaces `m`, and only such a mapping does
    have hlater (hq : m.parts = q) : (∃ m' ∈ ms, m'.parts <+: m.parts) ↔ dataFor ms q ≠ none := by
      rw [Option.ne_none_iff_exists']
      constructor
      · rintro ⟨m', hm', hle⟩
        have hparts := h m' (List.mem_cons_of_mem _ hm') m List.mem_cons_self hle
        obtain ⟨f, hf, hfile⟩ := (h.tail rfl).exists_standing_parts hm'
        exact ⟨f.data, hlast.2 ⟨f, hf, hfile.trans (hparts.trans hq), rfl⟩⟩
      · rintro ⟨found, hfound⟩
        obtain ⟨f, hf, hfile, -⟩ := hlast.1 hfound
        exact ⟨f, mem_of_mem_standing hf, hfile.trans hq.symm ▸ List.prefix_refl _⟩
    rw [dataFor_cons, standing]
    by_cases hq : m.parts = q
    · have hiff := hlater hq
      cases hfound : dataFor ms q with
      | some found =>
        have hreplaced := hiff.2 (by rw [hfound]; exact Option.some_ne_none _)
        rw [if_pos hreplaced, ← hlast, hfound, Option.some_or]
      | none =>
        have hstands : ¬∃ m' ∈ ms, m'.parts <+: m.parts := fun hl => hiff.1 hl hfound
        have hnone (f : Mapping) (hf : f ∈ standing ms) : f.parts ≠ q := by
          intro hfile
          have hdata := hlast.2 ⟨f, hf, hfile, rfl⟩
          rw [hfound] at hdata
          cases hdata
        rw [if_neg hstands, if_pos hq, Option.none_or, Option.some_inj]
        constructor
        · exact fun hdata => ⟨m, List.mem_cons_self, hq, hdata⟩
        · rintro ⟨f, hf, hfile, hdata⟩
          obtain rfl | hf := List.mem_cons.1 hf
          · exact hdata
          · exact absurd hfile (hnone f hf)
    · rw [if_neg hq, Option.or_none, hlast]
      split
      · rfl
      · simp [hq]

/-- A path from which mappings go on has no bytes of its own. -/
theorem NoneBelow.dataFor_eq_none {ms : List Mapping} (h : NoneBelow ms) {q : List Str}
    (hq : IsDirectory ms q) : dataFor ms q = none := by
  cases hdata : dataFor ms q with
  | none => rfl
  | some data =>
    obtain ⟨f, hf, hfile, -⟩ := h.dataFor_eq_some_iff.1 hdata
    obtain rfl | ⟨m, hm, hle, hne⟩ := hq
    · exact absurd hfile f.named
    · exact absurd hfile (h.parts_ne hm (mem_of_mem_standing hf) hle hne)

/-! ## The order of children -/

/-- The names of the children of the node at a path, in their order. -/
def Children.namesAt : Children → List Str → List Str
  | t, [] => t.names
  | .nil, _ :: _ => []
  | .cons node children rest, d :: ds =>
    if node.name = d then children.namesAt ds else rest.namesAt (d :: ds)

/-- A name comes to the end of a dictionary if it is not there. -/
def addName (names : List Str) (d : Option Str) : List Str :=
  d.elim names fun d => if names.contains d then names else names ++ [d]

theorem addName_some (names : List Str) (d : Str) :
    addName names (some d) = if d ∈ names then names else names ++ [d] := by
  rw [addName, Option.elim_some]
  simp only [List.contains_iff_mem]

namespace Children

theorem namesAt_root (t : Children) : t.namesAt [] = t.names := by
  rw [namesAt]

theorem namesAt_nil (q : List Str) : nil.namesAt q = [] := by
  cases q <;> rfl

theorem namesAt_graft (parts : List Str) (data : Bytes) {q : List Str} (hq : ¬parts <+: q) :
    (graft parts data).namesAt q = (nextAfter q parts).toList := by
  induction parts generalizing q with
  | nil => exact absurd List.nil_prefix hq
  | cons d ds ih =>
    cases q with
    | nil => rw [namesAt_root, names_graft, nextAfter, List.head?_cons, Option.toList_some]
    | cons e es =>
      rw [graft, nextAfter]
      by_cases he : d = e
      · subst he
        have hds : ¬ds <+: es := fun hle => hq (List.cons_prefix_cons.2 ⟨rfl, hle⟩)
        have hne : ds ≠ [] := fun hnil => hds (hnil ▸ List.nil_prefix)
        rw [if_neg hne, if_pos rfl, namesAt, Node.new, if_pos rfl, ih hds]
      · have hskip (node : Node) (hnode : node.name = d) (children : Children) :
            (cons node children nil).namesAt (e :: es) = [] := by
          rw [namesAt, if_neg (hnode ▸ he), namesAt]
        rw [if_neg (Ne.symm he)]
        split
        · exact hskip _ rfl _
        · exact hskip _ rfl _

/-- A mapping adds the component behind a directory to its names. -/
theorem namesAt_place (t : Children) {parts : List Str} (data : Bytes) {q : List Str}
    (hq : ¬parts <+: q) :
    (t.place parts data).namesAt q = addName (t.namesAt q) (nextAfter q parts) := by
  induction t generalizing parts q with
  | nil =>
    rw [place, namesAt_graft parts data hq, namesAt_nil]
    cases nextAfter q parts <;> rfl
  | cons node children rest ihc ihr =>
    cases parts with
    | nil => exact absurd List.nil_prefix hq
    | cons d ds =>
      cases q with
      | nil =>
        rw [namesAt_root, namesAt_root, names_place, nextAfter, List.head?_cons, addName_some]
      | cons e es =>
        rw [place, nextAfter]
        by_cases he : e = d
        · subst he
          have hds : ¬ds <+: es := fun hle => hq (List.cons_prefix_cons.2 ⟨rfl, hle⟩)
          have hne : ds ≠ [] := fun hnil => hds (hnil ▸ List.nil_prefix)
          rw [if_pos rfl]
          by_cases hname : node.name = e
          · rw [if_pos hname, if_neg hne, namesAt, if_pos hname, namesAt, if_pos hname, ihc hds]
          · rw [if_neg hname, namesAt, if_neg hname, namesAt, if_neg hname, ihr hq, nextAfter,
              if_pos rfl]
        · rw [if_neg he, addName, Option.elim_none]
          by_cases hname : node.name = d
          · subst hname
            rw [if_pos rfl, namesAt, if_neg (Ne.symm he)]
            split
            · rw [namesAt, Node.new, if_neg (Ne.symm he)]
            · rw [namesAt, if_neg (Ne.symm he)]
          · rw [if_neg hname, namesAt, namesAt, ihr hq, nextAfter, if_neg he, addName,
              Option.elim_none]

theorem namesAt_assign (t : Children) (n : ℕ) (q : List Str) :
    (t.assign n).1.namesAt q = t.namesAt q := by
  induction t generalizing n q with
  | nil => rfl
  | cons node children rest ihc ihr =>
    cases q with
    | nil => rw [namesAt_root, namesAt_root, names_assign]
    | cons d ds =>
      cases hdata : node.data with
      | none => rw [assign_dir hdata, namesAt, namesAt, ihc, ihr]
      | some data => rw [assign_file hdata, namesAt, namesAt, ihr]

theorem namesAt_of_at? {t : Children} {q : List Str} {node : Node} {children : Children}
    (h : t.at? q = some (node, children)) : t.namesAt q = children.names := by
  induction t generalizing q with
  | nil => cases h
  | cons node' children' rest ihc ihr =>
    cases q with
    | nil => cases h
    | cons d ds =>
      rw [at?] at h
      rw [namesAt]
      by_cases hname : node'.name = d
      · rw [if_pos hname] at h ⊢
        by_cases hds : ds = []
        · rw [if_pos hds] at h
          cases h
          rw [hds, namesAt]
        · rw [if_neg hds] at h
          exact ihc h
      · rw [if_neg hname] at h ⊢
        exact ihr h

end Children

theorem find?_addName (names : List Str) (d : Option Str) (p : Str → Bool) :
    (addName names d).find? p = (names ++ d.toList).find? p := by
  cases d with
  | none => rw [addName, Option.elim_none, Option.toList_none, List.append_nil]
  | some d =>
    rw [addName_some]
    split
    · rename_i hin
      rw [List.find?_append]
      cases hfound : names.find? p with
      | some e => rfl
      | none =>
        have hd : p d = false := by simpa using List.find?_eq_none.1 hfound d hin
        simp [hd]
    · rfl

/-- In a directory of the tree, the names come in the order in which mappings first lead there. -/
theorem find?_namesAt {ms : List Mapping} {q : List Str} (h : ∀ m ∈ ms, ¬m.parts <+: q)
    (p : Str → Bool) :
    ((treeOf ms).namesAt q).find? p = (ms.filterMap fun m => nextAfter q m.parts).find? p := by
  induction ms using List.reverseRecOn with
  | nil =>
    rw [treeOf, List.foldl_nil, Children.namesAt_nil]
    rfl
  | append_singleton ms m ih =>
    obtain ⟨hbefore, hlast⟩ := List.forall_mem_append.1 h
    have hm := hlast m List.mem_cons_self
    have hnext : [m].filterMap (fun m => nextAfter q m.parts) = (nextAfter q m.parts).toList := by
      rw [List.filterMap_cons]
      cases nextAfter q m.parts <;> rfl
    rw [treeOf, List.foldl_append, List.foldl_cons, List.foldl_nil, ← treeOf,
      Children.namesAt_place _ _ hm, find?_addName, List.find?_append, ih hbefore,
      List.filterMap_append, List.find?_append, hnext]

/-! ## The builder's tree -/

section Built

variable (h : Built host sizeMib mappings v) (hbelow : NoneBelow (loaded host mappings))
  {q : List Str}

include h hbelow

/-- The directories of the tree are where mappings go on. -/
theorem Built.isDirectory_iff :
    IsDirectory (loaded host mappings) q ↔ q = [] ∨ v.tree.dataAt? q = some none := by
  rw [IsDirectory, h.describes.dir]
  constructor
  · rintro (hq | ⟨m, hm, hle, hne⟩)
    · exact .inl hq
    · obtain ⟨f, hf, hparts⟩ := hbelow.exists_standing_parts hm
      refine or_iff_not_imp_left.2 fun hq => ⟨hq, fun m' hm' => ?_, f, hf, hparts ▸ hle⟩
      exact hbelow.parts_ne hm (mem_of_mem_standing hm') hle hne
  · rintro (hq | ⟨-, hnot, m, hm, hle⟩)
    · exact .inl hq
    · exact .inr ⟨m, mem_of_mem_standing hm, hle, fun heq => hnot m hm heq.symm⟩

theorem Built.dataFor_eq_some_iff {data : Bytes} :
    dataFor (loaded host mappings) q = some data ↔ v.tree.dataAt? q = some (some data) :=
  hbelow.dataFor_eq_some_iff.trans (h.describes.file q data).symm

/-- The first child that has an 8.3 name is that of the first mapping with such a component. -/
theorem Built.firstNamed_eq (hq : IsDirectory (loaded host mappings) q) (key : Bytes) :
    firstNamed host (loaded host mappings) q key =
      (v.tree.namesAt q).find? fun d => (name83 host d).toOption = some key := by
  have hbehind : ∀ m ∈ loaded host mappings, ¬m.parts <+: q := by
    intro m hm hle
    obtain rfl | ⟨m', hm', hle', hne⟩ := hq
    · exact m.named (List.prefix_nil.1 hle)
    · exact hbelow.parts_ne hm' hm hle' hne (hle.eq_of_length_le
        (hbelow m hm m' hm' (hle.trans hle') ▸ hle'.length_le))
  rw [firstNamed, ← find?_namesAt hbehind, h.tree, Children.namesAt_assign]

end Built

end Sypas.Mkfat
