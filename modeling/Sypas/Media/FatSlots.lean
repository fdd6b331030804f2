import Sypas.Media.FatReadBack

/-!
# Directories as lists of entries

A directory of the builder's volume is a list of 32-byte entries with zeros behind it. This file
says what the reader finds in an entry that the builder has packed, and how it cuts a directory
into entries.

## Main definitions

- `Sypas.Mkfat.Slot` — the fields of an entry

## Main results

- `Sypas.Mkfat.dirent_slot`, `Sypas.Mkfat.nodeEntry_slot` — the fields of a packed entry
- `Sypas.Mkfat.directoryEntries_append` — a directory is cut where its entries end
-/

namespace Sypas.Mkfat

open ValidateMedia (u16 u32 byteAt directoryEntries)

variable {host : Host}

/-! ## Names -/

theorem encodeAscii_eq_ok_iff {s : Str} {b : Bytes} :
    encodeAscii s = .ok b ↔ (∀ c ∈ s, c.toNat < 128) ∧ b = s.map fun c => UInt8.ofNat c.toNat := by
  unfold encodeAscii
  split
  · rename_i hall
    simp only [List.all_eq_true, decide_eq_true_eq] at hall
    exact ⟨fun h => ⟨hall, (Except.ok.inj h).symm⟩, fun h => congrArg _ h.2.symm⟩
  · rename_i hall
    simp only [List.all_eq_true, decide_eq_true_eq] at hall
    exact ⟨fun h => (nomatch h), fun h => absurd h.1 hall⟩

/-- The bytes of a padded part of a name. -/
def padded (s : Str) (n : ℕ) : Bytes := (ljust s n).map fun c => UInt8.ofNat c.toNat

theorem length_padded {s : Str} {n : ℕ} (h : s.length ≤ n) : (padded s n).length = n := by
  rw [padded, List.length_map, ljust, List.length_append, List.length_replicate]
  omega

theorem name83_eq_ok_iff {name : Str} {b : Bytes} :
    name83 host name = .ok b ↔
      (baseExt (host.upper name)).1.length ≤ 8 ∧ (baseExt (host.upper name)).2.length ≤ 3 ∧
      (∀ c ∈ (baseExt (host.upper name)).1, c.toNat < 128) ∧
      (∀ c ∈ (baseExt (host.upper name)).2, c.toNat < 128) ∧
      b = padded (baseExt (host.upper name)).1 8 ++ padded (baseExt (host.upper name)).2 3 := by
  unfold name83
  generalize baseExt (host.upper name) = parts
  obtain ⟨base, ext⟩ := parts
  have hpad (s : Str) (n : ℕ) : (∀ c ∈ ljust s n, c.toNat < 128) ↔ ∀ c ∈ s, c.toNat < 128 := by
    rw [ljust, List.forall_mem_append]
    refine and_iff_left fun c hc => ?_
    rw [List.eq_of_mem_replicate hc]
    decide
  dsimp only
  split
  · rename_i hlong
    refine ⟨fun h => (nomatch h), fun h => ?_⟩
    omega
  · rename_i hshort
    simp only [Prog.bind_eq_ok_iff, encodeAscii_eq_ok_iff, hpad]
    constructor
    · rintro ⟨_, ⟨hbase, rfl⟩, _, ⟨hext, rfl⟩, h⟩
      exact ⟨by omega, by omega, hbase, hext, (Except.ok.inj h).symm⟩
    · rintro ⟨-, -, hbase, hext, rfl⟩
      exact ⟨_, ⟨hbase, rfl⟩, _, ⟨hext, rfl⟩, rfl⟩

theorem length_name83 {name : Str} {b : Bytes} (h : name83 host name = .ok b) : b.length = 11 := by
  obtain ⟨hbase, hext, -, -, rfl⟩ := name83_eq_ok_iff.1 h
  rw [List.length_append, length_padded hbase, length_padded hext]

theorem padded_lt {s : Str} {n : ℕ} (h : ∀ c ∈ s, c.toNat < 128) :
    ∀ x ∈ padded s n, x.toNat < 128 := by
  intro x hx
  obtain ⟨c, hc, rfl⟩ := List.mem_map.1 hx
  have hlt : c.toNat < 128 := by
    obtain hc | hc := List.mem_append.1 hc
    · exact h c hc
    · rw [List.eq_of_mem_replicate hc]
      decide
  rw [UInt8.toNat_ofNat']
  omega

/-! ## Entries -/

/-- The fields of a directory entry. -/
structure Slot (b name : Bytes) (attr cluster size : ℕ) : Prop where
  length : b.length = 32
  name_eq : b.slice 0 11 = name
  attr_eq : byteAt b 11 = attr
  cluster_eq : u16 b 26 = cluster
  size_eq : u32 b 28 = size

/-- The first byte of an entry is that of its name. -/
theorem Slot.byteAt_zero {b name : Bytes} {attr cluster size : ℕ}
    (h : Slot b name attr cluster size) : byteAt b 0 = byteAt name 0 := by
  rw [byteAt_eq_leValue, byteAt_eq_leValue, ← h.name_eq, Bytes.slice_slice (by omega)]

/-- The widths of the fields of an entry. -/
def direntWidths : List ℕ := [11, 1, 1, 1, 2, 2, 2, 2, 2, 2, 2, 4]

/-- A packed entry has the fields that it was packed from. -/
theorem dirent_slot {name83b b : Bytes} (hname : name83b.length = 11) {attr cluster size : ℕ}
    (h : dirent host name83b attr cluster size = .ok b) : Slot b name83b attr cluster size := by
  obtain ⟨hfits, rfl⟩ := pack_eq_ok_iff.1 h
  have hwidths : (direntFields host name83b attr cluster size).map PackField.width =
      direntWidths := rfl
  have hfield {k i j : ℕ} {f : PackField}
      (hf : (direntFields host name83b attr cluster size)[k]? = some f)
      (hi : i = (direntWidths.take k).sum)
      (hj : j = i + f.width) :
      (PackField.record (direntFields host name83b attr cluster size)).slice i j = f.bytes := by
    rw [← hwidths, ← List.map_take] at hi
    exact (PackField.slice_record_getElem? hf hi hj).1
  have hnum {k i n x : ℕ}
      (hf : (direntFields host name83b attr cluster size)[k]? = some (.num n x))
      (hi : i = (direntWidths.take k).sum) :
      Bytes.leValue ((PackField.record (direntFields host name83b attr cluster size)).slice i
        (i + n)) = x := by
    have hslice := hfield hf hi rfl
    rw [PackField.width, PackField.bytes] at hslice
    rw [hslice]
    exact Bytes.leValue_leBytes (hfits _ (List.mem_of_getElem? hf))
  exact {
    length := length_dirent h
    name_eq := by
      have hslice : (PackField.record (direntFields host name83b attr cluster size)).slice 0 11 =
          (PackField.text 11 name83b).bytes := hfield (k := 0) rfl (by decide) rfl
      rw [hslice, PackField.bytes, List.take_of_length_le hname.le, hname]
      exact List.append_nil _
    attr_eq := (byteAt_eq_leValue _ _).trans (hnum (k := 1) (n := 1) rfl (by decide))
    cluster_eq := hnum (k := 10) (n := 2) rfl (by decide)
    size_eq := hnum (k := 11) (n := 4) rfl (by decide) }

/-- The attributes of a node's entry. -/
def Node.attr (node : Node) : ℕ := if node.data = none then attrDir else attrArchive

/-- The size that a node's entry records. -/
def Node.size (node : Node) : ℕ :=
  match node.data with
  | none => 0
  | some data => data.length

theorem nodeEntry_slot {node : Node} {b : Bytes} (h : nodeEntry host node = .ok b) :
    ∃ name, name83 host node.name = .ok name ∧
      Slot b name node.attr node.cluster node.size := by
  obtain ⟨name, hname, hentry⟩ := Prog.bind_eq_ok_iff.1 h
  exact ⟨name, hname, dirent_slot (length_name83 hname) hentry⟩

/-! ## Directories -/

theorem directoryEntries_append {b : Bytes} (hb : b.length = 32) (rest : Bytes) :
    directoryEntries (b ++ rest) = b :: directoryEntries rest := by
  have hcount : ((b ++ rest).length + 31) / 32 = (rest.length + 31) / 32 + 1 := by
    rw [List.length_append]
    omega
  have hfirst : (b ++ rest).slice 0 32 = b := by
    rw [← hb]
    exact Bytes.slice_append_left b rest
  rw [directoryEntries, hcount, List.range_succ_eq_map, List.map_cons, List.map_map, Nat.zero_mul,
    hfirst, directoryEntries]
  congr 1
  refine List.map_congr_left fun i _ => ?_
  have hshift : (b ++ rest).slice (b.length + i * 32) (b.length + (i * 32 + 32)) =
      rest.slice (i * 32) (i * 32 + 32) := Bytes.slice_append_right _ _ _ _
  rw [hb] at hshift
  rw [← hshift, Function.comp_apply]
  congr 1 <;> omega

/-- Behind the entries of a directory there is none that is in use. -/
theorem directoryEntries_zeros (k : ℕ) {ent : Bytes} {ents : List Bytes}
    (h : directoryEntries (Bytes.zeros k) = ent :: ents) :
    ent.length < 32 ∨ byteAt ent 0 = 0 := by
  have hmem : ent ∈ directoryEntries (Bytes.zeros k) := h ▸ List.mem_cons_self
  obtain ⟨i, -, rfl⟩ := List.mem_map.1 hmem
  refine .inr ?_
  have hzero : ∀ x ∈ (Bytes.zeros k).slice (i * 32) (i * 32 + 32), x = 0 := by
    intro x hx
    exact List.eq_of_mem_replicate (List.mem_of_mem_take (List.mem_of_mem_drop hx))
  rw [byteAt, List.getD_eq_getElem?_getD]
  cases hget : ((Bytes.zeros k).slice (i * 32) (i * 32 + 32))[0]? with
  | none => rfl
  | some x =>
    rw [hzero x (List.mem_of_getElem? hget)]
    rfl

end Sypas.Mkfat
