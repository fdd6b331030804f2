import Sypas.Media.FatSlots

/-!
# Reading back what was built

For destinations made of plain 8.3 names, the reader of the media test finds in the builder's
image exactly the mapped files, under their upper-case paths.

## Main definitions

- `Sypas.Mkfat.ValidName` — a plain 8.3 name
- `Sypas.Mkfat.destName` — the key under which the reader returns a destination
- `Sypas.Mkfat.Plain` — destinations that the reader tells apart

## Main results

- `Sypas.Mkfat.ValidName.named` — the reader undoes the builder's encoding of a name
- `Sypas.Mkfat.entriesLoop_children` — reading a directory is walking its part of the tree
- `Sypas.Mkfat.fat16Files_build` — the round trip
-/

namespace Sypas.Mkfat

open ValidateMedia

variable {host : Host} {sizeMib : ℤ} {mappings : List Str} {v : Volume}

/-! ## Names -/

/-- A letter, a digit, an underscore or a hyphen. -/
def NameChar (c : Char) : Prop := c.isAlphanum ∨ c = '_' ∨ c = '-'

instance : DecidablePred NameChar := fun _ => inferInstanceAs (Decidable (_ ∨ _))

/-- One to `n` of them. -/
def NamePart (n : ℕ) (s : Str) : Prop := s ≠ [] ∧ s.length ≤ n ∧ ∀ c ∈ s, NameChar c

instance (n : ℕ) : DecidablePred (NamePart n) := fun s =>
  decidable_of_iff (s ≠ [] ∧ s.length ≤ n ∧ s.all (NameChar ·) = true) (by simp [NamePart])

/-- A base of one to eight characters, and possibly a dot and one to three more. -/
def ValidName (s : Str) : Prop :=
  ∃ base, NamePart 8 base ∧ (s = base ∨ ∃ ext, NamePart 3 ext ∧ s = base ++ '.' :: ext)

theorem NameChar.lt {c : Char} (h : NameChar c) : c.toNat < 128 := by
  have hval : c.toNat = c.val.toNat := rfl
  obtain halnum | rfl | rfl := h
  · simp only [Char.isAlphanum, Char.isAlpha, Char.isUpper, Char.isLower, Char.isDigit,
      Bool.or_eq_true, Bool.and_eq_true, decide_eq_true_eq, ge_iff_le, UInt32.le_iff_toNat_le]
      at halnum
    have hZ : 'Z'.val.toNat = 90 := rfl
    have hz : 'z'.val.toNat = 122 := rfl
    have h9 : '9'.val.toNat = 57 := rfl
    omega
  · decide
  · decide

/-- What the upper case of a name's character is and is not. -/
theorem NameChar.toUpper {c : Char} (h : NameChar c) :
    c.toUpper.toNat < 128 ∧ 32 < c.toUpper.toNat ∧ c.toUpper ≠ '.' ∧ isSpace c.toUpper = false := by
  have hall : ∀ n : Fin 128, NameChar (Char.ofNat n) →
      (Char.ofNat n).toUpper.toNat < 128 ∧ 32 < (Char.ofNat n).toUpper.toNat ∧
      (Char.ofNat n).toUpper ≠ '.' ∧ isSpace (Char.ofNat n).toUpper = false := by
    decide +kernel
  have hc : Char.ofNat c.toNat = c := Char.ofNat_toNat c
  have hat := hall ⟨c.toNat, h.lt⟩
  dsimp only at hat
  rw [hc] at hat
  exact hat h

theorem upper_of_ascii {s : Str} (h : ∀ c ∈ s, c.toNat < 128) :
    host.upper s = s.map Char.toUpper := by
  rw [Host.upper, ← List.flatMap_pure_eq_map]
  exact List.flatMap_congr fun c hc => if_pos (h c hc)

/-- The base and the extension are cut at a dot that no other follows. -/
theorem rsplitDot_append {base ext : Str} (h : ∀ c ∈ ext, c ≠ '.') :
    rsplitDot (base ++ '.' :: ext) = (base, ext) := by
  have hreverse : (base ++ '.' :: ext).reverse = ext.reverse ++ '.' :: base.reverse := by simp
  have hall : ∀ c ∈ ext.reverse, (decide (c ≠ '.')) = true := by
    intro c hc
    exact decide_eq_true (h c (List.mem_reverse.1 hc))
  rw [rsplitDot, hreverse, List.takeWhile_append_of_pos hall, List.dropWhile_append_of_pos hall]
  simp

theorem rstrip_ljust {s : Str} (h : ∀ c ∈ s, isSpace c = false) (n : ℕ) :
    rstrip (ljust s n) = s := by
  have hspaces : ∀ c ∈ (List.replicate (n - s.length) ' ').reverse, isSpace c = true := by
    intro c hc
    rw [List.eq_of_mem_replicate (List.mem_reverse.1 hc)]
    rfl
  have hkept : s.reverse.dropWhile isSpace = s.reverse := by
    cases hs : s.reverse with
    | nil => rfl
    | cons c cs =>
      have hc := h c (List.mem_reverse.1 (hs ▸ List.mem_cons_self))
      rw [List.dropWhile_cons_of_neg (by rw [hc]; exact Bool.false_ne_true)]
  rw [rstrip, ljust, List.reverse_append, List.dropWhile_append_of_pos hspaces, hkept,
    List.reverse_reverse]

theorem decodeAscii_padded {s : Str} (h : ∀ c ∈ s, c.toNat < 128) (n : ℕ) :
    decodeAscii (padded s n) = .ok (ljust s n) := by
  have hall : ∀ c ∈ ljust s n, c.toNat < 128 := by
    rw [ljust, List.forall_mem_append]
    refine ⟨h, fun c hc => ?_⟩
    rw [List.eq_of_mem_replicate hc]
    decide
  have hascii : (padded s n).all (·.toNat < 128) = true := by
    rw [List.all_eq_true]
    exact fun x hx => decide_eq_true (padded_lt h x hx)
  rw [decodeAscii, if_pos hascii, padded, List.map_map]
  congr 1
  conv_rhs => rw [← List.map_id (ljust s n)]
  refine List.map_congr_left fun c hc => ?_
  have hlt := hall c hc
  have hbyte : (UInt8.ofNat c.toNat).toNat = c.toNat := by
    rw [UInt8.toNat_ofNat']
    omega
  rw [Function.comp_apply, hbyte, Char.ofNat_toNat, id]

/-- The name field of an entry that is in use, and the name that the reader decodes from it. -/
structure Named (name : Bytes) (s : List Char) : Prop where
  shortName_eq : shortName name = .ok s
  used : byteAt name 0 ≠ 0x00
  kept : byteAt name 0 ≠ 0xE5

theorem shortName_padded {base ext : Str} (hbase : base.length ≤ 8) (hext : ext.length ≤ 3)
    (hascii : ∀ c ∈ base, c.toNat < 128) (hascii' : ∀ c ∈ ext, c.toNat < 128)
    (hspace : ∀ c ∈ base, isSpace c = false) (hspace' : ∀ c ∈ ext, isSpace c = false) :
    shortName (padded base 8 ++ padded ext 3) =
      .ok (if ext ≠ [] then base ++ '.' :: ext else base) := by
  have hlen : (padded base 8).length = 8 := length_padded hbase
  have hlow := Bytes.slice_append_left (padded base 8) (padded ext 3)
  rw [hlen] at hlow
  have hhigh : (padded base 8 ++ padded ext 3).slice 8 11 = padded ext 3 := by
    have hshift := Bytes.slice_append_right (padded base 8) (padded ext 3) 0 3
    rw [hlen] at hshift
    refine hshift.trans ?_
    rw [Bytes.slice, List.drop_zero, List.take_of_length_le (length_padded hext).le]
  rw [shortName, hlow, hhigh, decodeAscii_padded hascii, decodeAscii_padded hascii']
  refine congrArg Except.ok ?_
  rw [rstrip_ljust hspace, rstrip_ljust hspace']

theorem upper_part {n : ℕ} {s : Str} (h : NamePart n s) :
    host.upper s = s.map Char.toUpper ∧ s.map Char.toUpper ≠ [] ∧
      ∀ c ∈ s.map Char.toUpper, c.toNat < 128 ∧ 32 < c.toNat ∧ c ≠ '.' ∧ isSpace c = false := by
  obtain ⟨hne, -, hchars⟩ := h
  refine ⟨upper_of_ascii fun c hc => (hchars c hc).lt, by simpa using hne, fun c hc => ?_⟩
  obtain ⟨d, hd, rfl⟩ := List.mem_map.1 hc
  exact (hchars d hd).toUpper

/-- The upper case of a valid name falls into the parts that it was made of. -/
theorem ValidName.baseExt {s : Str} (h : ValidName s) :
    ∃ base ext, baseExt (host.upper s) = (base, ext) ∧ base ≠ [] ∧
      host.upper s = (if ext ≠ [] then base ++ '.' :: ext else base) ∧
      ∀ c ∈ base ++ ext, c.toNat < 128 ∧ 32 < c.toNat ∧ c ≠ '.' ∧ isSpace c = false := by
  obtain ⟨base, hbase, hs⟩ := h
  obtain ⟨hupper, hne, hchars⟩ := @upper_part host _ _ hbase
  obtain rfl | ⟨ext, hext, rfl⟩ := hs
  · have hdot : '.' ∉ s.map Char.toUpper := fun hin => (hchars '.' hin).2.2.1 rfl
    refine ⟨s.map Char.toUpper, [], ?_, hne, hupper, by simpa using hchars⟩
    rw [Mkfat.baseExt, hupper, if_neg fun hin => hdot hin.1]
  · obtain ⟨hupper', hne', hchars'⟩ := @upper_part host _ _ hext
    have hwhole : host.upper (base ++ '.' :: ext) =
        base.map Char.toUpper ++ '.' :: ext.map Char.toUpper := by
      rw [Host.upper, List.flatMap_append, List.flatMap_cons, ← Host.upper, ← Host.upper, hupper,
        hupper']
      rfl
    have hhead : (base.map Char.toUpper ++ '.' :: ext.map Char.toUpper).head? ≠ some '.' := by
      obtain ⟨c, cs, hcs⟩ := List.exists_cons_of_ne_nil hne
      rw [hcs]
      intro heq
      have hc := hchars c (hcs ▸ List.mem_cons_self)
      exact hc.2.2.1 (Option.some.inj heq)
    refine ⟨base.map Char.toUpper, ext.map Char.toUpper, ?_, hne, ?_, ?_⟩
    · rw [Mkfat.baseExt, hwhole, if_pos ⟨by simp, hhead⟩]
      exact rsplitDot_append fun c hc => (hchars' c hc).2.2.1
    · rw [hwhole, if_pos hne']
    · rw [List.forall_mem_append]
      exact ⟨hchars, hchars'⟩

/-- The reader undoes the builder's encoding of a valid name. -/
theorem ValidName.named {s : Str} (h : ValidName s) {b : Bytes} (hb : name83 host s = .ok b) :
    Named b (host.upper s) ∧ host.upper s ≠ ['.'] ∧ host.upper s ≠ ['.', '.'] := by
  obtain ⟨base, ext, hparts, hne, hupper, hchars⟩ := @ValidName.baseExt host _ h
  obtain ⟨hbase, hext, hascii, hascii', rfl⟩ := name83_eq_ok_iff.1 hb
  rw [hparts] at hbase hext hascii hascii' ⊢
  dsimp only at hbase hext hascii hascii' ⊢
  rw [List.forall_mem_append] at hchars
  obtain ⟨hchars, hchars'⟩ := hchars
  obtain ⟨c, cs, rfl⟩ := List.exists_cons_of_ne_nil hne
  obtain ⟨hlt, hgt, hdot, -⟩ := hchars c List.mem_cons_self
  have hfirst : byteAt (padded (c :: cs) 8 ++ padded ext 3) 0 = c.toNat := by
    change (UInt8.ofNat c.toNat).toNat = c.toNat
    rw [UInt8.toNat_ofNat']
    omega
  have hhead : ∀ t : List Char, host.upper s ≠ '.' :: t := by
    intro t heq
    rw [hupper] at heq
    split at heq
    · exact hdot (List.cons.inj heq).1
    · exact hdot (List.cons.inj heq).1
  refine ⟨⟨?_, ?_, ?_⟩, hhead _, hhead _⟩
  · rw [shortName_padded hbase hext hascii hascii' (fun d hd => (hchars d hd).2.2.2)
      fun d hd => (hchars' d hd).2.2.2, hupper]
  · omega
  · omega

theorem named_dot : Named (ascii ".          ") ['.'] := by
  constructor <;> decide

theorem named_dotdot : Named (ascii "..         ") ['.', '.'] := by
  constructor <;> decide

/-! ## One entry -/

section Entries

variable {vol : Fat16} {descend : Bytes → List Char → Files → Except ReadError Files}
  {dir : List Char} {ent name : Bytes} {attr cluster size : ℕ} {s : List Char}

/-- An entry in use, whose attributes are those of a file or a directory, is decoded. -/
theorem entriesLoop_cons (h : Slot ent name attr cluster size) (hname : Named name s)
    (hattr : attr ≠ 0x0F) (ents : List Bytes) (files : Files) :
    entriesLoop vol descend dir (ent :: ents) files =
      if s = ['.'] ∨ s = ['.', '.'] then entriesLoop vol descend dir ents files
      else if attr &&& 0x10 ≠ 0 then
        chainBytes vol cluster none >>= fun directory =>
          descend directory (dir ++ '/' :: s) files >>= fun files =>
            entriesLoop vol descend dir ents files
      else
        chainBytes vol cluster (some size) >>= fun data =>
          entriesLoop vol descend dir ents (setItem files (dir ++ '/' :: s) data) := by
  have hused : ¬(ent.length < 32 ∨ byteAt ent 0 = 0x00) := by
    rw [h.length, h.byteAt_zero]
    exact not_or.2 ⟨by decide, hname.used⟩
  have hkept : ¬(byteAt ent 0 = 0xE5 ∨ byteAt ent 11 = 0x0F) := by
    rw [h.byteAt_zero, h.attr_eq]
    exact not_or.2 ⟨hname.kept, hattr⟩
  rw [entriesLoop, if_neg hused, if_neg hkept, h.name_eq, hname.shortName_eq, h.attr_eq,
    h.cluster_eq, h.size_eq]
  rfl

/-- The `.` and `..` entries are passed over. -/
theorem entriesLoop_dots (h : Slot ent name attrDir cluster size) (hname : Named name s)
    (hdots : s = ['.'] ∨ s = ['.', '.']) (ents : List Bytes) (files : Files) :
    entriesLoop vol descend dir (ent :: ents) files = entriesLoop vol descend dir ents files := by
  rw [entriesLoop_cons h hname (by decide), if_pos hdots]

/-- Behind the entries in use the loop stops. -/
theorem entriesLoop_zeros (k : ℕ) (files : Files) :
    entriesLoop vol descend dir (directoryEntries (Bytes.zeros k)) files = .ok files := by
  cases hents : directoryEntries (Bytes.zeros k) with
  | nil => rfl
  | cons ent ents => rw [entriesLoop, if_pos (directoryEntries_zeros k hents)]

end Entries

/-! ## Directories -/

/-- The key under which the reader returns a destination. -/
def destName (host : Host) (path : List Str) : List Char :=
  path.flatMap fun d => '/' :: host.upper d

theorem destName_concat (host : Host) (dir : List Str) (d : Str) :
    destName host (dir ++ [d]) = destName host dir ++ '/' :: host.upper d := by
  simp [destName]

/-- What the reader returns for a node, if it is a file. -/
def Entry.file? (host : Host) (e : Entry) : Option (List Char × Bytes) :=
  e.node.data.map fun data => (destName host e.path, data)

theorem setAll_append (files new new' : Files) :
    setAll files (new ++ new') = setAll (setAll files new) new' := by
  rw [setAll, List.foldl_append]
  rfl

/-- A directory is read as its children are: its `.` and `..` lead nowhere. -/
theorem readEntries_directory {cluster parentCluster : ℕ} {children : Children} {b : Bytes}
    (hb : directory host cluster parentCluster children = .ok b) (vol : Fat16) (limit k : ℕ)
    (dir : List Char) (files : Files) :
    ∃ entries, children.entries host = .ok entries ∧
      readEntries vol (limit + 1) (b ++ Bytes.zeros k) dir files =
        entriesLoop vol (readEntries vol limit) dir (directoryEntries (entries ++ Bytes.zeros k))
          files := by
  obtain ⟨dot, dotdot, entries, hdot, hdotdot, hentries, rfl⟩ := directory_eq_ok_iff.1 hb
  refine ⟨entries, hentries, ?_⟩
  rw [readEntries, List.append_assoc, List.append_assoc,
    directoryEntries_append (length_dirent hdot), directoryEntries_append (length_dirent hdotdot),
    entriesLoop_dots (dirent_slot (by decide) hdot) named_dot (.inl rfl),
    entriesLoop_dots (dirent_slot (by decide) hdotdot) named_dotdot (.inr rfl)]

/-- Reading the entries of a directory is walking its part of the tree. -/
theorem entriesLoop_children (h : Built host sizeMib mappings v) (t : Children) (dir : List Str)
    (limit : ℕ) (hwalk : ∀ e ∈ t.walk dir, e ∈ v.tree.walk [])
    (hnames : ∀ e ∈ t.walk dir, ValidName e.node.name)
    (hlimit : ∀ e ∈ t.walk dir, e.node.data = none → e.path.length ≤ dir.length + limit)
    {b : Bytes} (hb : t.entries host = .ok b) (k : ℕ) (files : Files) :
    entriesLoop v.reader (readEntries v.reader limit) (destName host dir)
        (directoryEntries (b ++ Bytes.zeros k)) files =
      .ok (setAll files ((t.walk dir).filterMap (Entry.file? host))) := by
  induction t generalizing dir limit b k files with
  | nil =>
    cases hb
    exact entriesLoop_zeros k files
  | cons node children rest ihc ihr =>
    obtain ⟨entry, entries, hentry, hentries, rfl⟩ := Children.entries_cons_eq_ok_iff.1 hb
    obtain ⟨name, hname, hslot⟩ := nodeEntry_slot hentry
    have hself : (⟨dir ++ [node.name], node, children⟩ : Entry) ∈
        (Children.cons node children rest).walk dir := List.mem_cons_self
    obtain ⟨hnamed, hdot, hdotdot⟩ := (hnames _ hself).named hname
    have hdots : ¬(host.upper node.name = ['.'] ∨ host.upper node.name = ['.', '.']) :=
      not_or.2 ⟨hdot, hdotdot⟩
    -- the later children
    have hrest (files' : Files) := ihr dir limit
      (fun e he => hwalk e (List.mem_cons_of_mem _ (List.mem_append_right _ he)))
      (fun e he => hnames e (List.mem_cons_of_mem _ (List.mem_append_right _ he)))
      (fun e he => hlimit e (List.mem_cons_of_mem _ (List.mem_append_right _ he)))
      hentries k files'
    rw [List.append_assoc, directoryEntries_append (length_nodeEntry hentry)]
    cases hdata : node.data with
    | none =>
      have hattr : node.attr = attrDir := if_pos hdata
      rw [hattr] at hslot
      obtain ⟨bytes, k', hdirectory, hchain⟩ := h.chainBytes_directory (hwalk _ hself) hdata
      have hdeep := hlimit _ hself hdata
      rw [List.length_append, List.length_singleton] at hdeep
      obtain ⟨l, rfl⟩ : ∃ l, limit = l + 1 := ⟨limit - 1, by omega⟩
      obtain ⟨below, hbelow, hread⟩ := readEntries_directory hdirectory v.reader l k'
        (destName host dir ++ '/' :: host.upper node.name) files
      -- the directory itself
      have hchildren := ihc (dir ++ [node.name]) l
        (fun e he => hwalk e (by
          rw [Children.walk_cons_dir hdata]
          exact List.mem_cons_of_mem _ (List.mem_append_left _ he)))
        (fun e he => hnames e (by
          rw [Children.walk_cons_dir hdata]
          exact List.mem_cons_of_mem _ (List.mem_append_left _ he)))
        (fun e he hdir => by
          have hle := hlimit e (by
            rw [Children.walk_cons_dir hdata]
            exact List.mem_cons_of_mem _ (List.mem_append_left _ he)) hdir
          rw [List.length_append, List.length_singleton]
          omega)
        hbelow k' files
      rw [← destName_concat, hchildren] at hread
      rw [entriesLoop_cons hslot hnamed (by decide), if_neg hdots, if_pos (by decide), hchain]
      change readEntries v.reader (l + 1) _ _ files >>= _ = _
      rw [← destName_concat, hread]
      change entriesLoop _ _ _ _ _ = _
      rw [hrest, Children.walk_cons_dir hdata, List.filterMap_cons_none, List.filterMap_append,
        setAll_append]
      rw [Entry.file?, hdata]
      rfl
    | some data =>
      have hattr : node.attr = attrArchive := if_neg (by rw [hdata]; exact Option.some_ne_none _)
      have hsize : node.size = data.length := by rw [Node.size, hdata]
      rw [hattr, hsize] at hslot
      have hchain := h.chainBytes_file (hwalk _ hself) hdata
      have hfile : Entry.file? host ⟨dir ++ [node.name], node, children⟩ =
          some (destName host dir ++ '/' :: host.upper node.name, data) := by
        rw [Entry.file?, hdata, ← destName_concat]
        rfl
      rw [entriesLoop_cons hslot hnamed (by decide), if_neg hdots, if_neg (by decide), hchain]
      change entriesLoop _ _ _ _ _ = _
      rw [hrest, Children.walk_cons_file hdata, List.filterMap_cons_some hfile]
      rfl

/-! ## The round trip -/

/-- The destinations are plain: their components are valid names, no two of them are equal up to
    case, and none lies below another. -/
structure Plain (host : Host) (ms : List Mapping) : Prop where
  valid : ∀ m ∈ ms, ∀ d ∈ m.parts, ValidName d
  distinct : (ms.map fun m => destName host m.parts).Nodup
  apart : NoneBelow ms

/-- None of them replaces another. -/
theorem Plain.standing_eq {ms : List Mapping} (h : Plain host ms) : standing ms = ms := by
  have hkept : ms.Pairwise fun m m' => ¬m'.parts <+: m.parts := by
    refine (List.pairwise_map.1 h.distinct).imp_of_mem fun {m m'} hm hm' hne hle => hne ?_
    rw [h.apart m' hm' m hm hle]
  clear h
  induction ms with
  | nil => rfl
  | cons m ms ih =>
    obtain ⟨hfirst, hrest⟩ := List.pairwise_cons.1 hkept
    have hnone : ¬∃ m' ∈ ms, m'.parts <+: m.parts := fun ⟨m', hm', hle⟩ => hfirst m' hm' hle
    rw [standing, if_neg hnone, ih hrest]

section Built

variable (h : Built host sizeMib mappings v) (hplain : Plain host (loaded host mappings))

include h hplain

theorem Built.plain_describes : Describes (loaded host mappings) v.tree :=
  hplain.standing_eq ▸ h.describes

/-- The walk visits a file for every mapping. -/
theorem Built.mem_walk_file {q : List Str} {data : Bytes} :
    (∃ e ∈ v.tree.walk [], e.path = q ∧ e.node.data = some data) ↔
      ∃ m ∈ loaded host mappings, m.parts = q ∧ m.data = data := by
  rw [← (h.plain_describes hplain).file]
  constructor
  · rintro ⟨e, he, rfl, hdata⟩
    rw [((h.mem_walk_iff_holds hplain.apart).1 he).dataAt?_eq, hdata]
  · intro hfile
    obtain ⟨⟨node, children⟩, hnode, hdata⟩ := Option.map_eq_some_iff.1 hfile
    exact ⟨⟨q, node, children⟩, (h.mem_walk_iff_holds hplain.apart).2 hnode, rfl, hdata⟩

/-- Every node of the walk lies on the way to a mapping, and a directory above it. -/
theorem Built.walk_prefix {e : Entry} (he : e ∈ v.tree.walk []) :
    ∃ m ∈ loaded host mappings, e.path <+: m.parts ∧
      (e.node.data = none → e.path.length < m.parts.length) := by
  have hdescribes := h.plain_describes hplain
  have hat := ((h.mem_walk_iff_holds hplain.apart).1 he).dataAt?_eq
  obtain ⟨m, hm, hle⟩ := hdescribes.exists_prefix hat
  refine ⟨m, hm, hle, fun hdir => lt_of_le_of_ne hle.length_le fun heq => ?_⟩
  rw [hdir] at hat
  exact ((hdescribes.dir e.path).1 hat).2.1 m hm (hle.eq_of_length heq).symm

/-- The files of the walk are those of the mappings. -/
theorem Built.files_perm :
    (((v.tree.walk []).filterMap (Entry.file? host)).map Prod.fst).Nodup ∧
      ((v.tree.walk []).filterMap (Entry.file? host)).Perm
        ((loaded host mappings).map fun m => (destName host m.parts, m.data)) := by
  have hdistinct : v.tree.Distinct := h.tree ▸ (Children.distinct_treeOf _).assign 2
  have hfile {e : Entry} {file : List Char × Bytes} (hf : e.file? host = some file) :
      e.node.data = some file.2 ∧ destName host e.path = file.1 := by
    obtain ⟨data, hdata, rfl⟩ := Option.map_eq_some_iff.1 hf
    exact ⟨hdata, rfl⟩
  have hkeys : (((v.tree.walk []).filterMap (Entry.file? host)).map Prod.fst).Nodup := by
    refine List.pairwise_map.2 (List.pairwise_filterMap.2 ?_)
    refine (List.pairwise_map.1 (hdistinct.nodup_walk [])).imp_of_mem ?_
    intro e e' he he' hne file hf file' hf' heq
    obtain ⟨hdata, hname⟩ := hfile hf
    obtain ⟨hdata', hname'⟩ := hfile hf'
    obtain ⟨m, hm, hparts, -⟩ := (h.mem_walk_file hplain).1 ⟨e, he, rfl, hdata⟩
    obtain ⟨m', hm', hparts', -⟩ := (h.mem_walk_file hplain).1 ⟨e', he', rfl, hdata'⟩
    rw [← hparts] at hname
    rw [← hparts'] at hname'
    have hsame := List.inj_on_of_nodup_map hplain.distinct hm hm'
      (hname.trans (heq.trans hname'.symm))
    exact hne (hparts.symm.trans ((congrArg Mapping.parts hsame).trans hparts'))
  refine ⟨hkeys, (List.perm_ext_iff_of_nodup hkeys.of_map (List.Nodup.of_map Prod.fst ?_)).2 ?_⟩
  · rw [List.map_map]
    exact hplain.distinct
  · intro file
    rw [List.mem_filterMap, List.mem_map]
    constructor
    · rintro ⟨e, he, hf⟩
      obtain ⟨hdata, hname⟩ := hfile hf
      obtain ⟨m, hm, hparts, hbytes⟩ := (h.mem_walk_file hplain).1 ⟨e, he, rfl, hdata⟩
      exact ⟨m, hm, by rw [hparts, hbytes, hname]⟩
    · rintro ⟨m, hm, rfl⟩
      obtain ⟨e, he, hpath, hdata⟩ := (h.mem_walk_file hplain).2 ⟨m, hm, rfl, rfl⟩
      exact ⟨e, he, by rw [Entry.file?, hdata, hpath]; rfl⟩

end Built

/-- The reader returns exactly the mapped files, each under its upper-case destination. -/
theorem fat16Files_build (hbuild : build host sizeMib mappings = .ok v)
    (hplain : Plain host (loaded host mappings)) :
    ∃ files, (∀ limit, 0 < limit → (∀ m ∈ loaded host mappings, m.parts.length ≤ limit) →
        fat16Files limit v.image = .ok files) ∧
      files.Perm ((loaded host mappings).map fun m => (destName host m.parts, m.data)) ∧
      (files.map Prod.fst).Nodup ∧ files.length = mappings.length := by
  have h := build_eq_ok_iff.1 hbuild
  obtain ⟨hkeys, hperm⟩ := h.files_perm hplain
  refine ⟨_, fun limit hpos hdeep => ?_, hperm, hkeys, ?_⟩
  · obtain ⟨entries, k, hentries, hroot⟩ := h.root_slice
    obtain ⟨l, rfl⟩ : ∃ l, limit = l + 1 := ⟨limit - 1, by omega⟩
    have hnames : ∀ e ∈ v.tree.walk [], ValidName e.node.name := by
      intro e he
      obtain ⟨m, hm, hle, -⟩ := h.walk_prefix hplain he
      exact hplain.valid m hm _ (hle.subset (Children.name_mem_path he))
    have hlimit : ∀ e ∈ v.tree.walk [], e.node.data = none →
        e.path.length ≤ ([] : List Str).length + l := by
      intro e he hdir
      obtain ⟨m, hm, -, hlt⟩ := h.walk_prefix hplain he
      have := hdeep m hm
      have := hlt hdir
      rw [List.length_nil]
      omega
    have hread := entriesLoop_children h v.tree [] l (fun _ he => he) hnames hlimit hentries k []
    refine Prog.bind_eq_ok_iff.2 ⟨v.reader, h.openVolume_eq, ?_⟩
    rw [hroot, readEntries]
    refine Eq.trans hread ?_
    rw [setAll_of_nodup (by rwa [List.nil_append]), List.nil_append]
  · rw [hperm.length_eq, List.length_map, h.count]

theorem bootFile_roundTrip :
    ∃ v files, build sampleHost 3 ["a=/Efi/boot/X64.EFI".toList, "a=/b".toList] = .ok v ∧
      fat16Files 3 v.image = .ok files ∧
      files.Perm [("/EFI/BOOT/X64.EFI".toList, [0x41]), ("/B".toList, [0x41])] := by
  obtain ⟨v, hv⟩ := sample_build ["a=/Efi/boot/X64.EFI".toList, "a=/b".toList]
    (by decide) (by decide) (by decide +kernel)
  have hloaded :
      (loaded sampleHost ["a=/Efi/boot/X64.EFI".toList, "a=/b".toList]).map Mapping.parts =
      [[['E', 'f', 'i'], ['b', 'o', 'o', 't'], ['X', '6', '4', '.', 'E', 'F', 'I']], [['b']]] := by
    decide
  have hvalid : ∀ parts ∈ (loaded sampleHost ["a=/Efi/boot/X64.EFI".toList, "a=/b".toList]).map
      Mapping.parts, ∀ d ∈ parts, ValidName d := by
    rw [hloaded]
    simp only [List.mem_cons, List.not_mem_nil, or_false, forall_eq_or_imp, forall_eq]
    exact ⟨⟨⟨['E', 'f', 'i'], by decide, .inl rfl⟩, ⟨['b', 'o', 'o', 't'], by decide, .inl rfl⟩,
      ⟨['X', '6', '4'], by decide, .inr ⟨['E', 'F', 'I'], by decide, rfl⟩⟩⟩,
      ⟨['b'], by decide, .inl rfl⟩⟩
  obtain ⟨files, hread, hperm, -, -⟩ := fat16Files_build hv
    ⟨fun m hm => hvalid _ (List.mem_map_of_mem hm), by decide, by decide⟩
  exact ⟨v, files, hv, hread 3 (by decide) (by decide), hperm⟩

end Sypas.Mkfat
