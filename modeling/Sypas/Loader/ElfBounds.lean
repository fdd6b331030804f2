import Sypas.Loader.ElfAccept

/-!
# What `elf_plan_load` looks at

The validator reads only inside the file, however long that is and whatever it
contains, and fills only segment slots that exist. Its verdict on an accepted file is
settled by the bytes up to the end of its headers and segment data: it accepts every
longer prefix with the same plan, and none that is shorter.

## Main definitions

- `Sypas.segsWritten` — the slots of `plan->segs` that a call fills
- `Sypas.neededBytes` — the end of the headers and segment data

## Main results

- `Sypas.elfSegsWritten_cases` — they are those of the plan, and perhaps one that is dropped
- `Sypas.elfPlanLoad_inside` — every access is inside the file
- `Sypas.elfPlanLoad_truncation` — which prefixes are accepted, and with which plan
-/

namespace Sypas

open Ram

/-! ## Reads -/

/-- The table that a valid header announces is inside the file. -/
theorem planPhdrs_confined (fsize : UInt64) (pht n i : ℕ) (plan : ElfLoadPlan) {S : Set ℕ}
    (h : ∀ a, pht + 56 * i ≤ a → a < pht + 56 * (i + n) → a ∈ S) :
    Confined S (planPhdrs fsize pht n i plan) := by
  induction n generalizing i plan with
  | zero => exact .pure S _
  | succ n ih =>
    refine .bind (.readWith fun a hlo hhi => h a hlo (by omega)) fun ph => ?_
    cases planPhdr fsize ph plan with
    | error st => exact .pure S _
    | ok plan' => exact ih (i + 1) plan' fun a hlo hhi => h a (by omega) (by omega)

theorem elfPlanLoad_confined (file : ℕ) (fsize : UInt64) (plan : ElfLoadPlan) :
    Confined {a | file ≤ a ∧ a < file + fsize.toNat} (elfPlanLoad file fsize plan) := by
  have h64 : sizeofElf64Ehdr.toNat = 64 := rfl
  unfold elfPlanLoad
  refine .ite (fun _ => .pure _ _) fun hsize => ?_
  rw [UInt64.lt_iff_toNat_lt, h64] at hsize
  refine .bind (.readWith fun a hlo hhi => ⟨hlo, by omega⟩) fun eh => ?_
  cases hcheck : checkEhdr eh fsize with
  | some st => exact .pure _ _
  | none =>
    have htable := ((checkEhdr_eq_none_iff eh fsize).1 hcheck).table
    refine .bind (planPhdrs_confined _ _ _ _ _ fun a hlo hhi => ⟨by omega, by omega⟩) fun r => ?_
    exact .ite (fun _ => .pure _ _) fun _ => .pure _ _

theorem planPhdrs_accesses (fsize : UInt64) (pht n i : ℕ) (plan : ElfLoadPlan) :
    AtMost n (planPhdrs fsize pht n i plan) := by
  induction n generalizing i plan with
  | zero => exact .pure 0 _
  | succ n ih =>
    refine .mono (.bind (.readWith _ _ _) fun ph => ?_) (Nat.add_comm 1 n).le
    cases planPhdr fsize ph plan with
    | error st => exact .pure n _
    | ok plan' => exact ih (i + 1) plan'

/-- One read of the header, and one of each program header. -/
theorem elfPlanLoad_accesses (file : ℕ) (fsize : UInt64) (plan : ElfLoadPlan) :
    AtMost 65536 (elfPlanLoad file fsize plan) := by
  unfold elfPlanLoad
  refine .ite (fun _ => .pure _ _) fun _ => ?_
  refine .mono (.bind (n := 65535) (.readWith _ _ _) fun eh => ?_) (by decide)
  cases checkEhdr eh fsize with
  | some st => exact .pure _ _
  | none =>
    have hnum := eh.ePhnum.toNat_lt
    refine .mono (.bind (n := 0) (planPhdrs_accesses _ _ _ _ _) fun r => ?_) (by omega)
    exact .ite (fun _ => .pure _ _) fun _ => .pure _ _

theorem planPhdrs_mem (fsize : UInt64) (pht n i : ℕ) (plan : ElfLoadPlan) (s : Ram) :
    (planPhdrs fsize pht n i plan s).2.mem = s.mem := by
  induction n generalizing i plan s with
  | zero => rfl
  | succ n ih =>
    rw [planPhdrs]
    simp only [Prog.bind_run, readWith_run]
    cases planPhdr fsize (Elf64Phdr.at s.mem (pht + 56 * i)) plan with
    | error st => rfl
    | ok plan' => exact ih (i + 1) plan' _

theorem elfPlanLoad_mem (file : ℕ) (fsize : UInt64) (plan : ElfLoadPlan) (s : Ram) :
    (elfPlanLoad file fsize plan s).2.mem = s.mem := by
  unfold elfPlanLoad
  split
  · rfl
  simp only [Prog.bind_run, readWith_run]
  cases checkEhdr (Elf64Ehdr.at s.mem file) fsize with
  | some st => rfl
  | none =>
    simp only [Prog.bind_run, Prog.ite_run, Prog.pure_run, apply_ite Prod.snd, ite_self,
      planPhdrs_mem]

/-! ## Segment slots -/

/-- The slots of `plan->segs` that one round fills: the next one, before the overlap test
    decides whether it is kept. -/
def phdrSegsWritten (fsize : UInt64) (ph : Elf64Phdr) (plan : ElfLoadPlan) : List ℕ :=
  if ph.pType ≠ ptLoad then []
  else match checkLoad ph with
    | some _ => []
    | none =>
      if ph.pMemsz = 0 then []
      else if plan.segs.length = elfMaxSegments then []
      else match planSegment fsize ph with
        | .error _ => []
        | .ok _ => [plan.segs.length]

/-- The slots that the loop fills, over a list of headers. -/
def segsWritten (fsize : UInt64) : List Elf64Phdr → ElfLoadPlan → List ℕ
  | [], _ => []
  | ph :: rest, plan =>
    phdrSegsWritten fsize ph plan ++
      match planPhdr fsize ph plan with
      | .error _ => []
      | .ok plan => segsWritten fsize rest plan

/-- A round that goes on has filled the slots that it keeps. One that returns has filled none, or
    the next one, which exists, and has then found an overlap. -/
theorem phdrSegsWritten_cases (fsize : UInt64) (ph : Elf64Phdr) (plan : ElfLoadPlan) :
    (∃ plan', planPhdr fsize ph plan = .ok plan' ∧
      List.range plan.segs.length ++ phdrSegsWritten fsize ph plan =
        List.range plan'.segs.length) ∨
    (∃ st, planPhdr fsize ph plan = .error st ∧ phdrSegsWritten fsize ph plan = []) ∨
    planPhdr fsize ph plan = .error .errSegOverlap ∧
      phdrSegsWritten fsize ph plan = [plan.segs.length] ∧
      plan.segs.length < elfMaxSegments := by
  unfold planPhdr phdrSegsWritten
  by_cases hload : ph.pType ≠ ptLoad
  · rw [if_pos hload, if_pos hload]
    exact .inl ⟨plan, rfl, List.append_nil _⟩
  rw [if_neg hload, if_neg hload]
  cases checkLoad ph with
  | some st => exact .inr (.inl ⟨st, rfl, rfl⟩)
  | none =>
    by_cases hmem : ph.pMemsz = 0
    · simp only [if_pos hmem]
      exact .inl ⟨plan, rfl, List.append_nil _⟩
    simp only [if_neg hmem]
    by_cases hfull : plan.segs.length = elfMaxSegments
    · simp only [dif_pos hfull, if_pos hfull]
      exact .inr (.inl ⟨_, rfl, trivial⟩)
    simp only [dif_neg hfull, if_neg hfull]
    cases planSegment fsize ph with
    | error st => exact .inr (.inl ⟨st, rfl, rfl⟩)
    | ok seg =>
      by_cases hover : plan.segs.any (segOverlap seg) = true
      · simp only [if_pos hover]
        exact .inr (.inr ⟨trivial, trivial, lt_of_le_of_ne plan.nsegs_le hfull⟩)
      · simp only [if_neg hover]
        refine .inl ⟨_, rfl, ?_⟩
        rw [ElfLoadPlan.push_segs, List.length_append, List.length_singleton, List.range_succ]

theorem segsWritten_cases (fsize : UInt64) (phs : List Elf64Phdr) (plan : ElfLoadPlan) :
    List.range plan.segs.length ++ segsWritten fsize phs plan =
      List.range (planAll fsize phs plan).2.segs.length ∨
    (planAll fsize phs plan).1 = .errSegOverlap ∧
      List.range plan.segs.length ++ segsWritten fsize phs plan =
        List.range ((planAll fsize phs plan).2.segs.length + 1) ∧
      (planAll fsize phs plan).2.segs.length < elfMaxSegments := by
  induction phs generalizing plan with
  | nil => exact .inl (List.append_nil _)
  | cons ph rest ih =>
    rw [segsWritten, planAll]
    obtain ⟨plan', hround, hslots⟩ | ⟨st, hround, hslots⟩ | ⟨hround, hslots, hfree⟩ :=
      phdrSegsWritten_cases fsize ph plan
    · rw [hround, ← List.append_assoc, hslots]
      exact ih plan'
    · rw [hround, hslots]
      exact .inl (List.append_nil _)
    · rw [hround, hslots]
      exact .inr ⟨rfl, List.range_succ.symm, hfree⟩

theorem finishPlan_segs (eEntry : UInt64) (plan : ElfLoadPlan) :
    (finishPlan eEntry plan).2.segs = plan.segs := by
  unfold finishPlan
  split
  · rfl
  split <;> rfl

/-- The slots that a call fills: none, unless the header passes its checks. -/
def elfSegsWritten (file : ℕ) (fsize : UInt64) (plan : ElfLoadPlan) (mem : ℕ → UInt8) : List ℕ :=
  if fsize < sizeofElf64Ehdr then []
  else match checkEhdr (Elf64Ehdr.at mem file) fsize with
    | some _ => []
    | none =>
      segsWritten fsize (phdrsAt mem (file + (Elf64Ehdr.at mem file).ePhoff.toNat)
        (Elf64Ehdr.at mem file).ePhnum.toNat) plan.reset

/-- The slots are filled in order: those of the plan that is returned, and one more where that
    segment turned out to overlap another. -/
theorem elfSegsWritten_cases (file : ℕ) (fsize : UInt64) (plan : ElfLoadPlan) (s : Ram) :
    elfSegsWritten file fsize plan s.mem =
      List.range (elfPlanLoad file fsize plan s).1.2.segs.length ∨
    (elfPlanLoad file fsize plan s).1.1 = .errSegOverlap ∧
      elfSegsWritten file fsize plan s.mem =
        List.range ((elfPlanLoad file fsize plan s).1.2.segs.length + 1) ∧
      (elfPlanLoad file fsize plan s).1.2.segs.length < elfMaxSegments := by
  rw [elfPlanLoad_run]
  unfold elfSegsWritten planFile
  by_cases hsize : fsize < sizeofElf64Ehdr
  · rw [if_pos hsize, if_pos hsize]
    exact .inl rfl
  rw [if_neg hsize, if_neg hsize]
  cases checkEhdr (Elf64Ehdr.at s.mem file) fsize with
  | some st => exact .inl rfl
  | none =>
    dsimp only
    have hslots := segsWritten_cases fsize (phdrsAt s.mem (file +
      (Elf64Ehdr.at s.mem file).ePhoff.toNat) (Elf64Ehdr.at s.mem file).ePhnum.toNat) plan.reset
    generalize planAll fsize _ plan.reset = r at hslots ⊢
    change segsWritten _ _ _ = _ ∨ r.1 = _ ∧ segsWritten _ _ _ = _ ∧ _ at hslots
    by_cases hok : r.1 = .ok
    · rw [if_pos hok, finishPlan_segs]
      refine .inl (hslots.resolve_right fun h => ?_)
      rw [hok] at h
      exact nomatch h.1
    · rw [if_neg hok]
      exact hslots

theorem elfSegsWritten_lt (file : ℕ) (fsize : UInt64) (plan : ElfLoadPlan) (mem : ℕ → UInt8) :
    ∀ i ∈ elfSegsWritten file fsize plan mem, i < elfMaxSegments := by
  intro i hi
  have hle := (elfPlanLoad file fsize plan ⟨mem, []⟩).1.2.nsegs_le
  obtain hslots | ⟨-, hslots, hfree⟩ := elfSegsWritten_cases file fsize plan ⟨mem, []⟩
  · rw [hslots, List.mem_range] at hi
    exact hi.trans_le hle
  · rw [hslots, List.mem_range] at hi
    omega

/-- The validator reads only inside the file, whatever it contains: it writes none of it, fills
    only slots of `plan->segs` that exist, and returns a status after at most one read of the
    header and one of each program header. -/
theorem elfPlanLoad_inside (file : ℕ) (fsize : UInt64) (plan : ElfLoadPlan) (mem : ℕ → UInt8) :
    (∀ acc ∈ (elfPlanLoad file fsize plan ⟨mem, []⟩).2.log,
      acc.Inside {a | file ≤ a ∧ a < file + fsize.toNat}) ∧
    (elfPlanLoad file fsize plan ⟨mem, []⟩).2.mem = mem ∧
    (∀ i ∈ elfSegsWritten file fsize plan mem, i < 16) ∧
    (elfPlanLoad file fsize plan ⟨mem, []⟩).2.log.length ≤ 65536 ∧
    ∃ st plan', (elfPlanLoad file fsize plan ⟨mem, []⟩).1 = (st, plan') := by
  refine ⟨(elfPlanLoad_confined file fsize plan).log_inside mem, elfPlanLoad_mem _ _ _ _,
    elfSegsWritten_lt file fsize plan mem, ?_, _, _, rfl⟩
  have hlen := elfPlanLoad_accesses file fsize plan ⟨mem, []⟩
  rwa [List.length_nil, Nat.zero_add] at hlen

/-! ## Prefixes -/

/-- Where the headers and the segment data of a file end. -/
def neededBytes (eh : Elf64Ehdr) (phs : List Elf64Phdr) : ℕ :=
  max 64 (max (eh.ePhoff.toNat + 56 * eh.ePhnum.toNat)
    (((segmentHeaders phs).map fun ph => ph.pOffset.toNat + ph.pFilesz.toNat).foldr max 0))

theorem foldr_max_le_iff {l : List ℕ} {n : ℕ} : l.foldr max 0 ≤ n ↔ ∀ x ∈ l, x ≤ n := by
  induction l with
  | nil => simp
  | cons x l ih => rw [List.foldr_cons, max_le_iff, ih, List.forall_mem_cons]

theorem neededBytes_le_iff {eh : Elf64Ehdr} {phs : List Elf64Phdr} {n : ℕ} :
    neededBytes eh phs ≤ n ↔ 64 ≤ n ∧ eh.ePhoff.toNat + 56 * eh.ePhnum.toNat ≤ n ∧
      ∀ ph ∈ segmentHeaders phs, ph.pOffset.toNat + ph.pFilesz.toNat ≤ n := by
  rw [neededBytes, max_le_iff, max_le_iff, foldr_max_le_iff, List.forall_mem_map]

/-- The size of the file enters the format only through what it has to contain. -/
theorem SypasV1.resize {eh : Elf64Ehdr} {phs : List Elf64Phdr} {fsize : UInt64}
    (h : SypasV1 eh phs fsize) (k : UInt64) :
    SypasV1 eh phs k ↔ neededBytes eh phs ≤ k.toNat := by
  rw [neededBytes_le_iff]
  constructor
  · exact fun hk => ⟨hk.size, hk.header.table, fun ph hph => (hk.range ph hph).file⟩
  · rintro ⟨hsize, htable, hdata⟩
    exact { h with
      size := hsize
      header := { h.header with table := htable }
      range := fun ph hph => ⟨hdata ph hph, (h.range ph hph).memory⟩ }

/-- A plan is settled by the headers it lists and its entry point. -/
theorem ElfLoadPlan.Lists.unique {plan plan' : ElfLoadPlan} {phs : List Elf64Phdr}
    (h : plan.Lists phs) (h' : plan'.Lists phs) (hentry : plan.entry = plan'.entry) :
    plan = plan' := by
  have hsegs : plan.segs = plan'.segs := h.segs.trans h'.segs.symm
  have hspan : plan.physBase = plan'.physBase ∧ plan.physEnd = plan'.physEnd := by
    by_cases hnil : plan.segs = []
    · have hempty := h.empty hnil
      have hempty' := h'.empty (hsegs ▸ hnil)
      exact ⟨hempty.1.trans hempty'.1.symm, hempty.2.trans hempty'.2.symm⟩
    · -- each span reaches as far as some segment, and the other covers that segment
      have hnil' : plan'.segs ≠ [] := hsegs ▸ hnil
      obtain ⟨b, hb, hbase⟩ := h.base_mem hnil
      obtain ⟨b', hb', hbase'⟩ := h'.base_mem hnil'
      obtain ⟨e, he, hend⟩ := h.end_mem hnil
      obtain ⟨e', he', hend'⟩ := h'.end_mem hnil'
      constructor
      · apply UInt64.le_antisymm
        · exact hbase' ▸ h.base_le b' (hsegs ▸ hb')
        · exact hbase ▸ h'.base_le b (hsegs ▸ hb)
      · apply UInt64.le_antisymm
        · exact hend ▸ h'.le_end e (hsegs ▸ he)
        · exact hend' ▸ h.le_end e' (hsegs ▸ he')
  obtain ⟨entry, physBase, physEnd, segs, _⟩ := plan
  obtain ⟨entry', physBase', physEnd', segs', _⟩ := plan'
  dsimp only at hentry hsegs hspan
  obtain ⟨rfl, rfl⟩ := hspan
  subst hentry hsegs
  rfl

section Agree

variable {mem mem' : ℕ → UInt8} {a : ℕ}

theorem u16At_congr (h : ∀ b, a ≤ b → b < a + 2 → mem b = mem' b) : u16At mem a = u16At mem' a := by
  rw [u16At, u16At, leNat_congr h]

theorem u32At_congr (h : ∀ b, a ≤ b → b < a + 4 → mem b = mem' b) : u32At mem a = u32At mem' a := by
  rw [u32At, u32At, leNat_congr h]

theorem u64At_congr (h : ∀ b, a ≤ b → b < a + 8 → mem b = mem' b) : u64At mem a = u64At mem' a := by
  rw [u64At, u64At, leNat_congr h]

/-- A header is settled by its 64 bytes. -/
theorem Elf64Ehdr.at_congr (h : ∀ b, a ≤ b → b < a + 64 → mem b = mem' b) :
    Elf64Ehdr.at mem a = Elf64Ehdr.at mem' a := by
  have h16 (k : ℕ) (hk : k + 2 ≤ 64) : u16At mem (a + k) = u16At mem' (a + k) :=
    u16At_congr fun b hlo hhi => h b (by omega) (by omega)
  have h32 (k : ℕ) (hk : k + 4 ≤ 64) : u32At mem (a + k) = u32At mem' (a + k) :=
    u32At_congr fun b hlo hhi => h b (by omega) (by omega)
  have h64 (k : ℕ) (hk : k + 8 ≤ 64) : u64At mem (a + k) = u64At mem' (a + k) :=
    u64At_congr fun b hlo hhi => h b (by omega) (by omega)
  unfold Elf64Ehdr.at
  rw [u32At_congr fun b hlo hhi => h b hlo (by omega), h (a + 4) (by omega) (by omega),
    h (a + 5) (by omega) (by omega), h (a + 6) (by omega) (by omega), h16 16 (by decide),
    h16 18 (by decide), h32 20 (by decide), h64 24 (by decide), h64 32 (by decide),
    h16 52 (by decide), h16 54 (by decide), h16 56 (by decide)]

/-- A program header is settled by its 56 bytes. -/
theorem Elf64Phdr.at_congr (h : ∀ b, a ≤ b → b < a + 56 → mem b = mem' b) :
    Elf64Phdr.at mem a = Elf64Phdr.at mem' a := by
  have h64 (k : ℕ) (hk : k + 8 ≤ 56) : u64At mem (a + k) = u64At mem' (a + k) :=
    u64At_congr fun b hlo hhi => h b (by omega) (by omega)
  unfold Elf64Phdr.at
  rw [u32At_congr fun b hlo hhi => h b hlo (by omega),
    u32At_congr fun b hlo hhi => h b (by omega) (by omega), h64 8 (by decide), h64 16 (by decide),
    h64 24 (by decide), h64 32 (by decide), h64 40 (by decide), h64 48 (by decide)]

theorem phdrsAt_congr {n : ℕ} (h : ∀ b, a ≤ b → b < a + 56 * n → mem b = mem' b) :
    phdrsAt mem a n = phdrsAt mem' a n := by
  refine List.map_congr_left fun i hi => Elf64Phdr.at_congr fun b hlo hhi => h b (by omega) ?_
  have hlt := List.mem_range.1 hi
  omega

end Agree

/-- The truncation law: a file that agrees with an accepted one as far as both go is accepted
    exactly when it reaches the end of the headers and the segment data, and then with the
    same plan. This covers every prefix and every extension of the accepted file. -/
theorem elfPlanLoad_truncation (file : ℕ) (fsize : UInt64) (plan : ElfLoadPlan) (s : Ram)
    (hok : (elfPlanLoad file fsize plan s).1.1 = .ok) (k : UInt64) (plan' : ElfLoadPlan) (s' : Ram)
    (hagree : ∀ a, file ≤ a → a < file + min k.toNat fsize.toNat → s'.mem a = s.mem a) :
    let eh := Elf64Ehdr.at s.mem file
    let need := neededBytes eh (phdrsAt s.mem (file + eh.ePhoff.toNat) eh.ePhnum.toNat)
    need ≤ fsize.toNat ∧
    (need ≤ k.toNat → (elfPlanLoad file k plan' s').1 = (elfPlanLoad file fsize plan s).1) ∧
    (k.toNat < need → (elfPlanLoad file k plan' s').1.1 ≠ .ok) := by
  intro eh need
  set phs := phdrsAt s.mem (file + eh.ePhoff.toNat) eh.ePhnum.toNat with hphs
  rw [elfPlanLoad_run] at hok
  rw [elfPlanLoad_run, elfPlanLoad_run]
  obtain ⟨hiff, hplan⟩ := planFile_accepts eh phs fsize plan
  have hformat : SypasV1 eh phs fsize := hiff.1 hok
  have hneed : need ≤ fsize.toNat := (hformat.resize fsize).1 hformat
  obtain ⟨hneed64, hneedTable, -⟩ := neededBytes_le_iff.1 hneed
  -- as soon as the header is there, the two files have the same one
  have heh (hk : 64 ≤ k.toNat) : Elf64Ehdr.at s'.mem file = eh :=
    Elf64Ehdr.at_congr fun b hlo hhi => hagree b hlo (by omega)
  have htable (hk : eh.ePhoff.toNat + 56 * eh.ePhnum.toNat ≤ k.toNat) :
      phdrsAt s'.mem (file + eh.ePhoff.toNat) eh.ePhnum.toNat = phs :=
    phdrsAt_congr fun b hlo hhi => hagree b (by omega) (by omega)
  refine ⟨hneed, fun hk => ?_, fun hk hcon => ?_⟩
  · obtain ⟨hk64, hkTable, -⟩ := neededBytes_le_iff.1 hk
    rw [heh hk64, htable hkTable]
    obtain ⟨hiff', hplan'⟩ := planFile_accepts eh phs k plan'
    have hok' := hiff'.2 ((hformat.resize k).2 hk)
    obtain ⟨hlists, hentry⟩ := hplan hok
    obtain ⟨hlists', hentry'⟩ := hplan' hok'
    exact Prod.ext (hok'.trans hok.symm) (hlists'.unique hlists (hentry'.trans hentry.symm))
  · set eh' := Elf64Ehdr.at s'.mem file
    have hformat' := (planFile_accepts eh' _ k plan').1.1 hcon
    have heq : eh' = eh := heh hformat'.size
    rw [heq] at hformat'
    rw [htable hformat'.header.table] at hformat'
    exact absurd ((hformat.resize k).1 hformat') (not_le.2 hk)

/-- An ELF file with one segment of three pages, `[0x400000, 0x403000)`. -/
def threePageElf : Ram :=
  ⟨Ram.image [(0, 4, 0x464C457F), (4, 1, 2), (5, 1, 1), (6, 1, 1), (16, 2, 2), (18, 2, 62),
    (20, 4, 1), (24, 8, 0x400000), (32, 8, 64), (52, 2, 64), (54, 2, 56), (56, 2, 1),
    (64, 4, 1), (68, 4, 5), (72, 8, 0), (80, 8, 0x400000), (88, 8, 0x400000), (96, 8, 120),
    (104, 8, 0x3000), (112, 8, 0x1000)], []⟩

/-- Its 120 bytes are all needed. -/
theorem threePageElf_truncation : (elfPlanLoad 0 119 .empty threePageElf).1.1 ≠ .ok :=
  (elfPlanLoad_truncation 0 120 .empty threePageElf (by decide +kernel) 119 .empty threePageElf
    fun _ _ _ => rfl).2.2 (by decide +kernel)

end Sypas
