import Notebook.Hela.PcTaskProgress

/-!
# A clone is complete

When a pc task ends with success, every sector of the pc should lie in a part that was read and
written to all targets, or that the source has reported empty. The parts follow each other from the
first sector to the end that `Start` computes, so this depends on the two numbers alone. Both are
products in `uint64_t`, and `pc_ + 1` is a `uint32_t`: for the last pc number the end is zero, and
the task ends after its first part.
-/

open Interleaving

namespace Hela

/-! ### The numbers of `Start` -/

namespace PcJob

variable {job : PcJob}

/-- The number of sectors of the pc. -/
def sectors (job : PcJob) : ℕ := job.pcSize / defaultSectorSize

/-- The first sector of the pc can be computed. -/
def FirstFits (job : PcJob) : Prop := job.pc * job.pcSize < 2 ^ 64

/-- The end of the pc can be computed. -/
def EndFits (job : PcJob) : Prop :=
  job.pc + 1 < 2 ^ 32 ∧ (job.pc + 1) * job.pcSize < 2 ^ 64

/-- The parts that `Start` plans cover the pc: the first sector and the end can be computed, or the
first sector can and one part is the whole pc. -/
def PartsCover (job : PcJob) : Prop :=
  job.FirstFits ∧ (job.EndFits ∨ job.sectors ≤ job.sectorNum)

theorem mul_pcSize_div (hsector : 512 ∣ job.pcSize) (n : ℕ) :
    n * job.pcSize / 512 = n * job.sectors := Nat.mul_div_assoc n hsector

theorem firstSector_eq (hsector : 512 ∣ job.pcSize) (hfits : job.FirstFits) :
    job.firstSector = job.pc * job.sectors := by
  rw [firstSector, uint64_eq_self hfits, mul_pcSize_div hsector]

theorem endSector_eq (hsector : 512 ∣ job.pcSize) (hfits : job.EndFits) :
    job.endSector = (job.pc + 1) * job.sectors := by
  rw [endSector, uint32_eq_self hfits.1, uint64_eq_self hfits.2, mul_pcSize_div hsector]

theorem endSector_le_firstSector (hfirst : job.FirstFits) (hend : ¬job.EndFits) :
    job.endSector ≤ job.firstSector := by
  rw [FirstFits] at hfirst
  rw [firstSector, uint64_eq_self hfirst, endSector]
  refine Nat.div_le_div_right ?_
  by_cases hpc : job.pc + 1 < 2 ^ 32
  · -- the product is reduced once
    rw [uint32_eq_self hpc, uint64, add_mul, one_mul]
    have hover : 2 ^ 64 ≤ job.pc * job.pcSize + job.pcSize := by
      have : ¬(job.pc + 1) * job.pcSize < 2 ^ 64 := fun hlt => hend ⟨hpc, hlt⟩
      rw [add_mul, one_mul] at this
      exact not_lt.mp this
    have hsize := job.pcSize_lt
    rw [Nat.mod_eq_sub_mod hover, Nat.mod_eq_of_lt (by omega)]
    omega
  · have hzero : uint32 (job.pc + 1) = 0 := by
      have hpc' : job.pc + 1 = 2 ^ 32 := le_antisymm job.pc_lt (not_lt.mp hpc)
      rw [hpc']
      rfl
    rw [hzero, zero_mul]
    exact Nat.zero_le _

theorem offset_eq {k : ℕ} (hk : k < job.sectors) :
    job.offset (job.pc * job.sectors + k) = k * 512 := by
  rw [offset]
  change (job.pc * job.sectors + k) % job.sectors * 512 = k * 512
  rw [Nat.mul_comm job.pc, Nat.mul_add_mod, Nat.mod_eq_of_lt hk]

end PcJob

/-! ### Completeness -/

/-- The request reads the part at the `k`-th sector of the pc. Koala is asked for a sector of the
image, a chunk for an offset in the pc. -/
def Request.ReadsPart (job : PcJob) (k : ℕ) : Request → Prop
  | .readKoala sector sectorNum _ =>
    sector = job.pc * job.sectors + k ∧ sectorNum = job.sectorNum
  | .readChunk offset length => offset = k * 512 ∧ length = job.operateSize
  | .write .. => False

/-- Every sector of the pc lies in a part that was read and then written, at the offset that it was
read from, to all targets that are not offline, or that the source has reported empty. -/
def Cursor.Complete (job : PcJob) (c : Cursor) : Prop :=
  ∀ y < job.sectors, ∃ (k : ℕ) (r : Request), k ≤ y ∧ y < k + job.sectorNum ∧
    r.ReadsPart job k ∧ (r ∈ c.empties ∨ r ∈ c.succeeded ∧
      ∀ i, ∀ t ∈ c.infoList[i]?, t.offline = false →
        .write i (k * 512) job.operateSize r ∈ c.succeeded)

namespace Cursor

variable {job : PcJob} {c : Cursor} {K : ℕ}

theorem readsPart_readRequest {k : ℕ} (hk : k < job.sectors) :
    (job.readRequest (job.pc * job.sectors + k)).ReadsPart job k := by
  rw [PcJob.readRequest]
  split
  · exact ⟨rfl, rfl⟩
  · exact ⟨PcJob.offset_eq hk, rfl⟩

/-- The parts of a finished copy cover the pc if its sector numbers fit. -/
theorem Copied.complete (hc : c.Copied job K) (hsector : 512 ∣ job.pcSize)
    (hnum : 0 < job.sectorNum) (hfirst : job.FirstFits)
    (hend : job.EndFits ∨ job.sectors ≤ job.sectorNum) : c.Complete job := by
  intro y hy
  -- the sector lies in the part with the number `y / sectorNum`
  have hstart : ∀ j, job.partStart j = job.pc * job.sectors + j * job.sectorNum := by
    intro j
    rw [PcJob.partStart, PcJob.firstSector_eq hsector hfirst]
  have hle : y / job.sectorNum * job.sectorNum ≤ y := Nat.div_mul_le_self y job.sectorNum
  have hj : y / job.sectorNum < K := by
    rcases hend with hend | hone
    · by_contra hge
      have hreaches := hc.reaches
      rw [PcJob.endSector_eq hsector hend, hstart, add_mul, one_mul] at hreaches
      have : K * job.sectorNum ≤ y / job.sectorNum * job.sectorNum :=
        Nat.mul_le_mul_right _ (not_lt.mp hge)
      omega
    · rw [Nat.div_eq_of_lt (hy.trans_le hone)]
      exact hc.pos
  have hdone := hc.parts _ hj
  rw [hstart] at hdone
  refine ⟨y / job.sectorNum * job.sectorNum, _, hle, Nat.lt_div_mul_add hnum,
    readsPart_readRequest (hle.trans_lt hy), hdone.imp_right fun hwritten => ?_⟩
  obtain ⟨hread, hserved⟩ := hwritten
  refine ⟨hread, fun i t ht honline => ?_⟩
  have hwrite := (hserved i t ht).resolve_left (by simp [honline])
  rwa [PcJob.writeRequest, PcJob.buildChunkWriteRequest, PcJob.offset_eq (hle.trans_lt hy)]
    at hwrite

theorem readsPart_unique {r : Request} {k k' : ℕ} (h : r.ReadsPart job k)
    (h' : r.ReadsPart job k') : k = k' := by
  cases r with
  | readKoala sector sectorNum shardIdx =>
    exact add_left_cancel (h.1.symm.trans h'.1)
  | readChunk offset length =>
    exact Nat.eq_of_mul_eq_mul_right (by decide) (h.1.symm.trans h'.1)
  | write target offset length data => exact absurd h id

theorem Copied.exists_part (hc : c.Copied job K) (hcomplete : c.Complete job) {y : ℕ}
    (hy : y < job.sectors) : ∃ k, k ≤ y ∧ y < k + job.sectorNum ∧
      ∃ j < K, (job.readRequest (job.partStart j)).ReadsPart job k := by
  obtain ⟨k, r, hle, hlt, hpart, hmem⟩ := hcomplete y hy
  have hread : r.IsRead := by
    cases r with
    | readKoala | readChunk => trivial
    | write target offset length data => exact hpart
  obtain ⟨j, hj, rfl⟩ := hc.reads r (hmem.symm.imp_left And.left) hread
  exact ⟨k, hle, hlt, j, hj, hpart⟩

theorem Copied.le_of_not_endFits (hc : c.Copied job K) (hsector : 512 ∣ job.pcSize)
    (hfirst : job.FirstFits) (hend : ¬job.EndFits) (hcomplete : c.Complete job) :
    job.sectors ≤ job.sectorNum := by
  by_contra hlt
  rw [not_le] at hlt
  have hone : K = 1 := by
    refine le_antisymm (not_lt.mp fun hK => ?_) hc.pos
    have hlast := hc.last hK
    have hfirst_le : job.firstSector ≤ job.partStart (K - 1) := Nat.le_add_right _ _
    exact absurd (hlast.trans_le (PcJob.endSector_le_firstSector hfirst hend)) hfirst_le.not_gt
  obtain ⟨k, -, hy, j, hj, hpart⟩ := hc.exists_part hcomplete hlt
  obtain rfl : j = 0 := Nat.lt_one_iff.mp (hone ▸ hj)
  have hzero : (job.readRequest (job.partStart 0)).ReadsPart job 0 := by
    rw [PcJob.partStart, PcJob.firstSector_eq hsector hfirst, zero_mul]
    exact readsPart_readRequest (Nat.zero_lt_of_lt hlt)
  obtain rfl := readsPart_unique hpart hzero
  omega

theorem Copied.firstFits (hc : c.Copied job K) (hsector : 512 ∣ job.pcSize)
    (hpos : 0 < job.sectors) (hkoala : job.srcType = .koala) (hcomplete : c.Complete job) :
    job.FirstFits := by
  by_contra hfirst
  obtain ⟨k, -, -, j, hj, hpart⟩ := hc.exists_part hcomplete hpos
  have hstart : job.partStart j = job.pc * job.sectors + k := by
    rw [PcJob.readRequest, if_pos hkoala] at hpart
    exact hpart.1
  have hlt : job.partStart j < 2 ^ 55 := by
    refine job.partStart_lt fun hj' => ?_
    have hle : j * job.sectorNum ≤ (K - 1) * job.sectorNum :=
      Nat.mul_le_mul_right _ (Nat.le_sub_one_of_lt hj)
    exact (Nat.add_le_add_left hle _).trans_lt (hc.last (Nat.lt_of_le_of_lt hj' hj))
  have hge : 2 ^ 64 / 512 ≤ job.pc * job.sectors := by
    rw [← PcJob.mul_pcSize_div hsector]
    exact Nat.div_le_div_right (not_lt.mp hfirst)
  omega

end Cursor

namespace DoHelaPcTask

theorem Inv.copied {job : PcJob} {h : DoHelaPcTask} (hinv : Inv job h)
    (hposted : h.agenda.posted = [.success]) (hconnections : false ∉ h.connections) :
    ∃ K, h.cursor.Copied job K := by
  cases hinv with
  | fresh hinit =>
    subst hinit
    exact nomatch hposted
  | reading k next halive hagenda hcursor hsent => exact nomatch hagenda.posted.symm.trans hposted
  | writing k i next halive hagenda hcursor hsent =>
    exact nomatch hagenda.posted.symm.trans hposted
  | finished retcode hconnected hstarted hagenda hcopied =>
    exact hcopied (List.singleton_inj.mp (hagenda.posted.symm.trans hposted))
  | crashed hstarted husedMissing hmissing _ => exact absurd hmissing hconnections

/-- **Completeness of a clone.** The pc consists of whole sectors, an operation has at least one,
and all connections are there. A task that has ended with success has copied its pc when its parts
cover the pc, and only then, except that a chunk source is addressed by offsets in the pc: nothing
is said of one whose first sector cannot be computed. There `PartsCover` is not necessary. With
`pcSize = 2 ^ 40` and `pc = 2 ^ 24` the product is reduced to zero, the end to `2 ^ 40`, and the
parts have the offsets of the whole pc. -/
theorem complete_iff {job : PcJob} {h : DoHelaPcTask} {es : List (Event × Env)}
    (hrun : exec (step job) (init job) es = some h) (hposted : h.agenda.posted = [.success])
    (hsize : 0 < job.pcSize) (hsector : 512 ∣ job.pcSize) (hop : 512 ≤ job.operateSize)
    (hconnections : ∀ c ∈ h.connections, c = true) :
    (job.PartsCover → h.cursor.Complete job) ∧
      (job.srcType = .koala ∨ job.FirstFits → h.cursor.Complete job → job.PartsCover) := by
  obtain ⟨K, hc⟩ := (inv_of_exec hrun).copied hposted
    fun hmem => absurd (hconnections false hmem) Bool.false_ne_true
  have hpos : 0 < job.sectors := Nat.div_pos (Nat.le_of_dvd hsize hsector) (by decide)
  have hnum : 0 < job.sectorNum := Nat.div_pos hop (by decide)
  constructor
  · rintro ⟨hfirst, hend⟩
    exact hc.complete hsector hnum hfirst hend
  · intro hsource hcomplete
    have hfirst : job.FirstFits :=
      hsource.elim (fun hkoala => hc.firstFits hsector hpos hkoala hcomplete) id
    refine ⟨hfirst, or_iff_not_imp_left.mpr fun hend => ?_⟩
    exact hc.le_of_not_endFits hsector hfirst hend hcomplete

/-- A pc of 4 MiB, copied in parts of 2 MiB. -/
def twoParts (pc : ℕ) (hpc : pc < 2 ^ 32) : PcJob :=
  .ofLocalChunk pc 4194304 2097152 hpc (by decide) (by decide)

/-- The part of `length` bytes at the offset `offset` is read and written. -/
def copyPart (length offset : ℕ) : List (Event × Env) :=
  [(.readResponse offset length .ok, .granting true),
    (.writeResponse 0 offset length (.readChunk offset length) .ok, .granting true)]

/-- The pc 1 is copied in two parts. -/
theorem complete_iff_pcOne :
    ∃ h, exec (step (twoParts 1 (by decide))) (init (twoParts 1 (by decide)))
        ((.start, .granting true) :: (copyPart 2097152 0 ++ copyPart 2097152 2097152)) = some h ∧
      h.agenda.posted = [.success] ∧ h.cursor.Complete (twoParts 1 (by decide)) :=
  exists_exec_mono (P := fun h => h.agenda.posted = [.success] ∧ ∀ c ∈ h.connections, c = true)
    (by decide +kernel) fun _ hrun ⟨hposted, hconnections⟩ => ⟨hposted,
      (complete_iff hrun hposted (by decide) (by decide) (by decide) hconnections).1
        ⟨show 1 * 4194304 < 2 ^ 64 by decide,
          .inl ⟨by decide, show (1 + 1) * 4194304 < 2 ^ 64 by decide⟩⟩⟩

/-- For the last pc number the end of the pc is computed as zero. The task ends with success after
its first part, and the sectors of the second part have not been copied. -/
theorem last_pc_incomplete :
    ∃ h, exec (step (twoParts 4294967295 (by decide))) (init (twoParts 4294967295 (by decide)))
        ((.start, .granting true) :: copyPart 2097152 0) = some h ∧
      h.agenda.posted = [.success] ∧ (∀ c ∈ h.connections, c = true) ∧
      ¬h.cursor.Complete (twoParts 4294967295 (by decide)) := by
  refine exists_exec_mono (P := fun h => h.agenda.posted = [.success] ∧
      (∀ c ∈ h.connections, c = true) ∧ h.cursor.empties = [] ∧ h.cursor.succeeded =
        [.write 0 0 2097152 (.readChunk 0 2097152), .readChunk 0 2097152]) (by decide +kernel) ?_
  rintro h hrun ⟨hposted, hconnections, hempties, hsucceeded⟩
  refine ⟨hposted, hconnections, fun hcomplete => ?_⟩
  obtain ⟨k, r, -, hlt, hpart, hmem⟩ := hcomplete 4096 (by decide)
  simp only [hempties, hsucceeded, List.mem_cons, List.not_mem_nil, false_or, or_false] at hmem
  obtain ⟨rfl | rfl, -⟩ := hmem
  · exact hpart
  · -- the only read was that of the sectors 0 to 4095
    have hk : 0 = k * 512 := hpart.1
    have hnum : (twoParts 4294967295 (by decide)).sectorNum = 4096 := rfl
    omega

end DoHelaPcTask

end Hela
