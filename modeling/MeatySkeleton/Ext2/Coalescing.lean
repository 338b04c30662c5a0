import MeatySkeleton.Ext2.Lookups

/-!
# Reading in runs of blocks

`ext2_read_file_cached` transfers consecutive blocks at once. `readBlocksFrom` is the same
loop without runs: a lookup, a transfer and a copy for each block, up to the first that is
not mapped. Both return the same bytes, whatever the block map (`vnodeRead_by_blocks`).
-/

namespace MeatySkeleton.Ext2

open Lib Lib.Effect

/-- `chunk` bytes of block `n`, from `offsetInBlock` on, are copied to `total`. -/
def copyBlock (blockSize n offsetInBlock chunk total : Nat) (buffer : Buffer) :
    Effect Working Buffer := do
  let s ← get
  let block ← onDevice (readBlock blockSize n s.volume.array)
  let bytes ← block.slice offsetInBlock chunk
  buffer.store total bytes chunk

/-- The loop of `ext2_read_file_cached` without runs. -/
def readBlocksFrom (blockSize offset wanted : Nat) :
    Nat → Nat → Buffer → Effect Working (Buffer × Nat)
  | 0, _, _ => crash
  | fuel + 1, total, buffer =>
    if wanted ≤ total then return (buffer, total)
    else do
      let fileOffset := u32 (offset + total)
      let logicalBlock ← divide fileOffset blockSize
      let offsetInBlock ← modulo fileOffset blockSize
      let blockNumber ← getDataBlock logicalBlock
      if blockNumber = 0 then return (buffer, total)
      else
        let chunk := min (blockSize - offsetInBlock) (wanted - total)
        let buffer ← copyBlock blockSize blockNumber offsetInBlock chunk total buffer
        readBlocksFrom blockSize offset wanted fuel (total + chunk) buffer

/-- `ext2_read_file_cached` without runs. -/
def readFileByBlocks (offset : Nat) (buffer : Buffer) : Effect Working (Buffer × Nat) := do
  let s ← get
  require (s.inode.format = formatRegular)
  let blockSize ← s.volume.superblock.blockSize
  require (blockSize ≤ 4096)
  if s.inode.sizeLow ≤ offset then return (buffer, 0)
  else
    let wanted := min buffer.size (s.inode.sizeLow - offset)
    readBlocksFrom blockSize offset wanted (wanted + 1) 0 buffer

/-- `ext2_vnode_read` without runs. -/
def vnodeReadByBlocks (offset : Nat) (buffer : Buffer) : Effect Opened (Buffer × Nat) := do
  let cache ← blockCache
  onFile cache (readFileByBlocks offset buffer)

/-! ## Transfers -/

/-- An array into which `n` bytes of the image are copied. -/
def Buffer.copied (b : Buffer) (i : Nat) (image : Mem) (place n : Nat) : Buffer :=
  { b with bytes := copyFrom b.bytes i image place n }

theorem Buffer.copied_append (b : Buffer) (i : Nat) (image : Mem) (place n k : Nat) :
    (b.copied i image place n).copied (i + n) image (place + n) k = b.copied i image place (n + k) :=
  congrArg (Buffer.mk b.size) (copyFrom_append ..)

variable {s t : Working} {buffer block : Buffer} {blockSize offset wanted total n : Nat}

/-- A run of `run` blocks from block `n` on is on the device. -/
def Volume.HasRun (v : Volume) (blockSize n run : Nat) : Prop :=
  (n + run) * (blockSize / 512) ≤ v.sectorCount

instance (v : Volume) (blockSize n run : Nat) : Decidable (v.HasRun blockSize n run) :=
  inferInstanceAs (Decidable (_ ≤ _))

theorem hasRun_succ {v : Volume} {run : Nat} (h : BlockSized blockSize) :
    v.HasRun blockSize n (run + 1) ↔ v.HasRun blockSize n run ∧ v.HasBlock blockSize (n + run) := by
  have hsectors := h.sectors.1
  unfold Volume.HasRun Volume.HasBlock
  rw [Nat.add_assoc n run 1]
  have hmono : (n + run) * (blockSize / 512) ≤ (n + (run + 1)) * (blockSize / 512) :=
    Nat.mul_le_mul_right _ (by omega)
  omega

theorem readRun_result {run : Nat} (h : BlockSized blockSize) (hrun : run ≠ 0)
    (hroom : total + run * blockSize ≤ buffer.size) :
    (onDevice (blockRead (n * (blockSize / 512)) (run * (blockSize / 512)) buffer total) s).result =
      if s.volume.HasRun blockSize n run then
        some (buffer.copied total s.volume.image (n * blockSize) (run * blockSize), s)
      else none := by
  obtain ⟨hpos, hsize, -⟩ := h.sectors
  have hcount : run * (blockSize / 512) * 512 = run * blockSize := by rw [Nat.mul_assoc, hsize]
  have hplace : n * (blockSize / 512) * 512 = n * blockSize := by rw [Nat.mul_assoc, hsize]
  have hsome := Nat.mul_pos (Nat.pos_of_ne_zero hrun) hpos
  by_cases hdevice : s.volume.HasRun blockSize n run
  · rw [if_pos hdevice, Ending.result_eq_some, onDevice_eq_done]
    refine ⟨s.volume, blockRead_eq_done.mpr ⟨?_, ?_, ?_, rfl⟩, rfl⟩
    · unfold Volume.HasRun at hdevice
      unfold Volume.HasSectors
      rw [Nat.add_mul] at hdevice
      omega
    · rw [hcount]
      exact hroom
    · rw [hcount, hplace]
      rfl
  · rw [if_neg hdevice]
    rw [Option.eq_none_iff_forall_ne_some]
    rintro ⟨b, u⟩ hresult
    rw [Ending.result_eq_some, onDevice_eq_done] at hresult
    obtain ⟨v, hread, -⟩ := hresult
    obtain ⟨hsectors, -⟩ := blockRead_eq_done.mp hread
    refine hdevice ?_
    unfold Volume.HasSectors at hsectors
    unfold Volume.HasRun
    rw [Nat.add_mul]
    omega

/-- A block read into an array, and a part of it copied on. -/
theorem copyFrom_block {b bytes image : Mem} {offsetInBlock chunk place : Nat}
    (h : offsetInBlock + chunk ≤ blockSize) :
    copyFrom b total (fun j => copyFrom bytes 0 image place blockSize (offsetInBlock + j)) 0 chunk =
      copyFrom b total image (place + offsetInBlock) chunk := by
  funext x
  unfold copyFrom
  split
  next hx =>
    dsimp only
    rw [if_pos (by omega)]
    congr 1
    omega
  next => rfl

/-- A part of a block goes through an array to the caller. -/
theorem copied_result {offsetInBlock chunk : Nat} {α : Type} {f : Buffer → Buffer → Effect Working α}
    (h : BlockSized blockSize) (hblock : blockSize ≤ block.size)
    (hchunk : offsetInBlock + chunk ≤ blockSize) (hroom : total + chunk ≤ buffer.size) :
    ((onDevice (readBlock blockSize n block) >>= fun block => do
      let bytes ← block.slice offsetInBlock chunk
      let buffer ← buffer.store total bytes chunk
      f block buffer) s).result =
    if s.volume.HasBlock blockSize n then
      (f (block.copied 0 s.volume.image (n * blockSize) blockSize)
        (buffer.copied total s.volume.image (n * blockSize + offsetInBlock) chunk) s).result
    else none := by
  rw [onDevice_bind]
  by_cases hdevice : s.volume.HasBlock blockSize n
  · rw [if_pos hdevice, readBlock_done h hdevice hblock]
    dsimp only
    rw [bind_done (slice_eq_done.mpr ⟨?_, rfl, rfl⟩), bind_done (store_done hroom),
      copyFrom_block hchunk]
    rfl
    · show offsetInBlock + chunk ≤ block.size
      omega
  · rw [if_neg hdevice, readBlock_failed h hdevice]
    rfl

theorem copyBlock_result {offsetInBlock chunk : Nat} (h : BlockSized blockSize)
    (hchunk : offsetInBlock + chunk ≤ blockSize) (hroom : total + chunk ≤ buffer.size) :
    (copyBlock blockSize n offsetInBlock chunk total buffer s).result =
    if s.volume.HasBlock blockSize n then
      some (buffer.copied total s.volume.image (n * blockSize + offsetInBlock) chunk, s)
    else none := by
  have hblock : blockSize ≤ s.volume.array.size := h.le.2
  refine Eq.trans (congrArg Ending.result ?_)
    (copied_result (f := fun _ buffer => pure buffer) h hblock hchunk hroom)
  unfold copyBlock
  rw [get_bind]
  refine bind_cont fun block t _ => bind_cont fun bytes u _ => ?_
  exact bind_pure_eq.symm

/-! ## The loop without runs -/

section
variable {fuel : Nat}

theorem readBlocksFrom_end (h : wanted ≤ total) :
    readBlocksFrom blockSize offset wanted (fuel + 1) total buffer s = .done (buffer, total) s := by
  rw [readBlocksFrom, if_pos h]
  rfl

/-- One pass of the loop. -/
theorem readBlocksFrom_pass (hbs : blockSize ≠ 0) (hend : offset + wanted < 2 ^ 32)
    (h : total < wanted) :
    readBlocksFrom blockSize offset wanted (fuel + 1) total buffer s =
      (getDataBlock ((offset + total) / blockSize) >>= fun n =>
        if n = 0 then pure (buffer, total)
        else do
          let chunk := min (blockSize - (offset + total) % blockSize) (wanted - total)
          let buffer ← copyBlock blockSize n ((offset + total) % blockSize) chunk total buffer
          readBlocksFrom blockSize offset wanted fuel (total + chunk) buffer) s := by
  rw [readBlocksFrom, if_neg (Nat.not_le.mpr h), u32_of_lt (by omega)]
  dsimp only
  rw [bind_done (divide_done hbs), bind_done (modulo_done hbs)]

/-- What is left over of the fuel does not matter. -/
theorem readBlocksFrom_fuel (hbs : blockSize ≠ 0) (hend : offset + wanted < 2 ^ 32) {fuel' : Nat}
    (h : wanted - total < fuel) (h' : wanted - total < fuel') :
    readBlocksFrom blockSize offset wanted fuel total buffer s =
      readBlocksFrom blockSize offset wanted fuel' total buffer s := by
  induction fuel generalizing fuel' total buffer s with
  | zero =>
    exact absurd h (Nat.not_lt_zero _)
  | succ fuel ih =>
    cases fuel' with
    | zero => exact absurd h' (Nat.not_lt_zero _)
    | succ fuel' =>
      by_cases hdone : wanted ≤ total
      · rw [readBlocksFrom_end hdone, readBlocksFrom_end hdone]
      · have hlt := Nat.not_le.mp hdone
        have hmod := Nat.mod_lt (offset + total) (Nat.pos_of_ne_zero hbs)
        rw [readBlocksFrom_pass hbs hend hlt, readBlocksFrom_pass hbs hend hlt]
        refine bind_cont fun n t _ => ?_
        by_cases hzero : n = 0
        · rw [if_pos hzero, if_pos hzero]
        · rw [if_neg hzero, if_neg hzero]
          exact bind_cont fun b u _ => ih (by omega) (by omega)

end

/-! ## Runs -/

/-- The loop without runs, with fuel enough. -/
def readRest (blockSize offset wanted total : Nat) (buffer : Buffer) :
    Effect Working (Buffer × Nat) :=
  readBlocksFrom blockSize offset wanted (wanted + 1) total buffer

/-- A run of blocks at once, and the rest block by block. -/
def readRun (blockSize offset wanted total n : Nat) (buffer : Buffer) (run : Nat) :
    Effect Working (Buffer × Nat) := do
  let buffer ← onDevice
    (blockRead (n * (blockSize / 512)) (run * (blockSize / 512)) buffer total)
  readRest blockSize offset wanted (total + run * blockSize) buffer

theorem readRest_pass (hbs : blockSize ≠ 0) (hend : offset + wanted < 2 ^ 32) (h : total < wanted) :
    readRest blockSize offset wanted total buffer s =
      (getDataBlock ((offset + total) / blockSize) >>= fun n =>
        if n = 0 then pure (buffer, total)
        else do
          let chunk := min (blockSize - (offset + total) % blockSize) (wanted - total)
          let buffer ← copyBlock blockSize n ((offset + total) % blockSize) chunk total buffer
          readRest blockSize offset wanted (total + chunk) buffer) s := by
  have hmod := Nat.mod_lt (offset + total) (Nat.pos_of_ne_zero hbs)
  unfold readRest
  rw [readBlocksFrom_pass hbs hend h]
  refine bind_cont fun n t _ => ?_
  by_cases hzero : n = 0
  · rw [if_pos hzero, if_pos hzero]
  · rw [if_neg hzero, if_neg hzero]
    refine bind_cont fun b u _ => readBlocksFrom_fuel hbs hend ?_ ?_
    · omega
    · omega

/-- What a run of blocks comes to. -/
theorem readRun_eq {run : Nat} (h : BlockSized blockSize) (hrun : run ≠ 0)
    (hroom : total + run * blockSize ≤ buffer.size) :
    (readRun blockSize offset wanted total n buffer run s).result =
      if s.volume.HasRun blockSize n run then
        (readRest blockSize offset wanted (total + run * blockSize)
          (buffer.copied total s.volume.image (n * blockSize) (run * blockSize)) s).result
      else none := by
  unfold readRun
  rw [result_bind, readRun_result h hrun hroom]
  by_cases hdevice : s.volume.HasRun blockSize n run
  · rw [if_pos hdevice, if_pos hdevice]
    rfl
  · rw [if_neg hdevice, if_neg hdevice]
    rfl

/-- The first lookup behind the run can be made before the transfer. -/
theorem readRest_again {m : Nat} (hbs : blockSize ≠ 0) (hend : offset + wanted < 2 ^ 32)
    (h : total < wanted) (hlookup : getDataBlock ((offset + total) / blockSize) s = .done m t) :
    readRest blockSize offset wanted total buffer s =
      readRest blockSize offset wanted total buffer t := by
  rw [readRest_pass hbs hend h, readRest_pass hbs hend h, bind_done hlookup,
    bind_done (getDataBlock_again hlookup).2.2]

/-- A run may be extended by the block that the next lookup finds behind it. -/
theorem runLength_result {logicalBlock left run : Nat} (h : BlockSized blockSize)
    (hend : offset + wanted < 2 ^ 32) (hwanted : wanted ≤ buffer.size)
    (hplace : offset + total = logicalBlock * blockSize) (hrun : run ≠ 0)
    (hleft : total + (run + left) * blockSize ≤ wanted) (hn : n + run ≤ 2 ^ 32) :
    ((runLength logicalBlock n left run >>=
        readRun blockSize offset wanted total n buffer) s).result =
      (readRun blockSize offset wanted total n buffer run s).result := by
  have hpos := h.le.1
  have hbs : blockSize ≠ 0 := by omega
  induction left generalizing run s with
  | zero => rfl
  | succ left ih =>
    have hgrow : (run + (left + 1)) * blockSize = run * blockSize + left * blockSize + blockSize := by
      rw [Nat.add_mul, Nat.succ_mul, Nat.add_assoc]
    have hnext : (run + 1) * blockSize = run * blockSize + blockSize := Nat.succ_mul _ _
    have hmore : total + run * blockSize < wanted := by omega
    have hroom : total + run * blockSize ≤ buffer.size := by omega
    -- the block behind the run is the next of the file
    have hsum : offset + (total + run * blockSize) = (logicalBlock + run) * blockSize := by
      rw [Nat.add_mul, ← hplace, Nat.add_assoc]
    have hindex : (offset + (total + run * blockSize)) / blockSize = logicalBlock + run := by
      rw [hsum, Nat.mul_div_cancel _ (Nat.pos_of_ne_zero hbs)]
    have haligned : (offset + (total + run * blockSize)) % blockSize = 0 := by
      rw [hsum, Nat.mul_mod_left]
    have hlogical : u32 (logicalBlock + run) = logicalBlock + run := by
      refine u32_of_lt ?_
      rw [← hindex]
      exact Nat.lt_of_le_of_lt (Nat.div_le_self _ _) (by omega)
    rw [readRun_eq h hrun hroom]
    cases hlookup : getDataBlock (logicalBlock + run) s with
    | done m t =>
      obtain ⟨hsame, hm, -⟩ := getDataBlock_again hlookup
      have hvolume : t.volume = s.volume := congrArg Allocating.volume hsame.allocating
      have hagain : ∀ b, readRest blockSize offset wanted (total + run * blockSize) b s =
          readRest blockSize offset wanted (total + run * blockSize) b t := fun b =>
        readRest_again hbs hend hmore (hindex ▸ hlookup)
      have hfirst : (runLength logicalBlock n (left + 1) run >>=
          readRun blockSize offset wanted total n buffer) s =
          ((if m = 0 ∨ m ≠ u32 (n + run) then pure run
            else runLength logicalBlock n left (run + 1)) >>=
              readRun blockSize offset wanted total n buffer) t := by
        refine bind_congr ?_
        rw [runLength, hlogical, bind_done hlookup]
      rw [hfirst]
      by_cases hstop : m = 0 ∨ m ≠ u32 (n + run)
      · -- the run ends here: the same lookup follows the transfer
        rw [if_pos hstop, pure_bind_eq, readRun_eq h hrun hroom, hvolume]
        by_cases hdevice : s.volume.HasRun blockSize n run
        · rw [if_pos hdevice, if_pos hdevice, hagain]
        · rw [if_neg hdevice, if_neg hdevice]
      · obtain ⟨hzero, hm'⟩ := not_or.mp hstop
        have hconsecutive : m = n + run := by
          rw [not_not] at hm'
          unfold u32 at hm'
          omega
        have hleft' : total + (run + 1 + left) * blockSize ≤ wanted := by
          rw [Nat.add_mul]
          omega
        have hroom' : total + (run + 1) * blockSize ≤ buffer.size := by omega
        rw [if_neg hstop, ih (by omega) hleft' (by omega), readRun_eq h (by omega) hroom', hvolume]
        by_cases hdevice : s.volume.HasRun blockSize n run
        · have hchunk : min (blockSize - 0) (wanted - (total + run * blockSize)) = blockSize := by
            omega
          rw [if_pos hdevice, hagain, readRest_pass hbs hend hmore, hindex, haligned,
            bind_done (getDataBlock_again hlookup).2.2, if_neg hzero, hchunk, result_bind,
            copyBlock_result h (by omega) (by
              show total + run * blockSize + blockSize ≤ buffer.size
              omega), hvolume, hconsecutive]
          by_cases hlast : s.volume.HasBlock blockSize (n + run)
          · rw [if_pos hlast, if_pos ((hasRun_succ h).mpr ⟨hdevice, hlast⟩),
              Nat.add_mul n, Nat.add_zero (n * blockSize + run * blockSize), Buffer.copied_append,
              hnext, Nat.add_assoc]
            rfl
          · rw [if_neg hlast, if_neg fun hall => hlast ((hasRun_succ h).mp hall).2]
            rfl
        · rw [if_neg hdevice, if_neg fun hall => hdevice ((hasRun_succ h).mp hall).1]
    | failed t =>
      -- neither the run nor the rest gets past this lookup
      have hrest : ∀ b, (readRest blockSize offset wanted (total + run * blockSize) b s).result =
          none := fun b => by
        rw [readRest_pass hbs hend hmore, hindex, bind_failed hlookup]
        rfl
      rw [runLength, hlogical, result_bind, bind_failed hlookup, hrest, ite_self]
      rfl
    | fault =>
      have hrest : ∀ b, (readRest blockSize offset wanted (total + run * blockSize) b s).result =
          none := fun b => by
        rw [readRest_pass hbs hend hmore, hindex, bind_fault hlookup]
        rfl
      rw [runLength, hlogical, result_bind, bind_fault hlookup, hrest, ite_self]
      rfl

theorem runLength_le {logicalBlock left run r : Nat}
    (h : runLength logicalBlock n left run s = .done r t) : run ≤ r := by
  induction left generalizing run s with
  | zero =>
    obtain ⟨rfl, -⟩ := pure_eq_done.mp h
    exact Nat.le_refl _
  | succ left ih =>
    rw [runLength] at h
    obtain ⟨m, u, -, h⟩ := bind_eq_done.mp h
    by_cases hstop : m = 0 ∨ m ≠ u32 (n + run)
    · rw [if_pos hstop] at h
      obtain ⟨rfl, -⟩ := pure_eq_done.mp h
      exact Nat.le_refl _
    · rw [if_neg hstop] at h
      exact Nat.le_of_succ_le (ih h)

theorem onDevice_blockRead {lba count place : Nat} {b b' : Buffer}
    (h : onDevice (blockRead lba count b place) s = .done b' t) : b'.size = b.size := by
  obtain ⟨v, hread, -⟩ := onDevice_eq_done.mp h
  obtain ⟨-, -, rfl, -⟩ := blockRead_eq_done.mp hread
  rfl

/-! ## The loop with runs -/

theorem readFrom_end {fuel : Nat} (h : wanted ≤ total) :
    readFrom blockSize offset wanted (fuel + 1) total block buffer s = .done (buffer, total) s := by
  rw [readFrom, if_pos h]
  rfl

/-- The loop of `ext2_read_file_cached` does what the loop without runs does. -/
theorem readFrom_result {fuel : Nat} (h : BlockSized blockSize) (hend : offset + wanted < 2 ^ 32)
    (hwanted : wanted ≤ buffer.size) (hblock : blockSize ≤ block.size)
    (hfuel : wanted - total < fuel) :
    (readFrom blockSize offset wanted fuel total block buffer s).result =
      (readRest blockSize offset wanted total buffer s).result := by
  have hpos := h.le.1
  have hbs : blockSize ≠ 0 := by omega
  induction fuel generalizing total block buffer s with
  | zero => exact absurd hfuel (Nat.not_lt_zero _)
  | succ fuel ih =>
    by_cases hdone : wanted ≤ total
    · unfold readRest
      rw [readFrom_end hdone, readBlocksFrom_end hdone]
    have hlt := Nat.not_le.mp hdone
    have hmod := Nat.mod_lt (offset + total) (Nat.pos_of_ne_zero hbs)
    rw [readRest_pass hbs hend hlt, readFrom, if_neg hdone, u32_of_lt (by omega)]
    dsimp only
    rw [bind_done (divide_done hbs), bind_done (modulo_done hbs)]
    refine result_cont fun n t hlookup => ?_
    by_cases hzero : n = 0
    · rw [if_pos hzero, if_pos hzero]
    rw [if_neg hzero, if_neg hzero]
    by_cases hfast : (offset + total) % blockSize = 0 ∧ blockSize ≤ wanted - total
    · obtain ⟨haligned, hwhole⟩ := hfast
      rw [if_pos ⟨haligned, hwhole⟩]
      -- the rest of the loop after the transfer
      refine Eq.trans (b := ((runLength ((offset + total) / blockSize) n
        (min ((wanted - total) / blockSize) maxReadRunBlocks - 1) 1 >>=
          readRun blockSize offset wanted total n buffer) t).result) ?_ ?_
      · refine result_cont fun run u hrun => result_cont fun b v hread => ?_
        have hsome := Nat.le_mul_of_pos_left blockSize (runLength_le hrun)
        exact ih (onDevice_blockRead hread ▸ hwanted) hblock (by omega)
      · have hwhole' : 1 ≤ (wanted - total) / blockSize :=
          (Nat.one_le_div_iff (Nat.pos_of_ne_zero hbs)).mpr hwhole
        have hblocks : 1 + (min ((wanted - total) / blockSize) maxReadRunBlocks - 1) ≤
            (wanted - total) / blockSize := by omega
        have hbytes := Nat.le_trans (Nat.mul_le_mul_right blockSize hblocks)
          (Nat.div_mul_le_self _ _)
        have hplace : offset + total = (offset + total) / blockSize * blockSize :=
          (Nat.div_mul_cancel (Nat.dvd_of_mod_eq_zero haligned)).symm
        have hroom : total + 1 * blockSize ≤ buffer.size := by omega
        have hchunk : min (blockSize - 0) (wanted - total) = blockSize := by omega
        rw [runLength_result h hend hwanted hplace Nat.one_ne_zero (by omega)
            (getDataBlock_again hlookup).2.1, readRun_eq h Nat.one_ne_zero hroom, haligned, hchunk,
          result_bind, copyBlock_result h (by omega) (by omega), Nat.one_mul,
          Nat.add_zero (n * blockSize)]
        show (if t.volume.HasBlock blockSize n then _ else _) = _
        by_cases hdevice : t.volume.HasBlock blockSize n
        · rw [if_pos hdevice, if_pos hdevice]
          rfl
        · rw [if_neg hdevice, if_neg hdevice]
          rfl
    · rw [if_neg hfast, copied_result h hblock (by omega) (by omega), result_bind,
        copyBlock_result h (by omega) (by omega)]
      by_cases hdevice : t.volume.HasBlock blockSize n
      · rw [if_pos hdevice, if_pos hdevice]
        exact ih hwanted hblock (by omega)
      · rw [if_neg hdevice, if_neg hdevice]
        rfl

theorem blockSize_cases {log : Nat} (hlog : log < 32) (h : u32 (1024 * 2 ^ log) ≤ 4096) :
    BlockSized (u32 (1024 * 2 ^ log)) ∨ u32 (1024 * 2 ^ log) = 0 := by
  have hall : ∀ log < 32, u32 (1024 * 2 ^ log) ≤ 4096 →
      BlockSized (u32 (1024 * 2 ^ log)) ∨ u32 (1024 * 2 ^ log) = 0 := by
    unfold BlockSized
    decide
  exact hall log hlog h

theorem readFileCached_result {buffer : Buffer} :
    (readFileCached offset buffer s).result = (readFileByBlocks offset buffer s).result := by
  unfold readFileCached readFileByBlocks
  rw [get_bind, get_bind]
  by_cases hformat : s.inode.format = formatRegular
  · rw [require_bind hformat, require_bind hformat]
    refine result_cont fun blockSize t hsize => ?_
    obtain ⟨-, hblockSize, -⟩ := blockSize_again hsize
    have hlog : s.volume.superblock.logBlockSize < 32 := (demand_eq_done.mp hsize).1
    by_cases hle : blockSize ≤ 4096
    · rw [require_bind hle, require_bind hle]
      by_cases hpast : s.inode.sizeLow ≤ offset
      · rw [if_pos hpast, if_pos hpast]
      rw [if_neg hpast, if_neg hpast]
      have hend : offset + min buffer.size (s.inode.sizeLow - offset) < 2 ^ 32 := by
        have hlow : s.inode.sizeLow < 2 ^ 32 := get32_lt _ _
        omega
      rcases blockSize_cases hlog (hblockSize ▸ hle) with h | hzero
      · exact readFrom_result (hblockSize ▸ h) hend (Nat.min_le_left _ _) hle (Nat.lt_succ_self _)
      · -- both divide by zero, unless there is nothing to read
        rw [hblockSize, hzero]
        by_cases hnone : min buffer.size (s.inode.sizeLow - offset) ≤ 0
        · rw [readFrom_end hnone, readBlocksFrom_end hnone]
        · rw [readFrom, readBlocksFrom, if_neg hnone, if_neg hnone]
          rfl
    · rw [require_failed hle, require_failed hle]
  · rw [require_failed hformat, require_failed hformat]

/-- Reading in runs of blocks is reading block by block. -/
theorem vnodeRead_by_blocks (offset : Nat) (buffer : Buffer) (s : Opened) :
    (vnodeRead offset buffer s).result = (vnodeReadByBlocks offset buffer s).result := by
  refine result_cont fun cache t _ => ?_
  unfold onFile
  rw [result_zoom, result_zoom, readFileCached_result]

end MeatySkeleton.Ext2
