import MeatySkeleton.Ext2.BlockMap
import MeatySkeleton.Ext2.Coalescing

/-!
# What a read delivers

`ext2_vnode_read` stops at a block that is not mapped, as at the end of the file. It delivers
all that is asked for exactly when every block of the range is mapped.
-/

namespace MeatySkeleton.Ext2

open Lib Lib.Effect

/-- The byte at `place` of a file; a hole is zero. -/
def Working.stored (s : Working) (place : Nat) : UInt8 :=
  match s.mapped (place / s.volume.blockBytes) with
  | none => 0
  | some 0 => 0
  | some (n + 1) => s.volume.block (n + 1) (place % s.volume.blockBytes)

/-- The blocks and tables of a range can be read. -/
def Working.Readable (s : Working) (lo hi : Nat) : Prop :=
  ∀ place, lo ≤ place → place < hi → s.HasTables (place / s.volume.blockBytes) ∧
    ∀ n, s.mapped (place / s.volume.blockBytes) = some n → s.volume.CanRead n

/-- No block of a range is a hole, or beyond the double-indirect blocks. -/
def Working.Covered (s : Working) (lo hi : Nat) : Prop :=
  ∀ place, lo ≤ place → place < hi → ∃ n, n ≠ 0 ∧ s.mapped (place / s.volume.blockBytes) = some n

variable {s t : Working} {offset wanted total : Nat} {buffer : Buffer}

theorem Working.stored_eq {place n : Nat} (hn : n ≠ 0)
    (h : s.mapped (place / s.volume.blockBytes) = some n) :
    s.stored place = s.volume.block n (place % s.volume.blockBytes) := by
  unfold Working.stored
  rw [h]
  cases n with
  | zero => exact absurd rfl hn
  | succ n => rfl

/-- A position in the same block. -/
theorem same_block (p d bs : Nat) (h : p % bs + d < bs) :
    (p + d) / bs = p / bs ∧ (p + d) % bs = p % bs + d := by
  have hp : p + d = p % bs + d + bs * (p / bs) := by
    have hdiv := Nat.mod_add_div p bs
    omega
  rw [hp, Nat.add_mul_div_left _ _ (by omega), Nat.add_mul_mod_self_left, Nat.div_eq_of_lt h,
    Nat.mod_eq_of_lt h, Nat.zero_add]
  exact ⟨rfl, rfl⟩

theorem Looked.stored (h : Looked s t) (hs : Settled s) (place : Nat) :
    t.stored place = s.stored place := by
  unfold Working.stored Volume.block
  rw [h.mapped hs, h.same.volume]

theorem Looked.readable {lo hi : Nat} (h : Looked s t) (hs : Settled s)
    (hcovered : s.Covered lo hi) (hreadable : s.Readable lo hi) : t.Readable lo hi := by
  intro place hlo hhi
  obtain ⟨n, -, hn⟩ := hcovered place hlo hhi
  obtain ⟨htables, hblock⟩ := hreadable place hlo hhi
  rw [h.same.volume]
  refine ⟨h.hasTables (by rw [hn]; exact nofun) htables, fun m hm => hblock m ?_⟩
  rw [← h.mapped hs]
  exact hm

theorem Looked.covered {lo hi : Nat} (h : Looked s t) (hs : Settled s)
    (hcovered : s.Covered lo hi) : t.Covered lo hi := by
  intro place hlo hhi
  rw [h.same.volume, h.mapped hs]
  exact hcovered place hlo hhi

/-! ## The loop -/

theorem readRest_end {blockSize : Nat} (h : wanted ≤ total) :
    readRest blockSize offset wanted total buffer s = .done (buffer, total) s :=
  readBlocksFrom_end h

/-- How much of a block is read at once. -/
def Working.chunk (s : Working) (offset wanted total : Nat) : Nat :=
  min (s.volume.blockBytes - (offset + total) % s.volume.blockBytes) (wanted - total)

/-- The caller's array after one pass. -/
def Working.passed (s : Working) (offset wanted total n : Nat) (buffer : Buffer) : Buffer :=
  buffer.copied total s.volume.image
    (n * s.volume.blockBytes + (offset + total) % s.volume.blockBytes) (s.chunk offset wanted total)

theorem chunk_bounds (h : Settled s) (offset : Nat) (hlt : total < wanted) :
    0 < s.chunk offset wanted total ∧ total + s.chunk offset wanted total ≤ wanted ∧
      (offset + total) % s.volume.blockBytes + s.chunk offset wanted total ≤
        s.volume.blockBytes := by
  have hpos := h.blockSized.le.1
  have hmod := Nat.mod_lt (offset + total) (Nat.lt_of_lt_of_le (by decide) hpos)
  unfold Working.chunk
  omega

/-- What a pass copies is stored there. -/
theorem passed_bytes {n k : Nat} (h : Settled s) (hn : n ≠ 0)
    (hmapped : s.mapped ((offset + total) / s.volume.blockBytes) = some n) (hlt : total < wanted)
    (hk : total ≤ k) (hk' : k < total + s.chunk offset wanted total) :
    (s.passed offset wanted total n buffer).bytes k = s.stored (offset + k) := by
  obtain ⟨-, -, hchunk⟩ := chunk_bounds h offset hlt
  obtain ⟨hdiv, hmod⟩ :=
    same_block (offset + total) (k - total) s.volume.blockBytes (by omega)
  have hplace : offset + total + (k - total) = offset + k := by omega
  rw [hplace] at hdiv hmod
  rw [Working.stored_eq hn (by rw [hdiv]; exact hmapped), hmod]
  show copyFrom _ _ _ _ _ k = s.volume.image _
  unfold copyFrom
  rw [if_pos ⟨hk, hk'⟩]
  congr 1
  omega

/-- One pass over a mapped block. -/
theorem readRest_mapped {n : Nat} (h : Settled s) (hend : offset + wanted < 2 ^ 32)
    (hwanted : wanted ≤ buffer.size) (hlt : total < wanted) (hn : n ≠ 0)
    (hlookup : getDataBlock ((offset + total) / s.volume.blockBytes) s = .done n t)
    (hlooked : Looked s t) :
    (readRest s.volume.blockBytes offset wanted total buffer s).result =
      if s.volume.HasBlock s.volume.blockBytes n then
        (readRest t.volume.blockBytes offset wanted (total + s.chunk offset wanted total)
          (s.passed offset wanted total n buffer) t).result
      else none := by
  have hpos := h.blockSized.le.1
  have hbs : s.volume.blockBytes ≠ 0 := by omega
  obtain ⟨-, hroom, hchunk⟩ := chunk_bounds h offset hlt
  rw [readRest_pass hbs hend hlt, bind_done hlookup, if_neg hn, result_bind]
  change (Option.bind (copyBlock _ _ _ (s.chunk offset wanted total) _ _ t).result fun r =>
    (readRest _ _ _ (total + s.chunk offset wanted total) r.1 r.2).result) = _
  rw [copyBlock_result h.blockSized hchunk (by omega), hlooked.same.volume]
  by_cases hdevice : s.volume.HasBlock s.volume.blockBytes n
  · rw [if_pos hdevice, if_pos hdevice]
    rfl
  · rw [if_neg hdevice, if_neg hdevice]
    rfl

/-- Where the blocks are all mapped, the loop gets to its end. -/
theorem readRest_covered (h : Settled s) (hend : offset + wanted < 2 ^ 32)
    (hwanted : wanted ≤ buffer.size) (htotal : total ≤ wanted)
    (hcovered : s.Covered (offset + total) (offset + wanted))
    (hreadable : s.Readable (offset + total) (offset + wanted)) :
    ∃ b t, readRest s.volume.blockBytes offset wanted total buffer s = .done (b, wanted) t ∧
      (∀ k, k < total → b.bytes k = buffer.bytes k) ∧
      ∀ k, total ≤ k → k < wanted → b.bytes k = s.stored (offset + k) := by
  induction hleft : wanted - total using Nat.strong_induction_on generalizing total buffer s with
  | _ left ih =>
    obtain hlt | rfl := Nat.lt_or_eq_of_le htotal
    · obtain ⟨n, hn, hmapped⟩ := hcovered (offset + total) (Nat.le_refl _) (by omega)
      obtain ⟨htables, hblock⟩ := hreadable (offset + total) (Nat.le_refl _) (by omega)
      obtain ⟨t, hlookup, hlooked⟩ := getDataBlock_returns h htables hmapped
      obtain ⟨hsome, hroom, -⟩ := chunk_bounds h offset hlt
      have hcovered' : t.Covered (offset + (total + s.chunk offset wanted total))
          (offset + wanted) :=
        hlooked.covered h fun place hlo hhi => hcovered place (by omega) hhi
      have hreadable' : t.Readable (offset + (total + s.chunk offset wanted total))
          (offset + wanted) :=
        hlooked.readable h (fun place hlo hhi => hcovered place (by omega) hhi)
          fun place hlo hhi => hreadable place (by omega) hhi
      have hwanted' : wanted ≤ (s.passed offset wanted total n buffer).size := hwanted
      obtain ⟨b, u, hrest, hkept, hstored⟩ :=
        ih _ (by omega) hlooked.settled hwanted' hroom hcovered' hreadable' rfl
      refine ⟨b, u, ?_, fun k hk => ?_, fun k hk hk' => ?_⟩
      · rw [← Ending.result_eq_some,
          readRest_mapped h hend hwanted hlt hn hlookup hlooked, if_pos (hblock n hmapped hn)]
        exact Ending.result_eq_some.mpr hrest
      · rw [hkept k (by omega)]
        exact copyFrom_within _ _ _ _ _ k (.inl hk)
      · by_cases hfirst : k < total + s.chunk offset wanted total
        · rw [hkept k hfirst]
          exact passed_bytes h hn hmapped hlt hk hfirst
        · rw [hstored k (Nat.not_lt.mp hfirst) hk', hlooked.stored h]
    · exact ⟨buffer, s, readRest_end (Nat.le_refl _), fun _ _ => rfl, fun k hk hk' => by omega⟩

/-- The loop gets to its end only where the blocks are all mapped. -/
theorem readRest_whole (h : Settled s) (hend : offset + wanted < 2 ^ 32)
    (hwanted : wanted ≤ buffer.size) {b : Buffer}
    (hdone : readRest s.volume.blockBytes offset wanted total buffer s = .done (b, wanted) t) :
    s.Covered (offset + total) (offset + wanted) := by
  induction hleft : wanted - total using Nat.strong_induction_on generalizing total buffer s with
  | _ left ih =>
    intro place hlo hhi
    have hlt : total < wanted := by omega
    have hpos := h.blockSized.le.1
    have hbs : s.volume.blockBytes ≠ 0 := by omega
    obtain ⟨n, u, hlookup, hrest⟩ := bind_eq_done.mp (readRest_pass hbs hend hlt ▸ hdone)
    obtain ⟨hmapped, hlooked⟩ := getDataBlock_looked h hlookup
    by_cases hn : n = 0
    · -- the loop stops here, before the end
      rw [if_pos hn] at hrest
      cases hrest
      exact absurd hlt (Nat.lt_irrefl _)
    obtain ⟨hsome, hroom, hchunk⟩ := chunk_bounds h offset hlt
    by_cases hfirst : place < offset + total + s.chunk offset wanted total
    · obtain ⟨hdiv, -⟩ := same_block (offset + total) (place - (offset + total))
        s.volume.blockBytes (by omega)
      have hplace : offset + total + (place - (offset + total)) = place := by omega
      rw [hplace] at hdiv
      exact ⟨n, hn, hdiv ▸ hmapped⟩
    · have hresult := Ending.result_eq_some.mpr hdone
      rw [readRest_mapped h hend hwanted hlt hn hlookup hlooked] at hresult
      by_cases hdevice : s.volume.HasBlock s.volume.blockBytes n
      · rw [if_pos hdevice] at hresult
        have hwanted' : wanted ≤ (s.passed offset wanted total n buffer).size := hwanted
        have hcovered := ih _ (by omega) hlooked.settled hwanted'
          (Ending.result_eq_some.mp hresult) rfl
        have hmore := hcovered place (by omega) hhi
        rw [hlooked.same.volume, hlooked.mapped h] at hmore
        exact hmore
      · rw [if_neg hdevice] at hresult
        cases hresult

/-! ## Files -/

/-- A vnode's file, with an empty cache before its first use. -/
def Opened.file (s : Opened) : Working :=
  ⟨⟨s.volume, .empty⟩, s.vnode.inode, s.vnode.cache.getD .empty⟩

/-- The vnode has a block cache, or memory for one. -/
def Opened.HasCache (s : Opened) : Prop :=
  s.vnode.cache.isSome ∨ s.volume.kmallocs.head? = some true

/-- How much a read may return. -/
def Opened.readable (s : Opened) (offset length : Nat) : Nat :=
  min length (s.vnode.inode.sizeLow - offset)

/-- A read returns all that is asked for up to the end of the file, with a hole as zeros. -/
def Delivers (s : Opened) (offset : Nat) (buffer : Buffer) : Prop :=
  ∃ out t, vnodeRead offset buffer s = .done (out, s.readable offset buffer.size) t ∧
    ∀ k < s.readable offset buffer.size, out.bytes k = s.file.stored (offset + k)

variable {v : Volume}

theorem kmalloc_done (h : v.kmallocs.head? = some true) :
    kmalloc v = .done () { v with kmallocs := v.kmallocs.tail } := by
  obtain ⟨sectorCount, image, superblock, kmallocs, stale⟩ := v
  cases kmallocs with
  | nil => cases h
  | cons ok rest =>
    cases h
    rfl

theorem kmalloc_failed (h : v.kmallocs.head? ≠ some true) :
    kmalloc v = .failed { v with kmallocs := v.kmallocs.tail } := by
  obtain ⟨sectorCount, image, superblock, kmallocs, stale⟩ := v
  cases kmallocs with
  | nil => rfl
  | cons ok rest =>
    cases ok with
    | true => exact absurd rfl h
    | false => rfl

theorem onOpened_done {α : Type} {m : Effect Volume α} {a : α} {s : Opened}
    (h : m s.volume = .done a v) : onOpened m s = .done a { s with volume := v } :=
  zoom_done h

theorem onOpened_failed {α : Type} {m : Effect Volume α} {s : Opened}
    (h : m s.volume = .failed v) : onOpened m s = .failed { s with volume := v } :=
  zoom_failed h

/-- The vnode after `blockCache`. -/
def Opened.cached (s : Opened) : Opened :=
  match s.vnode.cache with
  | some _ => s
  | none => ⟨{ s.volume with kmallocs := s.volume.kmallocs.tail },
      { s.vnode with cache := some .empty }⟩

theorem blockCache_done {s : Opened} (h : s.HasCache) :
    blockCache s = .done (s.vnode.cache.getD .empty) s.cached := by
  unfold blockCache Opened.cached
  rw [get_bind]
  cases hcache : s.vnode.cache with
  | some cache => rfl
  | none =>
    have hroom : s.volume.kmallocs.head? = some true := by
      refine h.resolve_left ?_
      rw [hcache]
      exact nofun
    dsimp only
    rw [bind_done (onOpened_done (kmalloc_done hroom))]
    rfl

theorem blockCache_failed {s : Opened} (h : ¬s.HasCache) : ∃ t, blockCache s = .failed t := by
  unfold blockCache
  rw [get_bind]
  cases hcache : s.vnode.cache with
  | some cache =>
    refine absurd (.inl ?_) h
    rw [hcache]
    rfl
  | none =>
    dsimp only
    rw [bind_failed (onOpened_failed (kmalloc_failed fun hroom => h (.inr hroom)))]
    exact ⟨_, rfl⟩

/-- The file is the same with its cache. -/
theorem cached_file (s : Opened) : s.cached.file.inode = s.vnode.inode ∧
    (Settled s.file → Settled s.cached.file) ∧
    s.cached.file.stored = s.file.stored ∧ s.cached.file.Covered = s.file.Covered ∧
    s.cached.file.Readable = s.file.Readable := by
  obtain ⟨volume, directory, inodeNumber, inode, cache, size⟩ := s
  cases cache with
  | none => exact ⟨rfl, fun h => ⟨h.accepted, h.arrays, h.leaf⟩, rfl, rfl, rfl⟩
  | some cache => exact ⟨rfl, id, rfl, rfl, rfl⟩

theorem readFileByBlocks_eq {s : Working} {offset : Nat} {buffer : Buffer} (h : Settled s)
    (hformat : s.inode.format = formatRegular) : readFileByBlocks offset buffer s =
      readRest s.volume.blockBytes offset (min buffer.size (s.inode.sizeLow - offset)) 0 buffer
        s := by
  have hle : s.volume.superblock.blockBytes ≤ 4096 := h.blockSized.le.2
  unfold readFileByBlocks
  rw [get_bind, require_bind hformat, bind_done (h.accepted.blockSize s), require_bind hle]
  by_cases hpast : s.inode.sizeLow ≤ offset
  · rw [if_pos hpast, Nat.sub_eq_zero_of_le hpast, Nat.min_zero, readRest_end (Nat.le_refl 0)]
    rfl
  · rw [if_neg hpast]
    rfl

/-- All that is asked for, as far as the file goes. -/
def DeliversFile (s : Working) (offset wanted : Nat) (buffer : Buffer) : Prop :=
  ∃ out t, readFileCached offset buffer s = .done (out, wanted) t ∧
    ∀ k < wanted, out.bytes k = s.stored (offset + k)

theorem readFileCached_delivers {s : Working} {offset wanted : Nat} {buffer : Buffer}
    (h : Settled s) (hformat : s.inode.format = formatRegular)
    (hwanted : wanted = min buffer.size (s.inode.sizeLow - offset))
    (hreadable : s.Readable offset (offset + wanted)) :
    DeliversFile s offset wanted buffer ↔ s.Covered offset (offset + wanted) := by
  have hlow : s.inode.sizeLow < 2 ^ 32 := get32_lt _ _
  have hroom : wanted ≤ buffer.size := hwanted ▸ Nat.min_le_left _ _
  have hby := @readFileByBlocks_eq s offset buffer h hformat
  rw [← hwanted] at hby
  by_cases hpast : s.inode.sizeLow ≤ offset
  · -- behind the end of the file nothing is wanted
    have hnone : wanted = 0 := by omega
    subst hnone
    refine ⟨fun _ place hlo hhi => absurd hlo (Nat.not_le.mpr hhi), fun _ => ?_⟩
    refine ⟨buffer, s, ?_, fun k hk => absurd hk (Nat.not_lt_zero k)⟩
    rw [← Ending.result_eq_some, readFileCached_result, hby, readRest_end (Nat.le_refl 0)]
    rfl
  have hend : offset + wanted < 2 ^ 32 := by omega
  constructor
  · rintro ⟨out, t, hdone, -⟩
    have hresult := Ending.result_eq_some.mpr hdone
    rw [readFileCached_result, hby] at hresult
    exact readRest_whole h hend hroom (Ending.result_eq_some.mp hresult)
  · intro hcovered
    obtain ⟨out, t, hdone, -, hstored⟩ :=
      readRest_covered h hend hroom (Nat.zero_le _) hcovered hreadable
    refine ⟨out, t, ?_, fun k hk => hstored k (Nat.zero_le k) hk⟩
    rw [← Ending.result_eq_some, readFileCached_result, hby]
    exact Ending.result_eq_some.mpr hdone

theorem onFile_eq_done {α : Type} {m : Effect Working α} {s t : Opened} {a : α} :
    onFile (s.vnode.cache.getD .empty) m s.cached = .done a t ↔
      ∃ w, m s.cached.file = .done a w ∧ (⟨w.volume, { s.cached.vnode with
        inode := w.inode, cache := some w.cache }⟩ : Opened) = t := by
  obtain ⟨volume, directory, inodeNumber, inode, cache, size⟩ := s
  cases cache with
  | none => exact zoom_eq_done
  | some cache => exact zoom_eq_done

/-- A read delivers all that is asked for exactly when no block of the range is a hole or
beyond the double-indirect blocks, and there is memory for the cache. -/
theorem vnodeRead_delivers (s : Opened) (offset : Nat) (buffer : Buffer) (h : Settled s.file)
    (hformat : s.vnode.inode.format = formatRegular)
    (hreadable : s.file.Readable offset (offset + s.readable offset buffer.size)) :
    Delivers s offset buffer ↔
      s.HasCache ∧ s.file.Covered offset (offset + s.readable offset buffer.size) := by
  obtain ⟨hinode, hsettled, hstored, hcovers, hreads⟩ := cached_file s
  unfold Delivers vnodeRead
  by_cases hcache : s.HasCache
  · have hwanted : s.readable offset buffer.size =
        min buffer.size (s.cached.file.inode.sizeLow - offset) := by
      rw [hinode]
      rfl
    have hfile := readFileCached_delivers (hsettled h) (hinode.symm ▸ hformat) hwanted
      (hreads ▸ hreadable)
    rw [bind_done (blockCache_done hcache), ← hcovers, ← hstored, ← hfile]
    constructor
    · rintro ⟨out, t, hdone, hbytes⟩
      obtain ⟨w, hread, -⟩ := onFile_eq_done.mp hdone
      exact ⟨hcache, out, w, hread, hbytes⟩
    · rintro ⟨-, out, w, hread, hbytes⟩
      exact ⟨out, _, onFile_eq_done.mpr ⟨w, hread, rfl⟩, hbytes⟩
  · obtain ⟨t, hfailed⟩ := blockCache_failed hcache
    rw [bind_failed hfailed]
    constructor
    · rintro ⟨_, _, ⟨⟩, -⟩
    · exact fun hboth => absurd hboth.1 hcache

/-- A file of two blocks, the second of them a hole. -/
def holedFile : Opened where
  volume :=
    { sectorCount := 64
      image := put32 (fun _ => 0) 20480 0x64636261
      superblock := put32 (fun _ => 0) 40 16
      kmallocs := [true]
      stale := fun _ => 0xcc }
  vnode :=
    { directory := false
      inodeNumber := 12
      inode := put32 (put32 (put32 (fun _ => 0) 0 0x81a4) 4 2048) 40 20
      cache := none
      size := 2048 }

/-- The first block is read. -/
theorem holedFile_delivers : Delivers holedFile 0 ⟨1024, fun _ => 0⟩ := by
  have hsettled : Settled holedFile.file := ⟨⟨by decide, by decide⟩, ⟨rfl, rfl, rfl⟩, nofun⟩
  have hmapped : ∀ place < 1024,
      holedFile.file.mapped (place / holedFile.file.volume.blockBytes) = some 20 := by
    intro place hplace
    have hsize : holedFile.file.volume.blockBytes = 1024 := by decide
    rw [hsize, Nat.div_eq_of_lt hplace]
    decide
  have hread : holedFile.readable 0 1024 = 1024 := by decide
  have hreadable : holedFile.file.Readable 0 (0 + holedFile.readable 0 1024) := by
    intro place _ hplace
    rw [hread] at hplace
    refine ⟨?_, fun n hn _ => ?_⟩
    · have hsize : holedFile.file.volume.blockBytes = 1024 := by decide
      rw [hsize, Nat.div_eq_of_lt (by omega)]
      exact ⟨fun hsingle => absurd hsingle.1 (by decide), fun hdouble => absurd hdouble (by omega)⟩
    · rw [hmapped place (by omega)] at hn
      cases hn
      decide
  refine (vnodeRead_delivers holedFile 0 ⟨1024, fun _ => 0⟩ hsettled (by decide) hreadable).mpr
    ⟨.inr rfl, fun place _ hplace => ⟨20, by decide, hmapped place ?_⟩⟩
  change place < 0 + holedFile.readable 0 1024 at hplace
  omega

/-- A read of both blocks returns the first alone. -/
theorem holedFile_short : ¬Delivers holedFile 0 ⟨2048, fun _ => 0⟩ := by
  have hshort : (vnodeRead 0 ⟨2048, fun _ => 0⟩ holedFile).returns
      (fun r _ => r.2 = 1024) = true := by
    decide +kernel
  obtain ⟨r, t, hdone, hcount⟩ := Ending.exists_done hshort
  rintro ⟨out, u, hwhole, -⟩
  rw [hdone] at hwhole
  cases hwhole
  have hall : holedFile.readable 0 2048 ≠ 1024 := by decide
  exact hall (of_decide_eq_true hcount)

end MeatySkeleton.Ext2
