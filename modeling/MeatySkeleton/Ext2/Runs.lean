import MeatySkeleton.Ext2.Operations
import MeatySkeleton.Lib.Refinement

/-!
# Runs within bounds

The calls on a mounted volume, in any order and on any vnodes that were looked up. A call is
safe where the superblock's groups fit their bitmaps, as far as it allocates or frees, and
where its scans of directory blocks come to no header that leaves the array (`Fits`). On a
volume whose blocks are smaller than the array and whose groups fit, every run is safe.
-/

namespace MeatySkeleton.Ext2

open Lib Lib.Effect

variable {A B : Prop}

namespace Mounted

/-- What the superblock and the scanned blocks have to be for one call: nothing where nothing is
allocated, freed or searched. -/
def Fits (s : Mounted) : Op → Prop
  | .lookup i name => ∀ node ∈ s.vnodes[i]?, Searchable (Listed name) node.inode s.volume
  | .read .. | .readdir .. => True
  | .write .. => s.volume.superblock.freeBlockCount ≠ 0 → BlocksFit s.volume.superblock
  | .create i name => (s.volume.superblock.freeInodeCount ≠ 0 → InodesFit s.volume.superblock) ∧
      ∀ node ∈ s.vnodes[i]?, Creatable node.inodeNumber node.inode name s.volume
  | .mkdir i name => (s.volume.superblock.freeBlockCount ≠ 0 →
        BlocksFit s.volume.superblock ∧ FreedFit s.volume.superblock) ∧
      (s.volume.superblock.freeInodeCount ≠ 0 → InodesFit s.volume.superblock) ∧
      ∀ node ∈ s.vnodes[i]?, Makeable node.inodeNumber node.inode name s.volume
  | .truncate .. => FreedFit s.volume.superblock

structure Guarded (sb : Superblock) (A B : Prop) (s : Mounted) : Prop where
  volume : Ext2.Guarded sb A B s.volume
  vnodes : ∀ node ∈ s.vnodes, node.Arrays

/-- Between the calls. -/
structure Inv (s : Mounted) : Prop where
  accepted : Accepted s.volume.superblock
  vnodes : ∀ node ∈ s.vnodes, node.Arrays

variable {s : Mounted} {sb : Superblock} {α : Type} {Q : α → Prop}

theorem Inv.guarded (h : s.Inv) (hA : s.volume.superblock.freeBlockCount ≠ 0 → A)
    (hB : s.volume.superblock.freeInodeCount ≠ 0 → B) : Guarded s.volume.superblock A B s :=
  ⟨⟨.refl _ _ _, hA, hB⟩, h.vnodes⟩

theorem Guarded.inv (h : Guarded sb A B s) (hsb : Accepted sb) :
    s.Inv ∧ SameGeometry sb s.volume.superblock :=
  ⟨⟨hsb.guarded h.volume, h.vnodes⟩, h.volume.geometry⟩

theorem vnodeAt_keeps {I : Mounted → Prop} (i : Nat) (directory : Bool) :
    Keeps I (vnodeAt i directory) fun node => ∃ s, I s ∧ s.vnodes[i]? = some node := by
  refine Keeps.get.bind fun s hs => ?_
  cases hnode : s.vnodes[i]? with
  | none => exact .fail
  | some node => exact .require fun _ => .pure ⟨s, hs, hnode⟩

theorem onVolume_keeps {m : Effect Volume α} (hm : Keeps (Ext2.Guarded sb A B) m Q) :
    Keeps (Guarded sb A B) (Mounted.onVolume m) Q :=
  hm.zoom (fun _ hs => hs.volume) fun _ _ hs hv => ⟨hv, hs.vnodes⟩

theorem onFile_keeps {m : Effect Opened α} {i : Nat} (hm : Keeps (GuardedOpened sb A B) m Q) :
    Keeps (Guarded sb A B) (Mounted.onFile i m) Q := by
  refine (vnodeAt_keeps i false).bind fun node hnode => ?_
  obtain ⟨s0, hs0, hnode⟩ := hnode
  have harrays := hs0.vnodes node (List.mem_of_getElem? hnode)
  refine hm.zoom (fun s hs => ⟨hs.volume, harrays⟩) fun s o hs ho => ⟨ho.volume, fun n hn => ?_⟩
  obtain hold | rfl := List.mem_or_eq_of_mem_set hn
  · exact hs.vnodes n hold
  · exact ho.vnode

/-- A call that makes a vnode adds one without a cache. -/
theorem inDirectory_meets {m : Vnode → Effect Volume Vnode} {i : Nat}
    {P : Vnode → Volume → Prop} (h : Guarded sb A B s)
    (hP : ∀ node ∈ s.vnodes[i]?, P node s.volume)
    (hm : ∀ node, Meets (fun v => Ext2.Guarded sb A B v ∧ P node v) (m node)
      (fun n v => Ext2.Guarded sb A B v ∧ n.cache = none) (Ext2.Guarded sb A B)) :
    Meets (fun t => t = s) (inDirectory i m) (fun _ => Guarded sb A B) (Guarded sb A B) := by
  have hkeep : ∀ t, t = s → Guarded sb A B t := fun t ht => ht ▸ h
  refine Keeps.meets (vnodeAt_keeps i true) hkeep fun node hnode => ?_
  obtain ⟨t, rfl, hnode⟩ := hnode
  have hcall : Meets (fun u => u = t) (onVolume (m node))
      (fun found u => ∃ v, u = { t with volume := v } ∧ Ext2.Guarded sb A B v ∧ found.cache = none)
      (Guarded sb A B) := by
    refine Meets.mono (Meets.zoom (hm node) ⟨h.volume, hP node hnode⟩) (fun _ hu => hu)
      (fun _ _ hu => hu) fun u hu => ?_
    obtain ⟨v, rfl, hv⟩ := hu
    exact ⟨hv, h.vnodes⟩
  refine Meets.bind hcall fun found t ht => ?_
  obtain ⟨v, rfl, hv, hcache⟩ := ht
  refine ⟨hv, fun n hn => ?_⟩
  obtain hold | rfl := (List.mem_append.mp hn).imp_right List.mem_singleton.mp
  · exact h.vnodes n hold
  · intro cache hc
    rw [hcache] at hc
    exact nomatch hc

/-- What is left of a state by one call. -/
def Leaves (s t : Mounted) : Prop := t.Inv ∧ SameGeometry s.volume.superblock t.volume.superblock

/-- A call that fits is safe. -/
theorem perform_meets (h : s.Inv) {op : Op} (hfits : s.Fits op) :
    Meets (fun t => t = s) (perform op) (fun _ => s.Leaves) s.Leaves := by
  have hsb := h.accepted
  -- from the superblock of the step to the invariant
  have hmeets {A B : Prop} {m : Effect Mounted Unit} (hm : Meets (fun t => t = s) m
      (fun _ => Guarded s.volume.superblock A B) (Guarded s.volume.superblock A B)) :
      Meets (fun t => t = s) m (fun _ => s.Leaves) s.Leaves :=
    Meets.mono hm (fun _ ht => ht) (fun _ _ ht => ht.inv hsb) fun _ ht => ht.inv hsb
  have hkeeps {A B : Prop} {m : Effect Mounted Unit}
      (hs : Guarded s.volume.superblock A B s)
      (hm : Keeps (Guarded s.volume.superblock A B) m fun _ => True) :
      Meets (fun t => t = s) m (fun _ => s.Leaves) s.Leaves :=
    hmeets (Meets.mono hm (fun _ ht => ht ▸ hs) (fun _ _ ht => ht.1) fun _ ht => ht)
  have hfree : Guarded s.volume.superblock True True s :=
    h.guarded (fun _ => trivial) fun _ => trivial
  cases op with
  | lookup i name =>
    exact hmeets (inDirectory_meets hfree hfits fun node => vnodeLookup_meets hsb node.inode name)
  | read i offset buffer =>
    exact hkeeps hfree ((onFile_keeps (vnodeRead_keeps hsb offset buffer)).bind fun _ _ =>
      .pure trivial)
  | readdir i offset =>
    refine hkeeps hfree ((vnodeAt_keeps i true).bind fun node _ => ?_)
    exact (onVolume_keeps (readdir_keeps hsb node.inode offset)).bind fun _ _ => .pure trivial
  | write i offset buffer =>
    refine hkeeps (h.guarded hfits fun _ => trivial) ?_
    exact (onFile_keeps (vnodeWrite_keeps hsb id offset buffer)).bind fun _ _ => .pure trivial
  | create i name =>
    refine hmeets (inDirectory_meets (h.guarded (fun _ => trivial) hfits.1) hfits.2 fun node => ?_)
    exact vnodeCreate_meets hsb id node.inodeNumber node.inode name
  | mkdir i name =>
    refine hmeets (inDirectory_meets (h.guarded hfits.1 hfits.2.1) hfits.2.2 fun node => ?_)
    exact vnodeMkdir_meets hsb id id node.inodeNumber node.inode name
  | truncate i size =>
    exact hkeeps hfree (onFile_keeps (vnodeTruncate_keeps hsb hfits trivial size))

theorem step_returns (h : s.Inv) {op : Op} (hfits : s.Fits op) :
    ∃ ok t, step s op = some (ok, t) ∧ s.Leaves t := by
  have hmeets := perform_meets h hfits s rfl
  unfold step
  cases hend : perform op s with
  | done _ t =>
    rw [hend] at hmeets
    exact ⟨true, t, rfl, hmeets⟩
  | failed t =>
    rw [hend] at hmeets
    exact ⟨false, t, rfl, hmeets⟩
  | fault =>
    rw [hend] at hmeets
    exact hmeets.elim

theorem run_returns (h : s.Inv) {ops : List Op} (hfits : Admitted step Fits s ops) :
    (runAll step s ops).isSome := by
  have hrefines : Refines step (fun (_ : Unit) _ _ _ => True) Inv Fits fun _ => () := by
    intro t op ht hop
    obtain ⟨ok, u, hstep, hleaves⟩ := step_returns ht hop
    exact ⟨ok, u, hstep, hleaves.1, trivial⟩
  obtain ⟨answers, t, hrun, -⟩ := hrefines.run h hfits
  rw [hrun]
  rfl

end Mounted

/-! ## Volumes with room -/

/-- Blocks smaller than the arrays they are read into, and groups no larger than a bitmap. -/
structure Roomy (sb : Superblock) : Prop where
  blocks : sb.logBlockSize ≤ 1
  allocated : BlocksFit sb
  freed : FreedFit sb
  inodes : InodesFit sb

section
variable {sb sb' : Superblock} {v : Volume}

section

variable (h : Roomy sb)

include h

theorem Roomy.congr (hsame : SameGeometry sb sb') : Roomy sb' := by
  obtain ⟨hinodeCount, hblockCount, hfirst, hlog, hblocks, hinodes⟩ := hsame
  obtain ⟨hsmall, ⟨hnonempty, hgroups⟩, hfreed, hfit⟩ := h
  refine ⟨by rw [hlog]; exact hsmall, ⟨by rw [hblocks]; exact hnonempty, ?_⟩, ?_, ?_⟩
  · unfold blockGroupCount blocksInGroup groupFirstBlock at *
    rw [hblockCount, hfirst, hblocks]
    exact hgroups
  · unfold FreedFit at *
    rw [hblockCount, hfirst, hblocks]
    exact hfreed
  · unfold InodesFit inodeGroupCount inodesInGroup at *
    rw [hinodeCount, hinodes]
    exact hfit

/-- Every directory can be scanned. -/
theorem Roomy.searchable {stop : Entry → Prop} (hv : Guarded sb A B v) (directory : Inode) :
    Searchable stop directory v := by
  intro hlog
  rw [hv.geometry.logBlockSize] at hlog
  have hsmall := h.blocks
  omega

theorem Roomy.linkable (hsb : Accepted sb) (hv : Guarded sb A B v) (n : Nat) (name : Name) :
    Linkable n name v :=
  Meets.reached (Meets.mono (readInode_keeps hsb n) (fun _ hw => hw)
    (fun directory _ hw => h.searchable hw.1 directory) fun _ hw => hw) hv

theorem Roomy.lookup (hsb : Accepted sb) (directory : Inode) (name : Name) :
    Meets (Guarded sb A B) (attempt (vnodeLookup directory name)) (fun _ => Guarded sb A B)
      (Guarded sb A B) :=
  Meets.attempt (Meets.mono (vnodeLookup_meets hsb directory name)
    (fun _ hv => ⟨hv, h.searchable hv directory⟩) (fun _ _ hv => hv.1) fun _ hv => hv)

theorem Roomy.link (hsb : Accepted sb) (n : Nat) (name : Name)
    (child fileType links : Nat) :
    Meets (Guarded sb A B) (linkNewChild n name child fileType links) (fun _ => Guarded sb A B)
      (Guarded sb A B) :=
  Meets.mono (linkNewChild_meets hsb n name child fileType links)
    (fun _ hv => ⟨hv, h.linkable hsb hv n name⟩) (fun _ _ hv => hv) fun _ hv => hv

theorem Roomy.creatable (hsb : Accepted sb) (hv : Guarded sb True True v) (n : Nat)
    (directory : Inode) (name : Name) : Creatable n directory name v := by
  refine ⟨h.searchable hv directory, Meets.reached (E := Guarded sb True True) ?_ hv⟩
  refine Meets.mono (h.lookup hsb directory name) (fun _ hw => hw) (fun _ w hw _ => ?_)
    fun _ hw => hw
  refine Meets.reached (Meets.mono (allocateInodeWithMode_keeps hsb (fun _ => h.inodes) _)
    (fun _ hu => hu) (fun child u hu => ⟨h.linkable hsb hu.1 n name, ?_⟩) fun _ hu => hu) hw
  exact Meets.reached (Meets.mono (h.link hsb n name child typeRegular 1) (fun _ ht => ht)
    (fun _ _ ht => h.searchable ht directory) fun _ ht => ht) hu.1

theorem Roomy.makeable (hsb : Accepted sb) (hv : Guarded sb True True v) (n : Nat)
    (directory : Inode) (name : Name) : Makeable n directory name v := by
  refine ⟨h.searchable hv directory, Meets.reached (E := Guarded sb True True) ?_ hv⟩
  refine Meets.mono (h.lookup hsb directory name) (fun _ hw => hw) (fun _ w hw _ => ?_)
    fun _ hw => hw
  have hprepare := prepareDirectory_keeps (A := True) (B := True) hsb
    (fun _ => ⟨h.allocated, h.freed⟩) (fun _ => h.inodes) n
  refine Meets.reached (Meets.mono hprepare (fun _ hu => hu)
    (fun r u hu => ⟨h.linkable hsb hu.1 n name, ?_⟩) fun _ hu => hu) hw
  refine Meets.reached (E := Guarded sb True True) (Meets.mono
    (Meets.attempt (h.link hsb n name r.1 typeDirectory 2)) (fun _ ht => ht)
    (fun _ _ ht _ => h.searchable ht directory) fun _ ht => ht) hu.1

end

end

namespace Mounted

variable {s : Mounted}

theorem fits_roomy (h : s.Inv) (hroomy : Roomy s.volume.superblock) (op : Op) : s.Fits op := by
  have hguarded : Ext2.Guarded s.volume.superblock True True s.volume :=
    ⟨.refl _ _ _, fun _ => trivial, fun _ => trivial⟩
  cases op with
  | lookup i name => exact fun node _ => hroomy.searchable hguarded node.inode
  | read i offset buffer => trivial
  | readdir i offset => trivial
  | write i offset buffer => exact fun _ => hroomy.allocated
  | create i name =>
    exact ⟨fun _ => hroomy.inodes, fun node _ =>
      hroomy.creatable h.accepted hguarded node.inodeNumber node.inode name⟩
  | mkdir i name =>
    refine ⟨fun _ => ⟨hroomy.allocated, hroomy.freed⟩, fun _ => hroomy.inodes, fun node _ => ?_⟩
    exact hroomy.makeable h.accepted hguarded node.inodeNumber node.inode name
  | truncate i size => exact hroomy.freed

/-- Every call fits, and leaves a volume with room. -/
theorem admitted_roomy {ops : List Op} : ∀ {s : Mounted}, s.Inv → Roomy s.volume.superblock →
    Admitted step Fits s ops := by
  induction ops with
  | nil => exact fun _ _ => trivial
  | cons op ops ih =>
    intro s h hroomy
    obtain ⟨ok, t, hstep, hleaves⟩ := step_returns h (fits_roomy h hroomy op)
    exact .cons (fits_roomy h hroomy op) hstep (ih hleaves.1 (hroomy.congr hleaves.2))

end Mounted

/-! ## From mounting on -/

/-- The state in which the first call is made. -/
theorem mount_inv {v w : Volume} {root : Vnode} (h : MountFits v.onDevice)
    (hmount : mount v = .done root w) :
    Mounted.Inv ⟨w, [root]⟩ ∧ SameGeometry v.onDevice w.superblock := by
  have hmeets := mount_meets h v rfl
  rw [hmount] at hmeets
  obtain ⟨hsb, hsame, hcache⟩ := hmeets
  refine ⟨⟨hsb, fun node hnode cache hc => ?_⟩, hsame⟩
  rw [List.mem_singleton.mp hnode, hcache] at hc
  exact nomatch hc

theorem mount_returns {v : Volume} (h : MountFits v.onDevice) : mount v ≠ .fault := by
  intro hmount
  have hmeets := mount_meets h v rfl
  rw [hmount] at hmeets
  exact hmeets

/-- Neither mounting nor a run of calls that fit leaves an array, divides by zero or shifts
too far, whatever the volume holds. -/
theorem mounted_within_bounds {v : Volume} (h : MountFits v.onDevice) :
    mount v ≠ .fault ∧ ∀ root w, mount v = .done root w → ∀ ops,
      Admitted Mounted.step Mounted.Fits ⟨w, [root]⟩ ops →
      (runAll Mounted.step ⟨w, [root]⟩ ops).isSome :=
  ⟨mount_returns h, fun _ _ hmount _ hops => Mounted.run_returns (mount_inv h hmount).1 hops⟩

/-- On a volume with room every call fits. -/
theorem mounted_admitted {v w : Volume} {root : Vnode} (h : MountFits v.onDevice)
    (hroomy : Roomy v.onDevice) (hmount : mount v = .done root w) (ops : List Op) :
    Admitted Mounted.step Mounted.Fits ⟨w, [root]⟩ ops := by
  obtain ⟨hinv, hsame⟩ := mount_inv h hmount
  exact Mounted.admitted_roomy hinv (hroomy.congr hsame)

/-- An image that is zero but for these words. -/
def imageOf (words : List (Nat × Nat)) : Mem :=
  words.foldr (fun word image => put32 image word.1 word.2) fun _ => 0

/-- 64 blocks of 1024 bytes in one group, with an empty root directory. -/
def emptyVolume : Volume where
  sectorCount := 128
  image := imageOf
    [(1024, 16), (1028, 64), (1036, 56), (1040, 6), (1044, 1), (1048, 0), (1056, 8192), (1064, 16),
      (1080, 0xEF53), (1100, 1), (1108, 11), (1112, 128),
      (2048, 3), (2052, 4), (2056, 5), (2060, 56 + 6 * 65536), (3072, 0x7f), (4096, 0x3ff),
      (5248, 0x41ed), (5252, 1024), (5272, 2 * 65536), (5276, 2), (5288, 7),
      (7168, 2), (7172, 0x0201000c), (7176, 46), (7180, 2), (7184, 0x020203f4), (7188, 0x2e2e)]
  superblock := fun _ => 0
  kmallocs := List.replicate 50 true
  stale := fun _ => 0xcc

theorem emptyVolume_run : ∃ root w, mount emptyVolume = .done root w ∧
    (runAll Mounted.step ⟨w, [root]⟩ [.lookup 0 [97], .create 0 [97], .write 1 0 ⟨3000, fun _ => 7⟩,
      .read 1 0 ⟨3000, fun _ => 0⟩, .mkdir 0 [98], .readdir 0 0, .truncate 1 0]).isSome := by
  have hfits : MountFits emptyVolume.onDevice := by
    unfold MountFits
    decide
  have hroomy : Roomy emptyVolume.onDevice := by
    refine ⟨by decide, ⟨by decide, by unfold bitmapBits; decide⟩, fun _ block _ _ => ?_, ?_⟩
    · have hgroup : emptyVolume.onDevice.blocksPerGroup = 8192 := by decide
      rw [hgroup]
      unfold bitmapBits
      omega
    · unfold InodesFit bitmapBits
      decide
  have hreturns : (mount emptyVolume).returns (fun _ _ => true) = true := by
    decide +kernel
  obtain ⟨root, w, hmount, -⟩ := Ending.exists_done hreturns
  exact ⟨root, w, hmount, (mounted_within_bounds hfits).2 root w hmount _
    (mounted_admitted hfits hroomy hmount _)⟩

/-- Blocks of 4096 bytes, and a root directory whose first record leaves two bytes behind it. -/
def raggedVolume : Volume where
  sectorCount := 128
  image := imageOf
    [(1024, 16), (1028, 16), (1048, 2), (1056, 16), (1064, 16), (1080, 0xEF53), (1112, 128),
      (4104, 2), (8320, 0x41ed), (8324, 4096), (8360, 3), (12292, 4094)]
  superblock := fun _ => 0
  kmallocs := List.replicate 50 true
  stale := fun _ => 0xcc

/-- A lookup reads the header of a record behind the array. -/
theorem raggedVolume_lookup : raggedVolume.onDevice.magic = 0xEF53 ∧
    ∃ root w, mount raggedVolume = .done root w ∧
      runAll Mounted.step ⟨w, [root]⟩ [.lookup 0 [97]] = none := by
  have hreturns : (mount raggedVolume).returns (fun root w =>
      (runAll Mounted.step ⟨w, [root]⟩ [.lookup 0 [97]]).isNone) = true := by
    decide +kernel
  obtain ⟨root, w, hmount, hnone⟩ := Ending.exists_done hreturns
  exact ⟨by decide, root, w, hmount, Option.isNone_iff_eq_none.mp hnone⟩

end MeatySkeleton.Ext2
