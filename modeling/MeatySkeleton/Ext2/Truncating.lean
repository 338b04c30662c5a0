import MeatySkeleton.Ext2.Freeing
import MeatySkeleton.Ext2.Reading
import MeatySkeleton.Ext2.Runs

/-!
# Truncating files

`ext2_vnode_truncate` frees the blocks of a file in one order: the direct blocks, then the
entries of each pointer table and the table itself (`Volume.fileBlocks`). The pointer tables
are read while they are being freed, but no block for files changes then. It looks for a
triple-indirect block last, when all others are free.
-/

namespace MeatySkeleton.Ext2

open List Lib Lib.Effect

/-! ## The blocks of a file -/

/-- The values of `f` that are not zero, from `i` on. -/
def nonzero (f : Nat → Nat) : Nat → Nat → List Nat
  | 0, _ => []
  | left + 1, i => if f i = 0 then nonzero f left (i + 1) else f i :: nonzero f left (i + 1)

namespace Volume

variable (v : Volume)

/-- Entry `i` of the pointer table in block `n`. -/
def pointer (n i : Nat) : Nat := get32 v.image (n * v.blockBytes + 4 * i)

def pointers (n : Nat) : List Nat := nonzero (v.pointer n) (v.blockBytes / 4) 0

/-- The blocks behind a pointer table, and the table. -/
def singleBlocks (n : Nat) : List Nat := if n = 0 then [] else v.pointers n ++ [n]

def doubleBlocks (n : Nat) : List Nat :=
  if n = 0 then [] else (v.pointers n).flatMap v.singleBlocks ++ [n]

/-- The data blocks and the pointer blocks of a file. -/
def fileBlocks (inode : Inode) : List Nat :=
  nonzero inode.block 12 0 ++ v.singleBlocks (inode.block 12) ++ v.doubleBlocks (inode.block 13)

/-- The pointer tables of a file are blocks for files. -/
structure Tabled (inode : Inode) : Prop where
  single : inode.block 12 ≠ 0 → v.Data (inode.block 12)
  root : inode.block 13 ≠ 0 → v.Data (inode.block 13)
  leaves : inode.block 13 ≠ 0 → ∀ n ∈ v.pointers (inode.block 13), v.Data n

end Volume

variable {v w : Volume} {f f' : Nat → Nat} {left i n : Nat} {l l' : List Nat}

theorem nonzero_congr (h : ∀ j, i ≤ j → j < i + left → f j = f' j) :
    nonzero f left i = nonzero f' left i := by
  induction left generalizing i with
  | zero => rfl
  | succ left ih =>
    unfold nonzero
    rw [h i (Nat.le_refl i) (by omega), ih fun j hj hj' => h j (by omega) (by omega)]

theorem mem_nonzero (h : n ∈ nonzero f left i) : n ≠ 0 := by
  induction left generalizing i with
  | zero => cases h
  | succ left ih =>
    unfold nonzero at h
    split at h
    next => exact ih h
    next hne =>
      rcases mem_cons.mp h with rfl | hrest
      · exact hne
      · exact ih hrest

/-- The tables are the same where the blocks are. -/
theorem pointers_congr (hbytes : w.blockBytes = v.blockBytes)
    (hdata : ∀ x < v.blockBytes, w.block n x = v.block n x) : w.pointers n = v.pointers n := by
  unfold Volume.pointers Volume.pointer
  rw [hbytes]
  refine nonzero_congr fun j _ hj => get32_congr fun k hk => ?_
  have hbyte := hdata (4 * j + k) (by omega)
  unfold Volume.block at hbyte
  rw [hbytes] at hbyte
  rw [Nat.add_assoc]
  exact hbyte

theorem Released.singleBlocks (h : Released v w l) (hn : n ≠ 0 → v.Data n) :
    w.singleBlocks n = v.singleBlocks n := by
  unfold Volume.singleBlocks
  split
  next => rfl
  next hne => rw [pointers_congr h.same.blockBytes (h.data n (hn hne))]

theorem Released.doubleBlocks (h : Released v w l) (hn : n ≠ 0 → v.Data n)
    (hleaves : n ≠ 0 → ∀ k ∈ v.pointers n, v.Data k) : w.doubleBlocks n = v.doubleBlocks n := by
  unfold Volume.doubleBlocks
  split
  next => rfl
  next hne =>
    rw [pointers_congr h.same.blockBytes (h.data n (hn hne))]
    congr 1
    exact flatMap_congr fun k hk => h.singleBlocks fun _ => hleaves hne k hk

/-! ## Loops over the tables -/

theorem get32_done {σ : Type} {b : Buffer} {x : σ} (h : i + 4 ≤ b.size) :
    b.get32 i x = .done (get32 b.bytes i) x := by
  unfold Buffer.get32
  rw [demand_bind h]
  rfl

/-- The loop over a table frees its entries that are not zero. -/
theorem freeEntries_eq {table : Buffer} (hroom : 4 * (i + left) ≤ table.size) (v : Volume) :
    freeEntries table left i v =
      freeList (nonzero (fun j => get32 table.bytes (4 * j)) left i) v := by
  induction left generalizing i v with
  | zero => rfl
  | succ left ih =>
    unfold freeEntries nonzero
    rw [bind_done (get32_done (by omega))]
    by_cases hzero : get32 table.bytes (4 * i) = 0
    · rw [when_neg (not_not.mpr hzero), if_pos hzero]
      exact ih (by omega) v
    · rw [when_pos hzero, if_neg hzero]
      exact bind_cont fun _ w _ => ih (by omega) w

theorem Layout.readTable (h : Layout v) {b : Buffer} (hb : b.size = v.blockBytes) (hn : v.Data n) :
    ∃ table : Buffer, readBlock v.blockBytes n b v = .done table v ∧ table.size = v.blockBytes ∧
      nonzero (fun j => get32 table.bytes (4 * j)) (v.blockBytes / 4) 0 = v.pointers n := by
  refine ⟨_, readBlock_done h.sized (h.hasBlock hn.high) (Nat.le_of_eq hb.symm), hb, ?_⟩
  refine nonzero_congr fun j _ hj => ?_
  show get32 (copyFrom _ 0 _ _ _) _ = get32 _ _
  unfold get32
  rw [copyFrom_low (by omega), copyFrom_low (by omega), copyFrom_low (by omega),
    copyFrom_low (by omega)]
  rfl

theorem freeList_single (n : Nat) (v : Volume) : freeList [n] v = freeBlock n v := by
  show (freeBlock n >>= pure) v = freeBlock n v
  exact bind_pure_eq

/-- The entries of a table that was read, and the table. -/
theorem freeTable_eq {table : Buffer} {bs : Nat} (hbs : bs = v.blockBytes)
    (hsize : table.size = v.blockBytes) (hne : n ≠ 0)
    (hentries : nonzero (fun j => get32 table.bytes (4 * j)) (v.blockBytes / 4) 0 = v.pointers n) :
    (freeEntries table (bs / 4) 0 >>= fun _ => freeBlock n) v = freeList (v.singleBlocks n) v := by
  subst hbs
  unfold Volume.singleBlocks
  rw [if_neg hne, freeList_append, bind_congr (freeEntries_eq (by omega) v), hentries]
  exact bind_cont fun _ w _ => (freeList_single n w).symm

/-- The loop over a root table. -/
theorem freeLeaves_eq {root leaf : Buffer} {bs : Nat} (h : Layout v) (hbs : bs = v.blockBytes)
    (hroot : 4 * (i + left) ≤ root.size) (hleaf : leaf.size = v.blockBytes)
    (hdata : ∀ n ∈ nonzero (fun j => get32 root.bytes (4 * j)) left i, v.Data n) :
    freeLeaves bs root left i leaf v =
      freeList ((nonzero (fun j => get32 root.bytes (4 * j)) left i).flatMap v.singleBlocks) v := by
  induction left generalizing i v leaf with
  | zero => rfl
  | succ left ih =>
    unfold freeLeaves
    unfold nonzero at hdata ⊢
    rw [bind_done (get32_done (by omega))]
    by_cases hzero : get32 root.bytes (4 * i) = 0
    · rw [if_pos hzero] at hdata
      rw [if_pos hzero, if_pos hzero]
      exact ih h hbs (by omega) hleaf hdata
    · rw [if_neg hzero] at hdata
      rw [if_neg hzero, if_neg hzero]
      obtain ⟨table, hread, hsize, hentries⟩ := h.readTable hleaf (hdata _ mem_cons_self)
      rw [← hbs] at hread
      rw [flatMap_cons, freeList_append, bind_done hread, ← bind_bind_eq,
        bind_congr (freeTable_eq hbs hsize hzero hentries)]
      -- the tables behind are what they were
      refine bind_cont fun _ w hdone => ?_
      obtain ⟨hl, rfl⟩ := freeList_eq_done h hdone
      have hrest := released h hl
      have hdata' : ∀ n ∈ nonzero (fun j => get32 root.bytes (4 * j)) left (i + 1), v.Data n :=
        fun n hn => hdata n (mem_cons_of_mem _ hn)
      have hblocks := hrest.same.blockBytes
      rw [ih (hrest.same.layout h) (hbs.trans hblocks.symm) (by omega) (hsize.trans hblocks.symm)
        fun n hn => hrest.same.data (hdata' n hn)]
      congr 1
      refine flatMap_congr fun n hn => ?_
      exact hrest.singleBlocks fun _ => hdata' n hn

/-- The single-indirect part of `ext2_vnode_truncate`. -/
def freeSingle (blockSize n : Nat) (b : Buffer) : Effect Volume Unit := do
  let table ← readBlock blockSize n b
  freeEntries table (blockSize / 4) 0
  freeBlock n

/-- The double-indirect part. -/
def freeDouble (blockSize n : Nat) (b : Buffer) : Effect Volume Unit := do
  let root ← readBlock blockSize n b
  freeLeaves blockSize root (blockSize / 4) 0 b
  freeBlock n

section
variable {b : Buffer} {bs : Nat} (h : Layout v) (hbs : bs = v.blockBytes)
  (hb : b.size = v.blockBytes) (hne : n ≠ 0) (hn : v.Data n)
include h hbs hb hne hn

theorem freeSingle_eq : freeSingle bs n b v = freeList (v.singleBlocks n) v := by
  subst hbs
  obtain ⟨table, hread, hsize, hentries⟩ := h.readTable hb hn
  unfold freeSingle
  rw [bind_done hread]
  exact freeTable_eq rfl hsize hne hentries

theorem freeDouble_eq (hleaves : ∀ k ∈ v.pointers n, v.Data k) :
    freeDouble bs n b v = freeList (v.doubleBlocks n) v := by
  subst hbs
  obtain ⟨root, hread, hsize, hentries⟩ := h.readTable hb hn
  unfold freeDouble Volume.doubleBlocks
  rw [← hentries] at hleaves
  rw [bind_done hread, if_neg hne, freeList_append,
    bind_congr (freeLeaves_eq h rfl (by omega) hb hleaves), hentries]
  exact bind_cont fun _ w _ => (freeList_single n w).symm

end

/-! ## The parts of a truncation -/

variable {s t : Opened} {m m' : Effect Opened Unit} {lo mid hi : Nat} {inode inode' : Inode}

/-- The pointers of an inode from `lo` up to `hi` are cleared. -/
structure PointersCleared (inode inode' : Inode) (lo hi : Nat) : Prop where
  within : Within inode inode' (40 + 4 * lo) (40 + 4 * hi)
  zero : ∀ j, lo ≤ j → j < hi → inode'.block j = 0

theorem PointersCleared.block (h : PointersCleared inode inode' lo hi) {j : Nat}
    (hj : j < lo ∨ hi ≤ j) : inode'.block j = inode.block j :=
  h.within.get32 (by omega)

theorem PointersCleared.trans {inode'' : Inode} (h : PointersCleared inode inode' lo mid)
    (h' : PointersCleared inode' inode'' mid hi) (hlo : lo ≤ mid) (hhi : mid ≤ hi) :
    PointersCleared inode inode'' lo hi where
  within := (h.within.mono (Nat.le_refl _) (by omega)).trans
    (h'.within.mono (by omega) (Nat.le_refl _))
  zero j hj hj' := by
    by_cases hmid : mid ≤ j
    · exact h'.zero j hmid hj'
    · rw [h'.block (by omega)]
      exact h.zero j hj (by omega)

/-- How a part of `ext2_vnode_truncate` ends that frees the blocks of `l` in this order and
clears the pointers from `lo` up to `hi`. -/
structure Frees (l : List Nat) (lo hi : Nat) (m : Effect Opened Unit) (s : Opened) : Prop where
  freed : s.volume.Freeable l → ∃ inode, PointersCleared s.vnode.inode inode lo hi ∧
    (l = [] → inode = s.vnode.inode) ∧
    m s = .done () ⟨s.volume.freedAll l, { s.vnode with inode }⟩
  stopped : ¬s.volume.Freeable l → ∃ l₁ n l₂ t, l = l₁ ++ n :: l₂ ∧ s.volume.Freeable l₁ ∧
    ¬(s.volume.freedAll l₁).CanFree n ∧ m s = .failed t ∧ t.volume = s.volume.freedAll l₁ ∧
    (l₁ = [] → t.vnode = s.vnode)

theorem Frees.congr (h : Frees l lo hi m s) (heq : m' s = m s) : Frees l lo hi m' s where
  freed := by
    rw [heq]
    exact h.freed
  stopped := by
    rw [heq]
    exact h.stopped

/-- One part after another. -/
theorem Frees.bind (hlayout : Layout s.volume) (hlo : lo ≤ mid) (hhi : mid ≤ hi)
    (hm : Frees l lo mid m s)
    (hm' : ∀ inode, PointersCleared s.vnode.inode inode lo mid → s.volume.Freeable l →
      Frees l' mid hi m' ⟨s.volume.freedAll l, { s.vnode with inode }⟩) :
    Frees (l ++ l') lo hi (m >>= fun _ => m') s where
  freed hboth := by
    obtain ⟨hl, hl'⟩ := (freeable_append hlayout).mp hboth
    obtain ⟨inode, hcleared, hsame, hdone⟩ := hm.freed hl
    obtain ⟨inode', hcleared', hsame', hdone'⟩ := (hm' inode hcleared hl).freed hl'
    refine ⟨inode', hcleared.trans hcleared' hlo hhi, fun hnil => ?_, ?_⟩
    · obtain ⟨hnil, hnil'⟩ := append_eq_nil_iff.mp hnil
      rw [hsame' hnil', ← hsame hnil]
    · rw [bind_done hdone, hdone', freedAll_append]
  stopped hboth := by
    by_cases hl : s.volume.Freeable l
    · have hl' : ¬(s.volume.freedAll l).Freeable l' := fun hl' =>
        hboth ((freeable_append hlayout).mpr ⟨hl, hl'⟩)
      obtain ⟨inode, hcleared, hsame, hdone⟩ := hm.freed hl
      obtain ⟨l1, n, l2, t, rfl, hl1, hn, hfailed, hvolume, hvnode⟩ :=
        (hm' inode hcleared hl).stopped hl'
      refine ⟨l ++ l1, n, l2, t, (append_assoc _ _ _).symm,
        (freeable_append hlayout).mpr ⟨hl, hl1⟩, ?_, ?_, ?_, fun hnil => ?_⟩
      · rw [freedAll_append]
        exact hn
      · rw [bind_done hdone]
        exact hfailed
      · rw [freedAll_append]
        exact hvolume
      · obtain ⟨hnil, hnil'⟩ := append_eq_nil_iff.mp hnil
        rw [hvnode hnil', hsame hnil]
    · obtain ⟨l1, n, l2, t, rfl, hl1, hn, hfailed, hvolume, hvnode⟩ := hm.stopped hl
      exact ⟨l1, n, l2 ++ l', t, append_assoc _ _ _, hl1, hn, bind_failed hfailed, hvolume, hvnode⟩

theorem onOpened_bind {α β : Type} (m : Effect Volume α) (f : α → Effect Volume β) (s : Opened) :
    onOpened (m >>= f) s = (onOpened m >>= fun a => onOpened (f a)) s :=
  zoom_bind (fun _ => rfl) fun _ _ => rfl

theorem frees_nothing (s : Opened) (hzero : s.vnode.inode.block i = 0) :
    Frees [] i (i + 1) (pure ()) s where
  freed _ := ⟨s.vnode.inode, ⟨.refl _ _ _, fun j hj hj' => by
    rw [Nat.le_antisymm (Nat.lt_succ_iff.mp hj') hj]
    exact hzero⟩, fun _ => rfl, rfl⟩
  stopped hnot := absurd (.nil _) hnot

/-- The blocks of one pointer, and the pointer. -/
theorem frees_pointer {m : Effect Volume Unit} (hlayout : Layout s.volume)
    (hm : m s.volume = freeList l s.volume) (hl : l ≠ []) :
    Frees l i (i + 1) (onOpened m >>= fun _ => setInodeBlock i 0) s where
  freed hfree := by
    have hdone := freeList_done hlayout hfree
    rw [← hm] at hdone
    refine ⟨s.vnode.inode.setBlock i 0, ⟨put32_within _ _ _, fun j hj hj' => ?_⟩,
      fun hnil => absurd hnil hl, ?_⟩
    · rw [Nat.le_antisymm (Nat.lt_succ_iff.mp hj') hj]
      exact get32_put32 _ _ _
    · rw [bind_done (onOpened_done hdone)]
      rfl
  stopped hnot := by
    obtain ⟨l1, n, l2, hsplit, hl1, hn, hfailed⟩ := freeList_stopped hlayout hnot
    rw [← hm] at hfailed
    exact ⟨l1, n, l2, _, hsplit, hl1, hn, bind_failed (onOpened_failed hfailed), rfl, fun _ => rfl⟩

/-- A pointer that may be zero. -/
theorem frees_when {m : Effect Volume Unit} {p : Nat} (hlayout : Layout s.volume)
    (hp : s.vnode.inode.block i = p) (hl : p = 0 → l = [])
    (hm : p ≠ 0 → m s.volume = freeList l s.volume ∧ l ≠ []) :
    Frees l i (i + 1) (when (p ≠ 0) do
      onOpened m
      setInodeBlock i 0) s := by
  subst hp
  unfold when
  by_cases hzero : s.vnode.inode.block i = 0
  · rw [if_neg (not_not.mpr hzero), hl hzero]
    exact frees_nothing s hzero
  · rw [if_pos hzero]
    exact frees_pointer hlayout (hm hzero).1 (hm hzero).2

/-- The loop over the direct blocks. -/
theorem freeDirect_frees (hlayout : Layout s.volume) (hi : i + left ≤ 15) :
    Frees (nonzero s.vnode.inode.block left i) i (i + left) (freeDirect left i) s := by
  induction left generalizing i s with
  | zero =>
    refine ⟨fun _ => ⟨s.vnode.inode, ⟨.refl _ _ _, fun j hj hj' => ?_⟩, fun _ => rfl, rfl⟩,
      fun hnot => absurd (.nil _) hnot⟩
    omega
  | succ left ih =>
    have hlist : nonzero s.vnode.inode.block (left + 1) i =
        nonzero s.vnode.inode.block 1 i ++ nonzero s.vnode.inode.block left (i + 1) := by
      show (if _ then _ else _) = (if _ then _ else _) ++ _
      split
      next => rfl
      next => rfl
    have hone : Frees (nonzero s.vnode.inode.block 1 i) i (i + 1)
        (when (s.vnode.inode.block i ≠ 0) do
          onOpened (freeBlock (s.vnode.inode.block i))
          setInodeBlock i 0) s := by
      refine frees_when hlayout rfl (fun hzero => if_pos hzero) fun hne => ?_
      have hlist : nonzero s.vnode.inode.block 1 i = [s.vnode.inode.block i] := if_neg hne
      rw [hlist]
      exact ⟨(freeList_single _ _).symm, nofun⟩
    have hboth : Frees (nonzero s.vnode.inode.block (left + 1) i) i (i + 1 + left)
        ((when (s.vnode.inode.block i ≠ 0) do
          onOpened (freeBlock (s.vnode.inode.block i))
          setInodeBlock i 0) >>= fun _ => freeDirect left (i + 1)) s := by
      rw [hlist]
      refine hone.bind hlayout (Nat.le_succ i) (by omega) fun inode hcleared hfree => ?_
      have hsame : nonzero inode.block left (i + 1) = nonzero s.vnode.inode.block left (i + 1) :=
        nonzero_congr fun j hj _ => hcleared.block (.inr hj)
      rw [← hsame]
      exact ih (s := ⟨_, { s.vnode with inode }⟩)
        ((released hlayout hfree).same.layout hlayout) (by omega)
    rw [Nat.add_right_comm] at hboth
    refine hboth.congr ?_
    show (demand (i < 15) >>= fun _ => _) s = _
    rw [demand_bind (by omega)]
    rfl

/-- The blocks of the file, with the pointers `inode` had at first. -/
def freeFile (blockSize : Nat) (inode : Inode) (b : Buffer) : Effect Opened Unit := do
  freeDirect 12 0
  when (inode.block 12 ≠ 0) do
    onOpened (freeSingle blockSize (inode.block 12) b)
    setInodeBlock 12 0
  when (inode.block 13 ≠ 0) do
    onOpened (freeDouble blockSize (inode.block 13) b)
    setInodeBlock 13 0

theorem freeFile_frees {b : Buffer} {bs : Nat} (hlayout : Layout s.volume)
    (hbs : bs = s.volume.blockBytes) (hb : b.size = s.volume.blockBytes)
    (htabled : s.volume.Tabled s.vnode.inode) :
    Frees (s.volume.fileBlocks s.vnode.inode) 0 14 (freeFile bs s.vnode.inode b) s := by
  unfold Volume.fileBlocks freeFile
  rw [append_assoc]
  refine (freeDirect_frees hlayout (by decide : 0 + 12 ≤ 15)).bind hlayout (by decide)
    (by decide) fun inode1 hcleared1 hfree1 => ?_
  -- the direct blocks are free, the tables stand
  have h1 := released hlayout hfree1
  have hlayout1 := h1.same.layout hlayout
  have h12 : inode1.block 12 = s.vnode.inode.block 12 := hcleared1.block (.inr (by decide))
  have hsingle : Frees (s.volume.singleBlocks (s.vnode.inode.block 12)) 12 13
      (when (s.vnode.inode.block 12 ≠ 0) do
        onOpened (freeSingle bs (s.vnode.inode.block 12) b)
        setInodeBlock 12 0)
      ⟨s.volume.freedAll (nonzero s.vnode.inode.block 12 0), { s.vnode with inode := inode1 }⟩ := by
    refine frees_when hlayout1 h12 (fun hzero => if_pos hzero) fun hne => ⟨?_, ?_⟩
    · rw [← h1.singleBlocks htabled.single]
      exact freeSingle_eq hlayout1 (hbs.trans h1.same.blockBytes.symm)
        (hb.trans h1.same.blockBytes.symm) hne (h1.same.data (htabled.single hne))
    · unfold Volume.singleBlocks
      rw [if_neg hne]
      exact append_ne_nil_of_right_ne_nil _ nofun
  refine hsingle.bind hlayout1 (by decide) (by decide) fun inode2 hcleared2 hfree2 => ?_
  have h2 := released hlayout ((freeable_append hlayout).mpr ⟨hfree1, hfree2⟩)
  rw [freedAll_append] at h2
  have hlayout2 := h2.same.layout hlayout
  have hbytes := h2.same.blockBytes
  have h13 : inode2.block 13 = s.vnode.inode.block 13 :=
    (hcleared2.block (.inr (by decide))).trans (hcleared1.block (.inr (by decide)))
  refine frees_when hlayout2 h13 (fun hzero => if_pos hzero) fun hne => ⟨?_, ?_⟩
  · have hroot := htabled.root hne
    rw [← h2.doubleBlocks htabled.root htabled.leaves]
    refine freeDouble_eq hlayout2 (hbs.trans hbytes.symm) (hb.trans hbytes.symm) hne
      (h2.same.data hroot) fun k hk => h2.same.data (htabled.leaves hne k ?_)
    rw [← pointers_congr hbytes (h2.data _ hroot)]
    exact hk
  · unfold Volume.doubleBlocks
    rw [if_neg hne]
    exact append_ne_nil_of_right_ne_nil _ nofun

/-! ## The whole truncation -/

/-- There is memory for the three arrays. -/
def Opened.HasBuffers (s : Opened) : Prop :=
  s.volume.kmallocs.head? = some true ∧ s.volume.kmallocs.tail.head? = some true ∧
    s.volume.kmallocs.tail.tail.head? = some true

instance (s : Opened) : Decidable s.HasBuffers := inferInstanceAs (Decidable (_ ∧ _ ∧ _))

/-- The vnode after its arrays were asked for. -/
def Opened.buffered (s : Opened) : Opened :=
  { s with volume := { s.volume with kmallocs := s.volume.kmallocs.tail.tail.tail } }

/-- The end of `ext2_vnode_truncate`, when the blocks are free. -/
def finishTruncate : Effect Opened Unit := do
  let s ← get
  require (s.vnode.inode.block 14 = 0)
  let inode := ((s.vnode.inode.setSizeLow 0).setSizeHigh 0).setSectorCount 0
  modify fun s => { s with vnode := { s.vnode with inode } }
  onOpened (writeInode s.vnode.inodeNumber inode)
  modify fun s =>
    { s with vnode := { s.vnode with size := 0, cache := s.vnode.cache.map fun _ => .empty } }

theorem attempt_kmalloc (v : Volume) : attempt kmalloc v =
    .done (if v.kmallocs.head? = some true then some () else none)
      { v with kmallocs := v.kmallocs.tail } := by
  unfold attempt
  by_cases h : v.kmallocs.head? = some true
  · rw [kmalloc_done h, if_pos h]
  · rw [kmalloc_failed h, if_neg h]

theorem isSome_ite {c : Prop} [Decidable c] :
    (if c then some () else none : Option Unit).isSome = true ↔ c := by
  split
  next hc => exact ⟨fun _ => hc, fun _ => rfl⟩
  next hc => exact ⟨nofun, fun h => absurd h hc⟩

theorem vnodeTruncate_refused {size : Nat} (h : size ≠ 0) : vnodeTruncate size s = .failed s := by
  unfold vnodeTruncate
  rw [get_bind]
  exact require_failed h

/-- The three calls of `kmalloc`, and the look at their results. -/
theorem buffers_bind (k : Unit → Effect Opened Unit) (s : Opened) :
    (onOpened (attempt kmalloc) >>= fun block => onOpened (attempt kmalloc) >>= fun root =>
      onOpened (attempt kmalloc) >>= fun leaf =>
        require (block.isSome ∧ root.isSome ∧ leaf.isSome) >>= k) s =
      (require s.HasBuffers >>= k) s.buffered := by
  rw [bind_done (onOpened_done (attempt_kmalloc _)), bind_done (onOpened_done (attempt_kmalloc _)),
    bind_done (onOpened_done (attempt_kmalloc _))]
  by_cases hbuffers : s.HasBuffers
  · rw [require_bind hbuffers]
    exact require_bind
      ⟨isSome_ite.mpr hbuffers.1, isSome_ite.mpr hbuffers.2.1, isSome_ite.mpr hbuffers.2.2⟩
  · rw [require_failed hbuffers]
    exact require_failed fun ⟨h1, h2, h3⟩ =>
      hbuffers ⟨isSome_ite.mp h1, isSome_ite.mp h2, isSome_ite.mp h3⟩

theorem vnodeTruncate_eq (h : Layout s.volume) (hregular : s.vnode.directory = false) :
    vnodeTruncate 0 s = (require s.HasBuffers >>= fun _ =>
      freeFile s.volume.blockBytes s.vnode.inode ⟨s.volume.blockBytes, s.volume.stale⟩ >>= fun _ =>
        finishTruncate) s.buffered := by
  obtain ⟨hmin, hmax⟩ := h.sized.le
  have hsingle : ∀ t, (onOpened (freeSingle s.volume.blockBytes (s.vnode.inode.block 12)
      ⟨s.volume.blockBytes, s.volume.stale⟩) >>= fun _ => setInodeBlock 12 0) t = (do
        let table ← onOpened (readBlock s.volume.blockBytes (s.vnode.inode.block 12)
          ⟨s.volume.blockBytes, s.volume.stale⟩)
        onOpened (freeEntries table (s.volume.blockBytes / 4) 0)
        onOpened (freeBlock (s.vnode.inode.block 12))
        setInodeBlock 12 0 : Effect Opened Unit) t := by
    intro t
    unfold freeSingle
    rw [bind_congr (onOpened_bind _ _ t), bind_bind_eq]
    refine bind_cont fun table u _ => ?_
    rw [bind_congr (onOpened_bind _ _ u), bind_bind_eq]
  have hdouble : ∀ t, (onOpened (freeDouble s.volume.blockBytes (s.vnode.inode.block 13)
      ⟨s.volume.blockBytes, s.volume.stale⟩) >>= fun _ => setInodeBlock 13 0) t = (do
        let root ← onOpened (readBlock s.volume.blockBytes (s.vnode.inode.block 13)
          ⟨s.volume.blockBytes, s.volume.stale⟩)
        onOpened (freeLeaves s.volume.blockBytes root (s.volume.blockBytes / 4) 0
          ⟨s.volume.blockBytes, s.volume.stale⟩)
        onOpened (freeBlock (s.vnode.inode.block 13))
        setInodeBlock 13 0 : Effect Opened Unit) t := by
    intro t
    unfold freeDouble
    rw [bind_congr (onOpened_bind _ _ t), bind_bind_eq]
    refine bind_cont fun root u _ => ?_
    rw [bind_congr (onOpened_bind _ _ u), bind_bind_eq]
  unfold vnodeTruncate
  rw [get_bind, require_bind rfl, require_bind hregular, bind_done (h.blockSize s),
    require_bind ⟨by omega, hmax⟩, require_bind (by omega), buffers_bind]
  refine bind_cont fun _ t _ => ?_
  unfold freeFile
  rw [bind_bind_eq]
  refine bind_cont fun _ t _ => ?_
  rw [bind_bind_eq, bind_congr (when_congr fun _ => hsingle t)]
  refine bind_cont fun _ t _ => ?_
  rw [bind_congr (when_congr fun _ => hdouble t)]
  rfl

/-- The inode number of a vnode is one of the volume. -/
def Opened.Numbered (s : Opened) : Prop :=
  0 < s.vnode.inodeNumber ∧ s.vnode.inodeNumber ≤ s.volume.superblock.inodeCount

/-- The inode that a truncation writes. -/
def emptied (inode : Inode) : Inode := ((inode.setSizeLow 0).setSizeHigh 0).setSectorCount 0

theorem finishTruncate_done (h : Layout s.volume) (hnumber : s.Numbered)
    (h14 : s.vnode.inode.block 14 = 0) : finishTruncate s =
      .done () ⟨s.volume.withInode s.vnode.inodeNumber (emptied s.vnode.inode),
        { s.vnode with
          inode := emptied s.vnode.inode
          size := 0
          cache := s.vnode.cache.map fun _ => .empty }⟩ := by
  have hwrite : ∀ node : Vnode, onOpened (writeInode s.vnode.inodeNumber (emptied s.vnode.inode))
      ⟨s.volume, node⟩ =
        .done () ⟨s.volume.withInode s.vnode.inodeNumber (emptied s.vnode.inode), node⟩ :=
    fun _ => zoom_done (h.writeInode hnumber.1 hnumber.2 _)
  unfold finishTruncate
  rw [get_bind, require_bind h14, modify_bind]
  exact bind_done (hwrite _)

/-- The blocks that a truncation frees. -/
def Opened.blocks (s : Opened) : List Nat := s.volume.fileBlocks s.vnode.inode

theorem buffered_maps (s : Opened) : SameMaps s.volume s.buffered.volume :=
  ⟨rfl, rfl, fun _ _ => rfl, fun _ _ _ _ => rfl, fun _ _ _ _ => rfl⟩

theorem buffered_canFree : s.buffered.volume.CanFree n ↔ s.volume.CanFree n :=
  ⟨fun ⟨h₁, h₂, h₃, h4⟩ => ⟨h₁, h₂, h₃, h4⟩, fun ⟨h₁, h₂, h₃, h4⟩ => ⟨h₁, h₂, h₃, h4⟩⟩

theorem buffered_freeable : s.buffered.volume.Freeable l ↔ s.volume.Freeable l :=
  ⟨fun ⟨h₁, h₂⟩ => ⟨h₁, fun k hk => buffered_canFree.mp (h₂ k hk)⟩,
    fun ⟨h₁, h₂⟩ => ⟨h₁, fun k hk => buffered_canFree.mpr (h₂ k hk)⟩⟩

theorem truncate_frees (h : Layout s.volume) (htabled : s.volume.Tabled s.vnode.inode) :
    Frees s.blocks 0 14 (freeFile s.volume.blockBytes s.vnode.inode
      ⟨s.volume.blockBytes, s.volume.stale⟩) s.buffered := by
  have hplaces := (buffered_maps s).places
  exact freeFile_frees (hplaces.layout h) rfl rfl ⟨fun hne => hplaces.data (htabled.single hne),
    fun hne => hplaces.data (htabled.root hne), fun hne k hk =>
      hplaces.data (htabled.leaves hne k hk)⟩

/-- A truncation that finds all blocks in use gets to its end. -/
theorem vnodeTruncate_freed (h : Layout s.volume) (hregular : s.vnode.directory = false)
    (htabled : s.volume.Tabled s.vnode.inode) (hbuffers : s.HasBuffers)
    (hfree : s.volume.Freeable s.blocks) : ∃ inode, PointersCleared s.vnode.inode inode 0 14 ∧
      (s.blocks = [] → inode = s.vnode.inode) ∧ vnodeTruncate 0 s =
        finishTruncate ⟨s.buffered.volume.freedAll s.blocks, { s.vnode with inode }⟩ := by
  obtain ⟨inode, hcleared, hsame, hdone⟩ :=
    (truncate_frees h htabled).freed (buffered_freeable.mpr hfree)
  refine ⟨inode, hcleared, hsame, ?_⟩
  rw [vnodeTruncate_eq h hregular, require_bind hbuffers]
  exact bind_done hdone

/-- Another stops behind the blocks that are. -/
theorem vnodeTruncate_stopped (h : Layout s.volume) (hregular : s.vnode.directory = false)
    (htabled : s.volume.Tabled s.vnode.inode) (hbuffers : s.HasBuffers)
    (hfree : ¬s.volume.Freeable s.blocks) : ∃ l₁ n l₂ t, s.blocks = l₁ ++ n :: l₂ ∧
      s.volume.Freeable l₁ ∧ ¬(s.buffered.volume.freedAll l₁).CanFree n ∧
      vnodeTruncate 0 s = .failed t ∧ t.volume = s.buffered.volume.freedAll l₁ ∧
      (l₁ = [] → t.vnode = s.vnode) := by
  obtain ⟨l₁, n, l₂, t, hsplit, hl1, hn, hfailed, hvolume, hvnode⟩ :=
    (truncate_frees h htabled).stopped fun hl => hfree (buffered_freeable.mp hl)
  refine ⟨l₁, n, l₂, t, hsplit, buffered_freeable.mp hl1, hn, ?_, hvolume, hvnode⟩
  rw [vnodeTruncate_eq h hregular, require_bind hbuffers]
  exact bind_failed hfailed

/-! ## A volume with one file -/

/-- One file, inode 11, with block 20. -/
def oneFileImage : Mem :=
  imageOf
    [(1024, 16), (1028, 64), (1036, 55), (1040, 5), (1044, 1), (1056, 8192), (1064, 16),
      (1080, 0xEF53), (1100, 1), (1108, 11), (1112, 128),
      (2048, 3), (2052, 4), (2056, 5), (2060, 55 + 5 * 65536), (3072, 0x8007f), (4096, 0x7ff)]

def oneFileVolume : Volume where
  sectorCount := 128
  image := oneFileImage
  superblock := fun x => oneFileImage (1024 + x)
  kmallocs := List.replicate 3 true
  stale := fun _ => 0xcc

/-- The file, with `triple` as its triple-indirect block. -/
def oneFile (triple : Nat) : Opened where
  volume := oneFileVolume
  vnode :=
    { directory := false
      inodeNumber := 11
      inode := imageOf [(0, 0x81a4), (4, 1000), (28, 2), (40, 20), (96, triple)]
      cache := none
      size := 1000 }

theorem oneFileVolume_group : OneGroup oneFileVolume :=
  ⟨by decide +kernel, by decide +kernel, by decide +kernel, by decide +kernel⟩

theorem oneFile_tabled : oneFileVolume.Tabled (oneFile 21).vnode.inode :=
  have h12 : (oneFile 21).vnode.inode.block 12 = 0 := by decide +kernel
  have h13 : (oneFile 21).vnode.inode.block 13 = 0 := by decide +kernel
  ⟨fun hne => absurd h12 hne, fun hne => absurd h13 hne, fun hne => absurd h13 hne⟩

/-- With the blocks 21 and 22 too: 21 is a pointer table, and 22 is in it. -/
def tableFileImage : Mem :=
  put32 (put32 (put32 (put32 oneFileImage 1036 53) 2060 (53 + 5 * 65536)) 3072 0x38007f) 21504 22

def tableFileVolume : Volume :=
  { oneFileVolume with
    image := tableFileImage
    superblock := fun x => tableFileImage (1024 + x) }

/-- A file with the block `first` and, through its table, block 22. -/
def tableFile (first : Nat) : Opened where
  volume := tableFileVolume
  vnode :=
    { (oneFile 0).vnode with
      inode := imageOf [(0, 0x81a4), (4, 13000), (28, 6), (40, first), (88, 21)]
      size := 13000 }

theorem tableFile_group : OneGroup tableFileVolume :=
  ⟨by decide +kernel, by decide +kernel, by decide +kernel, by decide +kernel⟩

theorem tableFile_counted : Counted tableFileVolume where
  groups g hg := by
    obtain rfl : g = 0 := Nat.lt_one_iff.mp (tableFile_group.groupCount ▸ hg)
    decide +kernel
  total := by decide +kernel

theorem tableFile_tabled (h12 : (tableFile n).vnode.inode.block 12 = 21)
    (h13 : (tableFile n).vnode.inode.block 13 = 0) :
    tableFileVolume.Tabled (tableFile n).vnode.inode :=
  ⟨fun _ => h12 ▸ tableFile_group.data (by decide) (by decide), fun hne => absurd h13 hne,
    fun hne => absurd h13 hne⟩

/-! ## What a truncation that succeeds has done -/

/-- The file is empty, its blocks are free and counted, and nothing else has changed. -/
structure Truncated (s t : Opened) : Prop where
  once : s.blocks.Nodup
  bits : ∀ g < s.volume.groupCount, ∀ i < 8 * s.volume.blockBytes, t.volume.bitmapBit g i =
    (s.volume.bitmapBit g i && !decide (∃ n ∈ s.blocks, s.volume.groupOf n = g ∧ s.volume.bitOf n = i))
  groups : ∀ g < s.volume.groupCount, (t.volume.descriptor g).freeBlocksCount =
    (s.volume.descriptor g).freeBlocksCount + (s.blocks.filter fun n => s.volume.groupOf n = g).length
  total : t.volume.superblock.freeBlockCount = s.volume.superblock.freeBlockCount + s.blocks.length
  synced : t.volume.Synced
  counted : Counted t.volume
  elsewhere : ∀ x, s.volume.OutsideCounts x → (∀ n ∈ s.blocks, x ≠ s.volume.bitAddress n) →
    (x < s.volume.inodeAddress s.vnode.inodeNumber ∨
      s.volume.inodeAddress s.vnode.inodeNumber + Inode.bytes ≤ x) →
    t.volume.image x = s.volume.image x
  inodes : ∀ n, 0 < n → n ≤ s.volume.superblock.inodeCount → n ≠ s.vnode.inodeNumber →
    ∀ x < s.volume.superblock.inodeSize,
      t.volume.image (t.volume.inodeAddress n + x) = s.volume.image (s.volume.inodeAddress n + x)
  record : ∀ x < Inode.bytes, t.volume.inodeRecord s.vnode.inodeNumber x = t.vnode.inode x
  size : t.vnode.size = 0 ∧ t.vnode.inode.sizeLow = 0 ∧ get32 t.vnode.inode 108 = 0
  pointers : ∀ i < 15, t.vnode.inode.block i = 0
  sectors : t.vnode.inode.sectorCount = 0

theorem emptied_block (inode : Inode) (hi : i < 15) : (emptied inode).block i = inode.block i := by
  unfold emptied Inode.setSectorCount Inode.setSizeHigh Inode.setSizeLow Inode.block
  rw [(put32_within _ _ _).get32 (by omega), (put32_within _ _ _).get32 (by omega),
    (put32_within _ _ _).get32 (by omega)]

theorem emptied_sizes (inode : Inode) : (emptied inode).sizeLow = 0 ∧
    get32 (emptied inode) 108 = 0 ∧ (emptied inode).sectorCount = 0 := by
  refine ⟨?_, ?_, get32_put32 _ _ _⟩
  · show get32 (put32 (put32 (put32 inode 4 0) 108 0) 28 0) 4 = 0
    rw [(put32_within _ _ _).get32 (by decide), (put32_within _ _ _).get32 (by decide)]
    exact (get32_put32 _ _ _).trans (Nat.zero_mod _)
  · show get32 (put32 (put32 (put32 inode 4 0) 108 0) 28 0) 108 = 0
    rw [(put32_within _ _ _).get32 (by decide)]
    exact (get32_put32 _ _ _).trans (Nat.zero_mod _)

theorem released_buffered (h : Layout s.volume) (hl : s.volume.Freeable l) :
    Released s.volume (s.buffered.volume.freedAll l) l := by
  have hreleased := released ((buffered_maps s).places.layout h) (buffered_freeable.mpr hl)
  exact ⟨(buffered_maps s).places.trans hreleased.same,
    fun k hk => hreleased.data k ((buffered_maps s).places.data hk), hreleased.bits,
    hreleased.synced, hreleased.elsewhere,
    fun hc => hreleased.counted ((buffered_maps s).counted h hc),
    fun hc => hreleased.groups ((buffered_maps s).counted h hc),
    fun hc => hreleased.total ((buffered_maps s).counted h hc)⟩

/-- A clear range holds no count and no bit of a block. -/
theorem Volume.Clear.outside {x : Nat} (h : v.Clear lo hi) (hx : lo ≤ x) (hx' : x < hi) :
    v.OutsideCounts x := by
  refine ⟨fun g hg => ?_, ?_⟩
  · have happart := h.descriptors g hg
    unfold GroupDescriptor.bytes at happart
    omega
  · have happart := h.superblock
    unfold Superblock.bytes at happart
    omega

theorem Volume.Clear.notBit {x : Nat} (h : v.Clear lo hi) (hlayout : Layout v)
    (hn : v.CanFree n) (hx : lo ≤ x) (hx' : x < hi) : x ≠ v.bitAddress n := by
  have happart := h.bitmaps _ (hlayout.groupOf_lt hn.low hn.high) _ (hlayout.bitOf_lt n)
  change v.bitAddress n + 1 ≤ lo ∨ hi ≤ v.bitAddress n at happart
  omega

theorem Released.numbered {l : List Nat} (h : Released s.volume w l) (hnumber : s.Numbered) :
    Opened.Numbered ⟨w, { s.vnode with inode }⟩ :=
  ⟨hnumber.1, h.same.inodeCount ▸ hnumber.2⟩

/-- The end of a truncation that succeeds. -/
theorem truncated (h : Layout s.volume) (hcounted : Counted s.volume) (hsynced : s.volume.Synced)
    (hnumber : s.Numbered) (hfree : s.volume.Freeable s.blocks)
    (hrel : Released s.volume w s.blocks) (hcleared : PointersCleared s.vnode.inode inode 0 14)
    (h14 : inode.block 14 = 0) {cache : Option BlockCache} :
    Truncated s ⟨w.withInode s.vnode.inodeNumber (emptied inode),
      { s.vnode with inode := emptied inode, size := 0, cache }⟩ := by
  have hw := hrel.same.layout h
  have hpos := hnumber.1
  have hn : s.vnode.inodeNumber ≤ w.superblock.inodeCount := hrel.same.inodeCount ▸ hnumber.2
  have hmaps := hw.withInode_maps hpos hn (emptied inode)
  have haddress := hrel.same.inodeAddress h hpos hnumber.2
  refine ⟨hfree.nodup, fun g hg i hi => ?_, fun g hg => ?_, hrel.total hcounted,
    hmaps.synced (hrel.synced hsynced), hmaps.counted hw (hrel.counted hcounted),
    fun x hx hbits hrecord => ?_, fun k hk hk' hne x hx => ?_,
    fun x hx => hw.withInode_record hpos hn _ hx,
    ⟨rfl, (emptied_sizes inode).1, (emptied_sizes inode).2.1⟩, fun i hi => ?_,
    (emptied_sizes inode).2.2⟩
  · rw [← hrel.bits g hg i hi]
    exact hmaps.bits g (hrel.same.groupCount.symm ▸ hg) i (hrel.same.blockBytes.symm ▸ hi)
  · rw [← hrel.groups hcounted g hg]
    exact hmaps.count (hrel.same.groupCount.symm ▸ hg)
  · rw [← haddress] at hrecord
    rw [← hrel.elsewhere hsynced x hx hbits]
    exact copyFrom_within _ _ _ _ _ x hrecord
  · have hclear := h.clear_inode hk hk'
    have happart := h.inodes_apart hk hk' hpos hnumber.2 hne
    have hsize := h.inodeSize.1
    have hplace : (w.withInode s.vnode.inodeNumber (emptied inode)).inodeAddress k =
        s.volume.inodeAddress k := (hrel.same.trans hmaps.places).inodeAddress h hk hk'
    show (w.withInode _ _).image ((w.withInode _ _).inodeAddress k + x) = _
    rw [hplace, ← hrel.elsewhere hsynced _ (hclear.outside (Nat.le_add_right _ _) (by omega))
      fun n hn => hclear.notBit h (hfree.used n hn) (Nat.le_add_right _ _) (by omega)]
    exact copyFrom_within _ _ _ _ _ _ (by omega)
  · show (emptied inode).block i = 0
    rw [emptied_block inode hi]
    by_cases hlast : i = 14
    · exact hlast ▸ h14
    · exact hcleared.zero i (Nat.zero_le _) (by omega)

/-- A truncation that succeeds frees the blocks of the file, each once, and counts them. -/
theorem vnodeTruncate_truncates (s t : Opened) (size : Nat) (h : Layout s.volume)
    (hcounted : Counted s.volume) (hsynced : s.volume.Synced) (hnumber : s.Numbered)
    (hregular : s.vnode.directory = false) (htabled : s.volume.Tabled s.vnode.inode)
    (hdone : vnodeTruncate size s = .done () t) : Truncated s t := by
  by_cases hsize : size = 0
  · subst hsize
    by_cases hbuffers : s.HasBuffers
    · by_cases hfree : s.volume.Freeable s.blocks
      · obtain ⟨inode, hcleared, -, heq⟩ := vnodeTruncate_freed h hregular htabled hbuffers hfree
        have hrel := released_buffered h hfree
        rw [heq] at hdone
        by_cases h14 : inode.block 14 = 0
        · rw [finishTruncate_done (hrel.same.layout h) (hrel.numbered hnumber) h14] at hdone
          cases hdone
          exact truncated h hcounted hsynced hnumber hfree hrel hcleared h14
        · unfold finishTruncate at hdone
          rw [get_bind, require_failed h14] at hdone
          cases hdone
      · obtain ⟨_, _, _, _, -, -, -, hfailed, -⟩ :=
          vnodeTruncate_stopped h hregular htabled hbuffers hfree
        rw [hfailed] at hdone
        cases hdone
    · rw [vnodeTruncate_eq h hregular, require_failed hbuffers] at hdone
      cases hdone
  · rw [vnodeTruncate_refused hsize] at hdone
    cases hdone

theorem tableFile_truncated : ∃ t, vnodeTruncate 0 (tableFile 20) = .done () t ∧
    (tableFile 20).blocks = [20, 22, 21] ∧ Truncated (tableFile 20) t := by
  have hreturns : (vnodeTruncate 0 (tableFile 20)).returns (fun _ _ => true) = true := by
    decide +kernel
  obtain ⟨⟨⟩, t, hdone, -⟩ := Ending.exists_done hreturns
  have htabled := tableFile_tabled (n := 20) (by decide +kernel) (by decide +kernel)
  exact ⟨t, hdone, by decide +kernel, vnodeTruncate_truncates (tableFile 20) t 0
    tableFile_group.layout tableFile_counted (fun _ _ => rfl) ⟨by decide, by decide +kernel⟩ rfl
    htabled hdone⟩

/-! ## A truncation that fails -/

/-- The device, the superblock in memory and the vnode are as they were. -/
structure Unchanged (s t : Opened) : Prop where
  image : t.volume.image = s.volume.image
  superblock : t.volume.superblock = s.volume.superblock
  vnode : t.vnode = s.vnode

theorem Unchanged.bit (h : Unchanged s t) (g i : Nat) :
    t.volume.bitmapBit g i = s.volume.bitmapBit g i := by
  unfold Volume.bitmapBit Volume.descriptor Volume.descriptorAddress Volume.blockBytes
  rw [h.image, h.superblock]

/-- What has freed a block has changed something. -/
theorem freed_changed (h : Layout s.volume) (hl : s.volume.Freeable (n :: l))
    (hvolume : t.volume = s.buffered.volume.freedAll (n :: l)) : ¬Unchanged s t := by
  intro hsame
  have hn := hl.used n mem_cons_self
  have hbit := (released_buffered h hl).bits _ (h.groupOf_lt hn.low hn.high) _ (h.bitOf_lt n)
  have hcleared : decide (∃ k ∈ n :: l, s.volume.groupOf k = s.volume.groupOf n ∧
      s.volume.bitOf k = s.volume.bitOf n) = true :=
    decide_eq_true ⟨n, mem_cons_self, rfl, rfl⟩
  have hused : s.volume.bitmapBit (s.volume.groupOf n) (s.volume.bitOf n) = true := hn.used
  rw [← hvolume, hsame.bit, hcleared, hused] at hbit
  cases hbit

/-- The first block to be freed, if there is one, is not in use. -/
def Opened.FirstUnused (s : Opened) : Prop := ∀ n ∈ s.blocks.head?, ¬s.volume.CanFree n

/-- A truncation of a file whose blocks are all in use. -/
theorem freed_undone (h : Layout s.volume) (hnumber : s.Numbered)
    (hregular : s.vnode.directory = false) (htabled : s.volume.Tabled s.vnode.inode)
    (hbuffers : s.HasBuffers) (hfree : s.volume.Freeable s.blocks) :
    (∀ t, vnodeTruncate 0 s = .failed t → Unchanged s t) ↔
      s.blocks = [] ∨ s.vnode.inode.block 14 = 0 := by
  obtain ⟨inode, hcleared, hsame, heq⟩ := vnodeTruncate_freed h hregular htabled hbuffers hfree
  have hrel := released_buffered h hfree
  have hlast : inode.block 14 = s.vnode.inode.block 14 := hcleared.block (.inr (Nat.le_refl _))
  rw [heq]
  by_cases h14 : inode.block 14 = 0
  · refine ⟨fun _ => .inr (hlast ▸ h14), fun _ t hfailed => ?_⟩
    rw [finishTruncate_done (hrel.same.layout h) (hrel.numbered hnumber) h14] at hfailed
    cases hfailed
  · -- the triple-indirect block is found when the others are free
    have hend : finishTruncate ⟨s.buffered.volume.freedAll s.blocks, { s.vnode with inode }⟩ =
        .failed ⟨s.buffered.volume.freedAll s.blocks, { s.vnode with inode }⟩ :=
      require_failed h14
    rw [hend]
    constructor
    · intro hundone
      cases hblocks : s.blocks with
      | nil => exact .inl rfl
      | cons n l =>
        rw [hblocks] at hundone hfree
        exact absurd (hundone _ rfl) (freed_changed h hfree rfl)
    · rintro (hnil | hzero) t hfailed
      · cases hfailed
        rw [hsame hnil, hnil]
        exact ⟨rfl, rfl, rfl⟩
      · exact absurd (hlast.trans hzero) h14

/-- A truncation of a file with a block that is not. -/
theorem stopped_undone (h : Layout s.volume) (hregular : s.vnode.directory = false)
    (htabled : s.volume.Tabled s.vnode.inode) (hbuffers : s.HasBuffers)
    (hfree : ¬s.volume.Freeable s.blocks) :
    (∀ t, vnodeTruncate 0 s = .failed t → Unchanged s t) ↔ s.FirstUnused := by
  obtain ⟨l1, n, l2, t, hblocks, hl1, hn, hfailed, hvolume, hvnode⟩ :=
    vnodeTruncate_stopped h hregular htabled hbuffers hfree
  unfold Opened.FirstUnused
  rw [hfailed, hblocks]
  cases l1 with
  | nil =>
    refine ⟨fun _ k hk => ?_, fun _ u hu => ?_⟩
    · obtain rfl : n = k := Option.some.inj hk
      exact fun hused => hn (buffered_canFree.mpr hused)
    · cases hu
      refine ⟨?_, ?_, hvnode rfl⟩
      · rw [hvolume]
        rfl
      · rw [hvolume]
        rfl
  | cons k l1 =>
    refine ⟨fun hundone => absurd (hundone t rfl) (freed_changed h hl1 hvolume), fun hunused => ?_⟩
    exact absurd (hl1.used k mem_cons_self) (hunused k rfl)

/-- A truncation that fails has changed nothing exactly when it is refused before the first
block is freed, or does not fail at all. -/
theorem vnodeTruncate_undone (s : Opened) (size : Nat) (h : Layout s.volume)
    (hnumber : s.Numbered) (hregular : s.vnode.directory = false)
    (htabled : s.volume.Tabled s.vnode.inode) :
    (∀ t, vnodeTruncate size s = .failed t → Unchanged s t) ↔
      size ≠ 0 ∨ ¬s.HasBuffers ∨ s.FirstUnused ∨
        (s.vnode.inode.block 14 = 0 ∧ s.volume.Freeable s.blocks) := by
  by_cases hsize : size = 0
  · subst hsize
    by_cases hbuffers : s.HasBuffers
    · by_cases hfree : s.volume.Freeable s.blocks
      · rw [freed_undone h hnumber hregular htabled hbuffers hfree]
        constructor
        · rintro (hnil | hzero)
          · refine .inr (.inr (.inl fun n hn => ?_))
            rw [hnil] at hn
            cases hn
          · exact .inr (.inr (.inr ⟨hzero, hfree⟩))
        · rintro (hne | hnone | hunused | ⟨hzero, -⟩)
          · exact absurd rfl hne
          · exact absurd hbuffers hnone
          · cases hblocks : s.blocks with
            | nil => exact .inl rfl
            | cons n l =>
              unfold Opened.FirstUnused at hunused
              rw [hblocks] at hfree hunused
              exact absurd (hfree.used n List.mem_cons_self) (hunused n rfl)
          · exact .inr hzero
      · rw [stopped_undone h hregular htabled hbuffers hfree]
        constructor
        · exact fun hunused => .inr (.inr (.inl hunused))
        · rintro (hne | hnone | hunused | ⟨-, hfree'⟩)
          · exact absurd rfl hne
          · exact absurd hbuffers hnone
          · exact hunused
          · exact absurd hfree' hfree
    · refine ⟨fun _ => .inr (.inl hbuffers), fun _ t hfailed => ?_⟩
      rw [vnodeTruncate_eq h hregular, require_failed hbuffers] at hfailed
      cases hfailed
      exact ⟨rfl, rfl, rfl⟩
  · refine ⟨fun _ => .inl hsize, fun _ t hfailed => ?_⟩
    rw [vnodeTruncate_refused hsize] at hfailed
    cases hfailed
    exact ⟨rfl, rfl, rfl⟩

/-- Block 30 is not in use. -/
theorem tableFile_undone : ∃ t, vnodeTruncate 0 (tableFile 30) = .failed t ∧
    Unchanged (tableFile 30) t := by
  have hfails : (vnodeTruncate 0 (tableFile 30)).fails (fun _ => true) = true := by decide +kernel
  obtain ⟨t, hfailed, -⟩ := Ending.exists_failed hfails
  have htabled := tableFile_tabled (n := 30) (by decide +kernel) (by decide +kernel)
  refine ⟨t, hfailed, (vnodeTruncate_undone (tableFile 30) 0 tableFile_group.layout
    ⟨by decide, by decide +kernel⟩ rfl htabled).mpr (.inr (.inr (.inl ?_))) t hfailed⟩
  have hblocks : (tableFile 30).blocks.head? = some 30 := by decide +kernel
  intro n hn
  rw [hblocks] at hn
  cases hn
  exact fun hfree => absurd hfree.used (by decide +kernel)

/-- With a triple-indirect block it fails when block 20 is free already. -/
theorem tripleFile_changed : ∃ t, vnodeTruncate 0 (oneFile 21) = .failed t ∧
    ¬Unchanged (oneFile 21) t := by
  by_contra hnone
  have hundone : ∀ t, vnodeTruncate 0 (oneFile 21) = .failed t → Unchanged (oneFile 21) t := by
    intro t hfailed
    by_contra hchanged
    exact hnone ⟨t, hfailed, hchanged⟩
  have hfree : (oneFile 21).volume.Freeable (oneFile 21).blocks :=
    ⟨by decide +kernel, by decide +kernel⟩
  rcases (freed_undone oneFileVolume_group.layout ⟨by decide, by decide +kernel⟩ rfl oneFile_tabled
    (by decide +kernel) hfree).mp hundone with hnil | hzero
  · exact absurd hnil (by decide +kernel)
  · exact absurd hzero (by decide +kernel)

end MeatySkeleton.Ext2
