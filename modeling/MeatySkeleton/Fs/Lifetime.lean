import MeatySkeleton.Fs.FileTable

/-!
# File objects under interleaved descriptor operations

Each operation of `fd.c` is a region under `fd_lock` followed, or preceded, by
work on the file object without any lock. The machine here takes these pieces as
separate steps of any number of tasks: the region itself, then one step for each
access to the `file_t` (`Access`), and for a close the two steps of `vfs_close`.

`serial` counts the objects that have lived at an address, so that a task which
still holds a pointer to an earlier one is told from a task that holds the object
there now. `misused` records an access through such a pointer.
-/

namespace MeatySkeleton.Fs

open Function Option Lib

variable {φ : Type}

inductive FileOp where
  | read (size : Nat)
  | write (bytes : List UInt8)
  | readdir
  | seek (offset : Int) (whence : Whence)

/-- The next access of an operation to its file object. -/
inductive Access where
  | flags
  | vnode
  | append (node : Nat)
  | offset (node : Nat)
  | advance (count : Nat)
  | assign (offset : Nat)

def FileOp.first : FileOp → Access
  | .seek _ _ => .vnode
  | _ => .flags

/-- `kernel_fd_seek` checks `whence` before it calls `vfs_seek`. -/
def FileOp.accepted : FileOp → Bool
  | .seek _ .other => false
  | _ => true

/-- One access of `vfs_read`, `vfs_write`, `vfs_readdir` or `vfs_seek`: the next
one, if the operation goes on, and the file system and file object after it. -/
def access (fs : FileSystem φ) (x : φ) (file : File) (op : FileOp) :
    Access → Option Access × φ × File
  | .flags =>
    let needed := match op with
      | .write _ => vfsOpenWrite
      | _ => vfsOpenRead
    (if file.flags.has needed then some .vnode else none, x, file)
  | .vnode =>
    let next := match op with
      | .read _ => if (fs.read x file.vnode).isSome then some (.offset file.vnode) else none
      | .write _ => if (fs.write x file.vnode).isSome then some (.append file.vnode) else none
      | .readdir =>
        if fs.type x file.vnode = .directory ∧ (fs.readdir x file.vnode).isSome then
          some (.offset file.vnode)
        else none
      | .seek _ _ => some (.offset file.vnode)
    (next, x, file)
  | .append node =>
    (some (.offset node), x,
      if file.flags.has vfsOpenAppend then { file with offset := fs.size x node % sizeMax } else file)
  | .offset node =>
    match op with
    | .read size =>
      match fs.read x node with
      | none => (none, x, file)
      | some read =>
        let (bytes, x) := read file.offset size
        (bytes.map fun bytes => .advance bytes.length, x, file)
    | .write bytes =>
      match fs.write x node with
      | none => (none, x, file)
      | some write =>
        let (count, x) := write file.offset bytes
        (count.map .advance, x, file)
    | .readdir =>
      match fs.readdir x node with
      | none => (none, x, file)
      | some readdir =>
        let (result, x) := readdir file.offset
        (result.map fun result => .assign result.2, x, file)
    | .seek offset whence => ((seekTarget fs x file node offset whence).map .assign, x, file)
  | .advance count => (none, x, { file with offset := (file.offset + count) % sizeMax })
  | .assign offset =>
    match op with
    | .readdir => (none, x, if offset < file.offset then file else { file with offset := offset })
    | _ => (none, x, { file with offset := offset })

/-! ## The accesses of an undisturbed operation -/

/-- An operation from one of its accesses on, at most `n` of them. -/
def accesses (fs : FileSystem φ) (op : FileOp) : Nat → φ → File → Access → φ × File
  | 0, x, file, _ => (x, file)
  | n + 1, x, file, a =>
    match access fs x file op a with
    | (none, x, file) => (x, file)
    | (some a, x, file) => accesses fs op n x file a

/-- The operation as `vfs.c` has it, in one go. -/
def vfsOperate (fs : FileSystem φ) (s : System φ) (a : Nat) : FileOp → Option (System φ)
  | .read size => (vfsRead fs s a size).map Prod.snd
  | .write bytes => (vfsWrite fs s a bytes).map Prod.snd
  | .readdir => (vfsReaddir fs s a).map Prod.snd
  | .seek offset whence => (vfsSeek fs s a offset whence).map Prod.snd

def System.put (s : System φ) (a : Nat) (r : φ × File) : System φ :=
  { s with fs := r.1, files := update s.files a (some r.2) }

theorem put_same {s : System φ} {a : Nat} {file : File} (h : s.files a = some file) (x : φ) :
    s.put a (x, file) = { s with fs := x } := by
  rw [System.put, ← h, update_eq_self]

/-- Taken one after the other, the accesses are the operation. -/
theorem vfsOperate_eq_accesses (fs : FileSystem φ) (s : System φ) (a : Nat) (op : FileOp) {file : File}
    (h : s.files a = some file) :
    vfsOperate fs s a op = some (s.put a (accesses fs op 5 s.fs file op.first)) := by
  cases op with
  | read size =>
    simp only [vfsOperate, vfsRead, h, FileOp.first, accesses, access, bind_eq_bind, bind_some]
    cases hflag : file.flags.has vfsOpenRead with
    | false => simp [put_same h]
    | true =>
      cases hop : fs.read s.fs file.vnode with
      | none => simp [hop, put_same h]
      | some read =>
        rcases hr : read file.offset size with ⟨_ | bytes, x⟩
        · simp [hop, hr, put_same h]
        · simp [hop, hr, System.put, System.setOffset]
  | write bytes =>
    simp only [vfsOperate, vfsWrite, h, FileOp.first, accesses, access, bind_eq_bind, bind_some]
    cases hflag : file.flags.has vfsOpenWrite with
    | false => simp [put_same h]
    | true =>
      cases hop : fs.write s.fs file.vnode with
      | none => simp [hop, put_same h]
      | some write =>
        generalize hmoved : (if file.flags.has vfsOpenAppend = true then
          { file with offset := fs.size s.fs file.vnode % sizeMax } else file) = moved
        have hv : moved.vnode = file.vnode := by
          rw [← hmoved]
          split <;> rfl
        rcases hr : write moved.offset bytes with ⟨_ | count, x⟩
        · have hsame : (⟨file.vnode, moved.offset, moved.flags⟩ : File) = moved := by rw [← hv]
          simp [hop, hr, hv, hmoved, hsame, System.put, System.setOffset]
        · simp [hop, hr, hv, hmoved, System.put, System.setOffset]
  | readdir =>
    simp only [vfsOperate, vfsReaddir, h, FileOp.first, accesses, access, bind_eq_bind, bind_some]
    cases hflag : file.flags.has vfsOpenRead with
    | false => simp [put_same h]
    | true =>
      by_cases hd : fs.type s.fs file.vnode = .directory
      · cases hop : fs.readdir s.fs file.vnode with
        | none => simp [hd, hop, put_same h]
        | some readdir =>
          rcases hr : readdir file.offset with ⟨_ | ⟨entry, next⟩, x⟩
          · simp [hd, hop, hr, put_same h]
          · by_cases hlt : next < file.offset
            · simp [hd, hop, hr, hlt, put_same h]
            · simp [hd, hop, hr, hlt, System.put, System.setOffset]
      · simp [hd, put_same h]
  | seek offset whence =>
    simp only [vfsOperate, vfsSeek, h, FileOp.first, accesses, access, bind_eq_bind, bind_some]
    cases seekTarget fs s.fs file file.vnode offset whence with
    | none => simp [put_same h]
    | some position => simp [System.put, System.setOffset]

/-! ## The machine -/

/-- Where a task is in an operation. -/
inductive Activity where
  | idle
  /-- `vfs_open` returned the object; `fd_lock` comes next. -/
  | opening (a : Nat)
  /-- Between the look-up and the end of an operation. -/
  | inUse (a serial : Nat) (op : FileOp) (next : Access)
  /-- In `vfs_close`: before and after `vnode_unref`. -/
  | closing (a : Nat) (unreferenced : Bool)

structure State (φ : Type) where
  sys : System φ
  serial : Nat → Nat
  tasks : Nat → Activity
  taskCount : Nat
  misused : Bool

inductive Label where
  | openFile (t : Nat) (path : String) (flags : OpenFlags) (block : Option Nat)
  | publish (t : Nat)
  | lookup (t fd : Nat) (op : FileOp)
  | access (t : Nat)
  | take (t fd : Nat)
  | unref (t : Nat)
  | free (t : Nat)

def State.goto (s : State φ) (t : Nat) (act : Activity) : State φ :=
  { s with tasks := update s.tasks t act }

open State (goto)

/-- The object a pointer taken at incarnation `serial` leads to, if it is still there. -/
def State.object (s : State φ) (a serial : Nat) : Option File :=
  if s.serial a = serial then s.sys.files a else none

/-- One step of task `t`, which has to be one of the tasks. -/
def taskStep (fs : FileSystem φ) (s : State φ) : Label → Option (State φ)
  | .openFile t path flags block =>
    match s.tasks t with
    | .idle =>
      if block.any fun a => (s.sys.files a).isSome then none
      else match vfsFlags flags with
        | none => some s
        | some v =>
          match vfsOpen fs s.sys path v block with
          | (none, sys) => some { s with sys := sys }
          | (some a, sys) =>
            some (goto
              { s with sys := sys, serial := update s.serial a (s.serial a + 1) } t (.opening a))
    | _ => none
  | .publish t =>
    match s.tasks t with
    | .opening a =>
      match fdPublish s.sys a with
      | (some _, sys) => some (goto { s with sys := sys } t .idle)
      | (none, sys) => some (goto { s with sys := sys } t (.closing a false))
    | _ => none
  | .lookup t fd op =>
    match s.tasks t with
    | .idle =>
      match fdLookup s.sys fd with
      | none => some s
      | some a =>
        if op.accepted then some (s.goto t (.inUse a (s.serial a) op op.first)) else some s
    | _ => none
  | .access t =>
    match s.tasks t with
    | .inUse a serial op next =>
      match s.object a serial with
      | none => some (goto { s with misused := true } t .idle)
      | some file =>
        let (next, r) := access fs s.sys.fs file op next
        some (goto { s with sys := s.sys.put a r } t
          (next.elim .idle fun next => .inUse a serial op next))
    | _ => none
  | .take t fd =>
    match s.tasks t with
    | .idle =>
      match fdTake s.sys fd with
      | none => some s
      | some (a, sys) => some (goto { s with sys := sys } t (.closing a false))
    | _ => none
  | .unref t =>
    match s.tasks t with
    | .closing a false =>
      match s.sys.files a with
      | none => some (goto { s with misused := true } t .idle)
      | some file =>
        some (goto { s with sys := { s.sys with fs := fs.unref s.sys.fs file.vnode } } t
          (.closing a true))
    | _ => none
  | .free t =>
    match s.tasks t with
    | .closing a true =>
      some (goto
        { s with sys := { s.sys with files := update s.sys.files a none } } t .idle)
    | _ => none

def Label.task : Label → Nat
  | .openFile t _ _ _ | .publish t | .lookup t _ _ | .access t | .take t _ | .unref t | .free t => t

def taskMachine (fs : FileSystem φ) (s : State φ) (l : Label) : Option (State φ) :=
  if l.task < s.taskCount then taskStep fs s l else none

/-- `n` tasks, no open file. -/
def start (n : Nat) (x : φ) : State φ :=
  ⟨⟨x, fun _ => none, fun _ => none⟩, fun _ => 0, fun _ => .idle, n, false⟩

/-! ## When no object is freed in use -/

def Activity.uses (a : Nat) : Activity → Bool
  | .inUse b _ _ _ => decide (a = b)
  | _ => false

def Activity.owns (a : Nat) : Activity → Bool
  | .opening b | .closing b _ => decide (a = b)
  | _ => false

/-- The step frees no object that a task has looked up and not finished with. -/
def freesUnused (s : State φ) : Label → Bool
  | .free t =>
    match s.tasks t with
    | .closing a _ => (List.range s.taskCount).all fun u => !(s.tasks u).uses a
    | _ => true
  | _ => true

/-- Each file object has one owner, a descriptor or a task, and whoever uses an
object uses the one that is there. -/
structure Lifetimes (s : State φ) : Prop where
  sound : s.misused = false
  idle : ∀ t, s.taskCount ≤ t → s.tasks t = .idle
  live : ∀ fd a, s.sys.fdTable fd = some a → (s.sys.files a).isSome = true
  distinct : ∀ fd fd' a, s.sys.fdTable fd = some a → s.sys.fdTable fd' = some a → fd = fd'
  owned : ∀ t a, (s.tasks t).owns a = true → (s.sys.files a).isSome = true ∧
    (∀ fd, s.sys.fdTable fd ≠ some a) ∧ ∀ t', t' ≠ t → (s.tasks t').owns a = false
  used : ∀ t a n op next, s.tasks t = .inUse a n op next →
    (s.sys.files a).isSome = true ∧ s.serial a = n

variable {fs : FileSystem φ} {s s' : State φ} {t a : Nat}

theorem Lifetimes.idle_goto (h : Lifetimes s) {act : Activity} {u : Nat} (ht : t < s.taskCount)
    (hu : s.taskCount ≤ u) : update s.tasks t act u = .idle := by
  have hut : u ≠ t := Nat.ne_of_gt (Nat.lt_of_lt_of_le ht hu)
  exact (update_of_ne hut ..).trans (h.idle u hu)

theorem inUse_goto {tasks : Nat → Activity} {act : Activity} {u b n : Nat} {op : FileOp}
    {next : Access} (hu : update tasks t act u = .inUse b n op next)
    (hact : ∀ b n op next, act ≠ .inUse b n op next) : tasks u = .inUse b n op next := by
  by_cases hut : u = t
  · rw [hut, update_self] at hu
    exact absurd hu (hact b n op next)
  · rwa [update_of_ne hut] at hu

theorem owns_goto_idle {tasks : Nat → Activity} {u b : Nat}
    (hu : (update tasks t Activity.idle u).owns b = true) :
    u ≠ t ∧ (tasks u).owns b = true := by
  by_cases hut : u = t
  · rw [hut, update_self] at hu
    cases hu
  · rw [update_of_ne hut] at hu
    exact ⟨hut, hu⟩

section

variable (h : Lifetimes s)

include h

/-- Task `t` goes on within an operation: no object appears, disappears or changes owner. -/
theorem Lifetimes.advance {act : Activity} {files : Nat → Option File} {x : φ}
    (ht : t < s.taskCount) (hfiles : ∀ a, (files a).isSome = (s.sys.files a).isSome)
    (howns : ∀ a, act.owns a = true → (s.tasks t).owns a = true)
    (huses : ∀ a n op next, act = .inUse a n op next → (files a).isSome = true ∧ s.serial a = n) :
    Lifetimes (goto { s with sys := { s.sys with files := files, fs := x } } t act) where
  sound := h.sound
  idle _ hu := h.idle_goto ht hu
  live fd a hfd := (hfiles a).trans (h.live fd a hfd)
  distinct := h.distinct
  owned u a hu := by
    have howns' : ∀ v, (update s.tasks t act v).owns a = true → (s.tasks v).owns a = true := by
      intro v hv
      by_cases hvt : v = t
      · subst hvt
        rw [update_self] at hv
        exact howns a hv
      · rwa [update_of_ne hvt] at hv
    obtain ⟨hlive, htable, hothers⟩ := h.owned u a (howns' u hu)
    refine ⟨(hfiles a).trans hlive, htable, fun v hv => ?_⟩
    by_contra hne
    have hvo := howns' v (Bool.of_not_eq_false hne)
    rw [hothers v hv] at hvo
    cases hvo
  used u a n op next hu := by
    by_cases hut : u = t
    · subst hut
      exact huses a n op next ((update_self ..).symm.trans hu)
    · obtain ⟨hlive, hserial⟩ := h.used u a n op next ((update_of_ne hut ..).symm.trans hu)
      exact ⟨(hfiles a).trans hlive, hserial⟩

/-- A new object is handed to the task that opens it. -/
theorem Lifetimes.opened {sys : System φ} {file : File} (ht : t < s.taskCount)
    (hidle : s.tasks t = .idle) (hfresh : s.sys.files a = none)
    (htable : sys.fdTable = s.sys.fdTable)
    (hfiles : sys.files = update s.sys.files a (some file)) :
    Lifetimes (goto
      { s with sys := sys, serial := update s.serial a (s.serial a + 1) } t
        (.opening a)) := by
  have hne : ∀ b, (s.sys.files b).isSome = true → b ≠ a := by
    rintro b hb rfl
    rw [hfresh] at hb
    cases hb
  have hkeep : ∀ b, (s.sys.files b).isSome = true → (sys.files b).isSome = true := by
    intro b hb
    rw [hfiles, update_of_ne (hne b hb)]
    exact hb
  have hnew : (sys.files a).isSome = true := by
    rw [hfiles, update_self]
    rfl
  have hfree : ∀ fd, sys.fdTable fd ≠ some a := by
    intro fd hfd
    rw [htable] at hfd
    exact hne a (h.live fd a hfd) rfl
  have hnobody : ∀ u, (s.tasks u).owns a = false := by
    intro u
    by_contra hu
    exact hne a (h.owned u a (Bool.of_not_eq_false hu)).1 rfl
  refine ⟨h.sound, fun u hu => ?_, fun fd b hb => ?_, fun fd fd' b hb hb' => ?_, fun u b hu => ?_,
    fun u b n op next hu => ?_⟩
  · exact h.idle_goto ht hu
  · change sys.fdTable fd = some b at hb
    rw [htable] at hb
    exact hkeep b (h.live fd b hb)
  · change sys.fdTable fd = some b at hb
    change sys.fdTable fd' = some b at hb'
    rw [htable] at hb hb'
    exact h.distinct fd fd' b hb hb'
  · change (update s.tasks t (.opening a) u).owns b = true at hu
    by_cases hut : u = t
    · subst hut
      rw [update_self] at hu
      obtain rfl := of_decide_eq_true hu
      refine ⟨hnew, hfree, fun v hv => ?_⟩
      show (update s.tasks u (.opening b) v).owns b = false
      rw [update_of_ne hv]
      exact hnobody v
    · rw [update_of_ne hut] at hu
      obtain ⟨hlive, hno, hothers⟩ := h.owned u b hu
      refine ⟨hkeep b hlive, fun fd => ?_, fun v hv => ?_⟩
      · show sys.fdTable fd ≠ some b
        rw [htable]
        exact hno fd
      · show (update s.tasks t (.opening a) v).owns b = false
        by_cases hvt : v = t
        · subst hvt
          rw [update_self]
          exact decide_eq_false (hne b hlive)
        · rw [update_of_ne hvt]
          exact hothers v hv
  · obtain ⟨hlive, hserial⟩ := h.used u b n op next (inUse_goto hu nofun)
    refine ⟨hkeep b hlive, ?_⟩
    show update s.serial a _ b = n
    rw [update_of_ne (hne b hlive)]
    exact hserial

/-- The task's object moves to a descriptor. -/
theorem Lifetimes.published {fd : Nat} (ht : t < s.taskCount)
    (ho : s.tasks t = .opening a) :
    Lifetimes (goto
      { s with
        sys := { s.sys with fdTable := update s.sys.fdTable fd (some a) } } t .idle) := by
  obtain ⟨hlive, htable, hothers⟩ := h.owned t a (by rw [ho]; exact decide_eq_true rfl)
  refine ⟨h.sound, fun u hu => ?_, fun d b hb => ?_, fun d d' b hb hb' => ?_, fun u b hu => ?_,
    fun u b n op next hu => ?_⟩
  · exact h.idle_goto ht hu
  · change update s.sys.fdTable fd (some a) d = some b at hb
    by_cases hd : d = fd
    · rw [hd, update_self] at hb
      rw [← some.inj hb]
      exact hlive
    · rw [update_of_ne hd] at hb
      exact h.live d b hb
  · change update s.sys.fdTable fd (some a) d = some b at hb
    change update s.sys.fdTable fd (some a) d' = some b at hb'
    by_cases hd : d = fd <;> by_cases hd' : d' = fd
    · rw [hd, hd']
    · rw [hd, update_self] at hb
      rw [update_of_ne hd', ← some.inj hb] at hb'
      exact absurd hb' (htable d')
    · rw [hd', update_self] at hb'
      rw [update_of_ne hd, ← some.inj hb'] at hb
      exact absurd hb (htable d)
    · rw [update_of_ne hd] at hb
      rw [update_of_ne hd'] at hb'
      exact h.distinct d d' b hb hb'
  · obtain ⟨hut, hu'⟩ := owns_goto_idle hu
    obtain ⟨hlive', htable', hothers'⟩ := h.owned u b hu'
    refine ⟨hlive', fun d => ?_, fun v hv => ?_⟩
    · show update s.sys.fdTable fd (some a) d ≠ some b
      by_cases hd : d = fd
      · rw [hd, update_self]
        rintro he
        rw [← some.inj he, hothers u hut] at hu'
        cases hu'
      · rw [update_of_ne hd]
        exact htable' d
    · by_contra hne
      obtain ⟨-, hvo⟩ := owns_goto_idle (Bool.of_not_eq_false hne)
      rw [hothers' v hv] at hvo
      cases hvo
  · exact h.used u b n op next (inUse_goto hu nofun)

/-- The object leaves its descriptor for the task that closes it. -/
theorem Lifetimes.taken {fd : Nat} (ht : t < s.taskCount)
    (hidle : s.tasks t = .idle) (hfd : s.sys.fdTable fd = some a) :
    Lifetimes (goto
      { s with sys := { s.sys with fdTable := update s.sys.fdTable fd none } } t
        (.closing a false)) := by
  have hopen : ∀ d b, update s.sys.fdTable fd none d = some b →
      d ≠ fd ∧ s.sys.fdTable d = some b := by
    intro d b hb
    by_cases hd : d = fd
    · rw [hd, update_self] at hb
      cases hb
    · rw [update_of_ne hd] at hb
      exact ⟨hd, hb⟩
  have hnobody : ∀ u, (s.tasks u).owns a = false := by
    intro u
    by_contra hu
    exact (h.owned u a (Bool.of_not_eq_false hu)).2.1 fd hfd
  refine ⟨h.sound, fun u hu => ?_, fun d b hb => h.live d b (hopen d b hb).2,
    fun d d' b hb hb' => h.distinct d d' b (hopen d b hb).2 (hopen d' b hb').2, fun u b hu => ?_,
    fun u b n op next hu => ?_⟩
  · exact h.idle_goto ht hu
  · change (update s.tasks t (.closing a false) u).owns b = true at hu
    by_cases hut : u = t
    · subst hut
      rw [update_self] at hu
      obtain rfl := of_decide_eq_true hu
      refine ⟨h.live fd b hfd, fun d hd => ?_, fun v hv => ?_⟩
      · obtain ⟨hne, hd⟩ := hopen d b hd
        exact hne (h.distinct d fd b hd hfd)
      · show (update s.tasks u (.closing b false) v).owns b = false
        rw [update_of_ne hv]
        exact hnobody v
    · rw [update_of_ne hut] at hu
      obtain ⟨hlive, hno, hothers⟩ := h.owned u b hu
      refine ⟨hlive, fun d hd => hno d (hopen d b hd).2, fun v hv => ?_⟩
      show (update s.tasks t (.closing a false) v).owns b = false
      by_cases hvt : v = t
      · subst hvt
        rw [update_self]
        refine decide_eq_false ?_
        rintro rfl
        exact hno fd hfd
      · rw [update_of_ne hvt]
        exact hothers v hv
  · exact h.used u b n op next (inUse_goto hu nofun)

/-- An object that nobody uses is freed. -/
theorem Lifetimes.freed (ht : t < s.taskCount) (hc : s.tasks t = .closing a true)
    (hunused : ∀ u, u < s.taskCount → (s.tasks u).uses a = false) :
    Lifetimes (goto
      { s with sys := { s.sys with files := update s.sys.files a none } } t .idle) := by
  obtain ⟨-, htable, hothers⟩ := h.owned t a (by rw [hc]; exact decide_eq_true rfl)
  have hkeep : ∀ b, b ≠ a → (s.sys.files b).isSome = true →
      (update s.sys.files a none b).isSome = true := by
    intro b hb hlive
    rw [update_of_ne hb]
    exact hlive
  refine ⟨h.sound, fun u hu => ?_, fun fd b hb => ?_, h.distinct, fun u b hu => ?_,
    fun u b n op next hu => ?_⟩
  · exact h.idle_goto ht hu
  · refine hkeep b ?_ (h.live fd b hb)
    rintro rfl
    exact htable fd hb
  · obtain ⟨hut, hu'⟩ := owns_goto_idle hu
    obtain ⟨hlive, hno, hothers'⟩ := h.owned u b hu'
    refine ⟨hkeep b ?_ hlive, hno, fun v hv => ?_⟩
    · rintro rfl
      rw [hothers u hut] at hu'
      cases hu'
    · by_contra hne
      obtain ⟨-, hvo⟩ := owns_goto_idle (Bool.of_not_eq_false hne)
      rw [hothers' v hv] at hvo
      cases hvo
  · have hu := inUse_goto hu nofun
    obtain ⟨hlive, hserial⟩ := h.used u b n op next hu
    refine ⟨hkeep b ?_ hlive, hserial⟩
    rintro rfl
    have hlt : u < s.taskCount := by
      by_contra hge
      rw [h.idle u (Nat.le_of_not_lt hge)] at hu
      cases hu
    have hno := hunused u hlt
    rw [hu, Activity.uses, decide_eq_false_iff_not] at hno
    exact hno rfl

/-- A change of the file system alone. -/
theorem Lifetimes.same (sys : System φ) (htable : sys.fdTable = s.sys.fdTable)
    (hfiles : sys.files = s.sys.files) : Lifetimes { s with sys := sys } where
  sound := h.sound
  idle := h.idle
  live fd b hb := by
    change sys.fdTable fd = some b at hb
    rw [htable] at hb
    show (sys.files b).isSome = true
    rw [hfiles]
    exact h.live fd b hb
  distinct fd fd' b hb hb' := by
    change sys.fdTable fd = some b at hb
    change sys.fdTable fd' = some b at hb'
    rw [htable] at hb hb'
    exact h.distinct fd fd' b hb hb'
  owned u b hu := by
    show (sys.files b).isSome = true ∧ (∀ fd, sys.fdTable fd ≠ some b) ∧ _
    rw [htable, hfiles]
    exact h.owned u b hu
  used u b n op next hu := by
    show (sys.files b).isSome = true ∧ _
    rw [hfiles]
    exact h.used u b n op next hu

end

/-! ## Whole runs -/

theorem lookup_table {sys : System φ} {fd : Nat} (h : fdLookup sys fd = some a) :
    sys.fdTable fd = some a := by
  unfold fdLookup at h
  split at h
  · exact h
  · cases h

/-- `vfs_open` in a block of memory nobody has an object in. -/
theorem Lifetimes.openFile (h : Lifetimes s) {path : String} {flags : OpenFlags} {block : Option Nat}
    (ht : t < s.taskCount) (hidle : s.tasks t = .idle)
    (hblock : ¬(block.any fun a => (s.sys.files a).isSome) = true)
    (hs : (match vfsOpen fs s.sys path flags block with
      | (none, sys) => some { s with sys := sys }
      | (some a, sys) => some (goto
        { s with sys := sys, serial := update s.serial a (s.serial a + 1) } t
          (.opening a))) = some s') : Lifetimes s' := by
  split at hs
  case h_1 sys hopen =>
    obtain rfl := some.inj hs
    obtain ⟨htable, ⟨-, hfiles⟩ | ⟨a, node, hsome, -⟩⟩ := vfsOpen_cases hopen
    · exact h.same sys htable hfiles
    · cases hsome
  case h_2 a sys hopen =>
    obtain rfl := some.inj hs
    obtain ⟨htable, ⟨hnone, -⟩ | ⟨b, node, hsome, hb, -, hfiles⟩⟩ := vfsOpen_cases hopen
    · cases hnone
    · obtain rfl := some.inj hsome
      refine h.opened ht hidle ?_ htable hfiles
      rw [hb, any_some, isSome_iff_ne_none, not_not] at hblock
      exact hblock

/-- An access finds the object the task looked up. -/
theorem Lifetimes.accessed (h : Lifetimes s) {n : Nat} {op : FileOp} {next : Access}
    (ht : t < s.taskCount) (hu : s.tasks t = .inUse a n op next)
    (hs : (match s.object a n with
      | none => some (goto { s with misused := true } t .idle)
      | some file =>
        let (next, r) := access fs s.sys.fs file op next
        some (goto { s with sys := s.sys.put a r } t
          (next.elim .idle fun next => .inUse a n op next))) = some s') : Lifetimes s' := by
  obtain ⟨hlive, hserial⟩ := h.used t a n op next hu
  obtain ⟨file, hfile⟩ := isSome_iff_exists.mp hlive
  have hobject : s.object a n = some file := by rw [State.object, if_pos hserial, hfile]
  rw [hobject] at hs
  dsimp only at hs
  obtain rfl := some.inj hs
  have hfiles : ∀ b, (update s.sys.files a
      (some (access fs s.sys.fs file op next).2.2) b).isSome = (s.sys.files b).isSome := by
    intro b
    by_cases hb : b = a
    · rw [hb, update_self, hlive]
      rfl
    · rw [update_of_ne hb]
  refine h.advance ht hfiles (fun b hb => ?_) fun b n' op' next' he => ?_
  · cases hnext : (access fs s.sys.fs file op next).1 <;> rw [hnext] at hb <;> cases hb
  · cases hnext : (access fs s.sys.fs file op next).1 with
    | none =>
      rw [hnext] at he
      cases he
    | some next'' =>
      rw [hnext] at he
      obtain ⟨rfl, rfl, -, -⟩ := Activity.inUse.inj he
      exact ⟨(hfiles a).trans hlive, hserial⟩

theorem taskStep_lifetimes (h : Lifetimes s) {l : Label} (ht : l.task < s.taskCount)
    (hok : freesUnused s l = true) (hs : taskStep fs s l = some s') : Lifetimes s' := by
  cases l with
  | openFile t path flags block =>
    dsimp only [taskStep] at hs
    split at hs
    case h_2 => cases hs
    case h_1 hidle =>
      rw [ite_none_left_eq_some] at hs
      obtain ⟨hblock, hs⟩ := hs
      split at hs
      · obtain rfl := some.inj hs
        exact h
      · exact h.openFile ht hidle hblock hs
  | publish t =>
    dsimp only [taskStep] at hs
    split at hs
    case h_2 => cases hs
    case h_1 a ho =>
      unfold fdPublish at hs
      cases hfree : freeDescriptor s.sys.fdTable with
      | some fd =>
        rw [hfree] at hs
        obtain rfl := some.inj hs
        exact h.published ht ho
      | none =>
        -- the table is full: the task goes on to close the object
        rw [hfree] at hs
        obtain rfl := some.inj hs
        refine h.advance ht (fun _ => rfl) (fun b hb => ?_) nofun
        obtain rfl := of_decide_eq_true hb
        rw [ho]
        exact decide_eq_true rfl
  | lookup t fd op =>
    dsimp only [taskStep] at hs
    split at hs
    case h_2 => cases hs
    case h_1 hidle =>
      split at hs
      · obtain rfl := some.inj hs
        exact h
      case h_2 a hlookup =>
        split at hs
        · obtain rfl := some.inj hs
          refine h.advance ht (fun _ => rfl) (fun b hb => absurd hb nofun) ?_
          intro b n op' next he
          obtain ⟨rfl, rfl, -, -⟩ := Activity.inUse.inj he
          exact ⟨h.live fd _ (lookup_table hlookup), rfl⟩
        · obtain rfl := some.inj hs
          exact h
  | access t =>
    dsimp only [taskStep] at hs
    split at hs
    case h_2 => cases hs
    case h_1 a n op next hu => exact h.accessed ht hu hs
  | take t fd =>
    dsimp only [taskStep] at hs
    split at hs
    case h_2 => cases hs
    case h_1 hidle =>
      split at hs
      · obtain rfl := some.inj hs
        exact h
      case h_2 a sys htake =>
        obtain rfl := some.inj hs
        obtain ⟨b, hlookup, heq⟩ := map_eq_some_iff.mp htake
        obtain ⟨rfl, rfl⟩ := Prod.mk.inj heq
        exact h.taken ht hidle (lookup_table hlookup)
  | unref t =>
    dsimp only [taskStep] at hs
    split at hs
    case h_2 => cases hs
    case h_1 a hc =>
      obtain ⟨hlive, -, -⟩ := h.owned t a (by rw [hc]; exact decide_eq_true rfl)
      obtain ⟨file, hfile⟩ := isSome_iff_exists.mp hlive
      rw [hfile] at hs
      obtain rfl := some.inj hs
      refine h.advance ht (fun _ => rfl) (fun b hb => ?_) nofun
      obtain rfl := of_decide_eq_true hb
      rw [hc]
      exact decide_eq_true rfl
  | free t =>
    dsimp only [taskStep] at hs
    split at hs
    case h_2 => cases hs
    case h_1 a hc =>
      obtain rfl := some.inj hs
      refine h.freed ht hc fun u hu => ?_
      dsimp only [freesUnused] at hok
      rw [hc] at hok
      have hno := List.all_eq_true.mp hok u (List.mem_range.mpr hu)
      rwa [Bool.not_eq_true'] at hno

theorem start_lifetimes (n : Nat) (x : φ) : Lifetimes (start n x) where
  sound := rfl
  idle _ _ := rfl
  live _ _ h := by cases h
  distinct _ _ _ h := by cases h
  owned _ _ h := by cases h
  used _ _ _ _ _ h := by cases h

/-- In a run in which `vfs_close` only frees objects no other task is working
with, no operation uses a freed file object. -/
theorem run_notMisused {n : Nat} {x : φ} {ls : List Label}
    (hr : RunWhere (taskMachine fs) (fun s l => freesUnused s l = true) (start n x) ls s) : s.misused = false :=
  (hr.invariant (start_lifetimes n x) fun _ _ _ h hok hs => by
    unfold taskMachine at hs
    rw [Option.ite_none_right_eq_some] at hs
    exact taskStep_lifetimes h hs.1 hok hs.2).sound

/-- A file system with one empty regular file. -/
def emptyFile : FileSystem Unit where
  lookup x _ := (some 7, x)
  lookupParent x _ := (none, x)
  type _ _ := .regular
  size _ _ := 0
  create _ _ := none
  truncate _ _ := none
  read x _ := some fun _ _ => (some [], x)
  write _ _ := none
  readdir _ _ := none
  unref x _ := x

/-- A file system with one regular file, whose bytes are the state. -/
def bytesFile : FileSystem (List UInt8) where
  lookup x _ := (some 7, x)
  lookupParent x _ := (none, x)
  type _ _ := .regular
  size x _ := x.length
  create _ _ := none
  truncate _ _ := none
  read x _ := some fun offset size => (some ((x.drop offset).take size), x)
  write x _ := some fun offset bytes =>
    (some bytes.length, x.take offset ++ bytes ++ x.drop (offset + bytes.length))
  readdir _ _ := none
  unref x _ := x

/-- Two bytes are appended through an object whose offset is 0. -/
theorem vfsOperate_eq_accesses_append :
    let s : System (List UInt8) := ⟨[1, 2, 3], fun _ => some ⟨7, 0, 0x6#32⟩, fun _ => none⟩
    let r := accesses bytesFile (.write [8, 9]) 5 [1, 2, 3] ⟨7, 0, 0x6#32⟩ .flags
    vfsOperate bytesFile s 100 (.write [8, 9]) = some (s.put 100 r) ∧
      r = ([1, 2, 3, 8, 9], ⟨7, 5, 0x6#32⟩) :=
  ⟨vfsOperate_eq_accesses _ _ _ _ rfl, by decide +kernel⟩

/-- Task 1 reads through the descriptor of task 0, which closes it afterwards. -/
theorem run_notMisused_read : ∃ s, exec (taskMachine emptyFile) (fun s l => freesUnused s l = true)
    (start 2 ()) [.openFile 0 "/data" 0x1#32 (some 100), .publish 0, .lookup 1 3 (.read 4), .access 1,
      .access 1, .access 1, .access 1, .take 0 3, .unref 0, .free 0] = some s ∧
    (s.sys.files 100).isNone = true ∧ s.misused = false :=
  exists_exec (fun s => (s.sys.files 100).isNone = true) (by decide +kernel)
    fun _ hr hfreed => ⟨hfreed, run_notMisused hr⟩

/-- Task 1 looks the descriptor up, task 0 closes it, task 1 goes on reading. -/
theorem not_run_notMisused : ¬ ∀ (n : Nat) (ls : List Label) (s : State Unit),
    Run (taskMachine emptyFile) (start n ()) ls s → s.misused = false := by
  intro hall
  have hrun : (exec (taskMachine emptyFile) (fun _ _ => True) (start 2 ())
    [.openFile 0 "/data" 0x1#32 (some 100), .publish 0, .lookup 1 3 (.read 4), .take 0 3, .unref 0,
      .free 0, .access 1]).any (fun s => s.misused) = true := by decide +kernel
  obtain ⟨s, hs, hmisused⟩ := (Option.any_eq_true _ _).mp hrun
  rw [hall 2 _ s (run_of_exec hs)] at hmisused
  cases hmisused

end MeatySkeleton.Fs
