import MeatySkeleton.Process.Safety

/-!
# When destruction meets owned children

`process_release` destroys a process whose last reference is dropped and panics
if it still has child links. A parent that was itself collected while it had
uncollected children gets there: nobody can collect them any more, and the
parent's own reference was its last one. `not_run_childless` is the shortest
such run, over three generations.

It is the only way. Every process with a thread, a creator that may still bind
one, or children of its own was linked to its parent before (`Rooted`), and a
link goes away only by `process_waitpid`. If that collects only processes
without children (`CollectsLeaf`), a collected process stays childless, because
a zombie is given no new children, so a process nobody owns has none
(`childless_run`). Then its destruction never fails, and objects live exactly as
long as they are owned (`reclaimed_run`).
-/

namespace MeatySkeleton.Process

open Function List Lib

variable {s s' : System} {p q x : ProcPtr} {r : Region} {l : Label}

/-- `x` has been linked to its parent at some time, or is the kernel. -/
def Rooted (s : System) (x : ProcPtr) : Prop :=
  (s.procs x).immortal = true ∨ 0 < (tallies s x).linked + collects (s.procs x).id s.log

/-- The processes a pending region may give children or threads to. -/
def Region.needs (procs : ProcPtr → Proc) : Region → ProcPtr → Prop
  | .acquireParent p, x => (procs x).id = (procs p).parentId
  | .inheritCwd q _, x | .retainChild q _, x | .linkChild q _, x => x = q
  | .created p, x | .attach p, x => x = p
  | _, _ => False

/-- No process without a parent link has children, and no collected one. -/
structure Family (s : System) : Prop where
  kernel : kernelProcess ∈ s.allocated ∧ (s.procs kernelProcess).id = 1 ∧
    (s.procs kernelProcess).immortal = true
  known : s.nextProcessId ≠ 0 → ∀ x ∈ s.allocated, (s.procs x).parentId < s.nextProcessId
  regions : ∀ r ∈ s.pending, ∀ x ∈ s.allocated, r.needs s.procs x → Rooted s x
  threads : ∀ t ∈ s.threads, Rooted s t.process
  parents : ∀ q ∈ s.allocated, (s.procs q).children ≠ [] → Rooted s q
  gone : ∀ q ∈ s.allocated, 0 < collects (s.procs q).id s.log →
    (s.procs q).children = [] ∧ ((s.procs q).state = .zombie ∨ (s.procs q).state = .dead)

/-- `process_waitpid`, if it collects a child, collects one without children. -/
def CollectsLeaf (s : System) : Label → Prop
  | .waitpid t pid => ∀ c ∈ (s.procs t.process).children, (s.procs c).id = pid →
      (s.procs c).state = .zombie → (s.procs c).children = []
  | _ => True

instance (s : System) : DecidablePred (CollectsLeaf s)
  | .waitpid t pid => inferInstanceAs (Decidable (∀ c ∈ (s.procs t.process).children,
      (s.procs c).id = pid → (s.procs c).state = .zombie → (s.procs c).children = []))
  | .create .. | .proceed .. | .bind _ | .threadCreate _ | .lookup _ | .acquireZombieChild ..
  | .setExitStatus .. | .exit _ | .publish _ | .destroyUnpublished _ | .reap _ =>
    inferInstanceAs (Decidable True)

/-- What a step keeps of the processes it does not create. -/
structure Frame (s s' : System) : Prop where
  id : ∀ x ∈ s.allocated, (s'.procs x).id = (s.procs x).id
  parentId : ∀ x ∈ s.allocated, (s'.procs x).parentId = (s.procs x).parentId
  immortal : ∀ x ∈ s.allocated, (s'.procs x).immortal = (s.procs x).immortal
  link : ∀ x ∈ s.allocated, (tallies s x).linked + collects (s.procs x).id s.log ≤
    (tallies s' x).linked + collects (s.procs x).id s'.log

/-- Once linked, always linked or collected. -/
theorem Frame.rooted (hf : Frame s s') (hx : x ∈ s.allocated) (h : Rooted s x) : Rooted s' x := by
  rcases h with hi | hpos
  · exact .inl ((hf.immortal x hx).trans hi)
  · right
    rw [hf.id x hx]
    exact Nat.lt_of_lt_of_le hpos (hf.link x hx)

/-- A step that creates nothing. -/
theorem Family.step (h : Inv s) (hf : Family s) (halloc : ∀ x ∈ s'.allocated, x ∈ s.allocated)
    (hkernel : kernelProcess ∈ s'.allocated) (hnext : s'.nextProcessId = s.nextProcessId)
    (hframe : Frame s s')
    (hregions : ∀ r ∈ s'.pending, r ∈ s.pending ∨
      ∀ x ∈ s.allocated, r.needs s'.procs x → Rooted s' x)
    (hthreads : ∀ t ∈ s'.threads, t.process ∈ s.allocated ∧ Rooted s t.process)
    (hparents : ∀ q ∈ s'.allocated, (s'.procs q).children ≠ [] → Rooted s q)
    (hgone : ∀ q ∈ s'.allocated, 0 < collects (s.procs q).id s'.log →
      (s'.procs q).children = [] ∧
        ((s'.procs q).state = .zombie ∨ (s'.procs q).state = .dead)) : Family s' where
  kernel := by
    obtain ⟨hmem, hid, himm⟩ := hf.kernel
    exact ⟨hkernel, (hframe.id _ hmem).trans hid, (hframe.immortal _ hmem).trans himm⟩
  known hn x hx := by
    rw [hnext] at hn ⊢
    rw [hframe.parentId x (halloc x hx)]
    exact hf.known hn x (halloc x hx)
  regions r hr x hx hneeds := by
    have hx' := halloc x hx
    rcases hregions r hr with hold | hnew
    · refine hframe.rooted hx' (hf.regions r hold x hx' ?_)
      cases r with
      | acquireParent p =>
        have hp := (h.held_owned hold (x := p) (by simp [Region.refs])).1
        have hids : (s'.procs x).id = (s'.procs p).parentId := hneeds
        rwa [hframe.id x hx', hframe.parentId p hp] at hids
      | _ => exact hneeds
    · exact hnew x hx' hneeds
  threads t ht := hframe.rooted (hthreads t ht).1 (hthreads t ht).2
  parents q hq hne := hframe.rooted (halloc q hq) (hparents q hq hne)
  gone q hq hpos := by
    rw [hframe.id q (halloc q hq)] at hpos
    exact hgone q hq hpos

/-- The fields of one process that say where it stands in the family. -/
structure Same (k k' : Proc) : Prop where
  id : k'.id = k.id
  parentId : k'.parentId = k.parentId
  immortal : k'.immortal = k.immortal
  children : k'.children = k.children
  ended : k.state = .zombie ∨ k.state = .dead → k'.state = .zombie ∨ k'.state = .dead

theorem same_edit {f : Proc → Proc} (hf : Same (s.procs q) (f (s.procs q))) (x : ProcPtr) :
    Same (s.procs x) ((s.edit q f).procs x) := by
  by_cases hx : x = q
  · subst hx
    rw [edit_self]
    exact hf
  · rw [edit_ne hx]
    exact ⟨rfl, rfl, rfl, rfl, fun h => h⟩

/-- A step that leaves every child list and every collection as it was. -/
theorem Family.same (h : Inv s) (hf : Family s) (halloc : s'.allocated = s.allocated)
    (hnext : s'.nextProcessId = s.nextProcessId)
    (hsame : ∀ x, Same (s.procs x) (s'.procs x))
    (hlog : ∀ pid, collects pid s'.log = collects pid s.log)
    (hregions : ∀ r ∈ s'.pending, r ∈ s.pending ∨
      ∀ x ∈ s.allocated, r.needs s'.procs x → Rooted s x)
    (hthreads : ∀ t ∈ s'.threads, t ∈ s.threads ∨
      t.process ∈ s.allocated ∧ Rooted s t.process) : Family s' := by
  have hlinked : ∀ x, (tallies s' x).linked = (tallies s x).linked := by
    intro x
    show linked s'.allocated s'.procs x = linked s.allocated s.procs x
    rw [halloc]
    exact linked_congr (fun q _ => (hsame q).children) x
  have hframe : Frame s s' :=
    { id := fun x _ => (hsame x).id
      parentId := fun x _ => (hsame x).parentId
      immortal := fun x _ => (hsame x).immortal
      link := fun x _ => Nat.le_of_eq (by rw [hlinked, hlog]) }
  refine hf.step h (fun x hx => halloc ▸ hx) (halloc ▸ hf.kernel.1) hnext hframe ?_ ?_ ?_ ?_
  · intro r hr
    refine (hregions r hr).imp_right fun hnew x hx hneeds => ?_
    exact hframe.rooted hx (hnew x hx hneeds)
  · intro t ht
    rcases hthreads t ht with hold | hnew
    · exact ⟨(h.bound_owned hold).1, hf.threads t hold⟩
    · exact hnew
  · intro q hq hne
    rw [(hsame q).children] at hne
    exact hf.parents q (halloc ▸ hq) hne
  · intro q hq hpos
    rw [hlog] at hpos
    obtain ⟨hnil, hended⟩ := hf.gone q (halloc ▸ hq) hpos
    exact ⟨(hsame q).children.trans hnil, (hsame q).ended hended⟩

/-- The regions after a move: the old ones and what the region goes on to. -/
theorem regions_move {rs : List Region} {P : Region → Prop} (hnew : ∀ r' ∈ rs, P r') :
    ∀ r' ∈ rs ++ s.pending.erase r, r' ∈ s.pending ∨ P r' := by
  intro r' hr'
  rcases mem_append.mp hr' with hr' | hr'
  · exact .inr (hnew r' hr')
  · exact .inl (mem_of_mem_erase hr')

theorem Passes.needs {rs : List Region} (hp : Passes r rs) {procs : ProcPtr → Proc} :
    ∀ r' ∈ rs, ∀ x, r'.needs procs x → r.needs procs x := by
  cases hp <;> simp [Region.needs]

/-- A process that can still get threads was not collected. -/
theorem Family.uncollected (hf : Family s) (hq : q ∈ s.allocated)
    (hz : (s.procs q).state ≠ .zombie) (hd : (s.procs q).state ≠ .dead) :
    collects (s.procs q).id s.log = 0 := by
  by_contra hne
  rcases (hf.gone q hq (Nat.pos_of_ne_zero hne)).2 with he | he
  · exact hz he
  · exact hd he

/-- The edits of a child list leave every process who it is. -/
theorem edit_keeps {f : Proc → Proc} (hf : ∀ k, (f k).id = k.id ∧ (f k).parentId = k.parentId ∧
      (f k).immortal = k.immortal ∧ (f k).state = k.state) (x : ProcPtr) :
    ((s.edit q f).procs x).id = (s.procs x).id ∧
      ((s.edit q f).procs x).parentId = (s.procs x).parentId ∧
      ((s.edit q f).procs x).immortal = (s.procs x).immortal ∧
      ((s.edit q f).procs x).state = (s.procs x).state :=
  ⟨edit_field (g := Proc.id) (f := f) (fun k => (hf k).1) x,
    edit_field (g := Proc.parentId) (f := f) (fun k => (hf k).2.1) x,
    edit_field (g := Proc.immortal) (f := f) (fun k => (hf k).2.2.1) x,
    edit_field (g := Proc.state) (f := f) (fun k => (hf k).2.2.2) x⟩

/-- A parent gets a child: the child is rooted from now on. -/
theorem Family.linkedChild (h : Inv s) (hf : Family s) (hr : .linkChild q p ∈ s.pending)
    (hz : (s.procs q).state ≠ .zombie) (hd : (s.procs q).state ≠ .dead) :
    Family ((s.edit q (linkFirst p)).move (.linkChild q p) [.release q, .created p]) := by
  have hq := (h.held_owned hr (x := q) (by simp only [Region.refs, one_self]; omega)).1
  have hlinked := linked_edit h.nodup hq (linkFirst p)
  have hkeep := edit_keeps (s := s) (q := q) (f := linkFirst p) fun _ => ⟨rfl, rfl, rfl, rfl⟩
  refine hf.step h (fun _ hx => hx) hf.kernel.1 rfl ?_ ?_ ?_ ?_ ?_
  · exact
      { id := fun x _ => (hkeep x).1
        parentId := fun x _ => (hkeep x).2.1
        immortal := fun x _ => (hkeep x).2.2.1
        link := fun x _ => by
          have h1 := hlinked x
          have h2 : (s.procs q).children.count x ≤ (linkFirst p (s.procs q)).children.count x :=
            count_le_count_cons
          show linked s.allocated s.procs x + collects (s.procs x).id s.log ≤
            linked s.allocated (s.edit q (linkFirst p)).procs x + collects (s.procs x).id s.log
          omega }
  · refine regions_move fun r' hr' x _ hneeds => ?_
    rcases mem_pair.mp hr' with rfl | rfl
    · cases hneeds
    · obtain rfl : x = p := hneeds
      right
      have h1 := hlinked x
      have h2 : (linkFirst x (s.procs q)).children.count x = (s.procs q).children.count x + 1 :=
        count_cons_self
      show 0 < linked s.allocated (s.edit q (linkFirst x)).procs x + _
      omega
  · exact fun t ht => ⟨(h.bound_owned ht).1, hf.threads t ht⟩
  · -- the parent is rooted, as long as the region was there
    intro y hy hne
    by_cases hyq : y = q
    · subst hyq
      exact hf.regions _ hr y hy rfl
    · change ((s.edit q (linkFirst p)).procs y).children ≠ [] at hne
      rw [edit_ne hyq] at hne
      exact hf.parents y hy hne
  · -- a collected process gets no children: it would have to be alive
    intro y hy hpos
    have hyq : y ≠ q := by
      rintro rfl
      exact Nat.ne_of_gt hpos (hf.uncollected hy hz hd)
    show ((s.edit q (linkFirst p)).procs y).children = [] ∧ _
    rw [edit_ne hyq]
    have hsame : (((s.edit q (linkFirst p)).move (.linkChild q p)
      [.release q, .created p]).procs y).state = (s.procs y).state := (hkeep y).2.2.2
    rw [hsame]
    exact hf.gone y hy hpos

/-- A parent collects a child that has no children. -/
theorem Family.collectedChild (h : Inv s) (hf : Family s) {t : Thread} (ht : t ∈ s.threads)
    (hc : p ∈ (s.procs t.process).children) (hz : (s.procs p).state = .zombie)
    (hleaf : (s.procs p).children = []) :
    Family (((s.edit t.process (unlink p)).record (.collected (s.procs p).id
      (s.procs t.process).id (s.procs p).exitStatus)).push (.release p)) := by
  have hq := (h.bound_owned ht).1
  have hp := (h.linked_owned hq hc).1
  have hlinked := linked_edit h.nodup hq (unlink p)
  have hkeep := edit_keeps (s := s) (q := t.process) (f := unlink p) fun _ => ⟨rfl, rfl, rfl, rfl⟩
  have hsub : ∀ y, ((s.edit t.process (unlink p)).procs y).children ⊆ (s.procs y).children := by
    intro y
    by_cases hy : y = t.process
    · subst hy
      rw [edit_self]
      exact erase_subset
    · rw [edit_ne hy]
      exact fun _ hmem => hmem
  refine hf.step h (fun _ hx => hx) hf.kernel.1 rfl ?_ ?_ ?_ ?_ ?_
  · exact
      { id := fun x _ => (hkeep x).1
        parentId := fun x _ => (hkeep x).2.1
        immortal := fun x _ => (hkeep x).2.2.1
        link := fun x hx => by
          have h1 := hlinked x
          show linked s.allocated s.procs x + _ ≤
            linked s.allocated (s.edit t.process (unlink p)).procs x + collects _ (_ :: s.log)
          rw [collects_cons]
          -- the child has one link less and one collection more
          by_cases hxp : x = p
          · subst hxp
            have h2 : (s.procs t.process).children.count x ≤
                (unlink x (s.procs t.process)).children.count x + 1 := by
              rw [unlink, count_erase_self]
              omega
            show _ ≤ _ + (one (s.procs x).id (s.procs x).id + _)
            rw [one_self]
            omega
          · have h2 : (unlink p (s.procs t.process)).children.count x =
                (s.procs t.process).children.count x := count_erase_of_ne hxp
            omega }
  · intro r hr
    rcases mem_cons.mp hr with rfl | hr
    · exact .inr fun x _ hneeds => by cases hneeds
    · exact .inl hr
  · exact fun t ht => ⟨(h.bound_owned ht).1, hf.threads t ht⟩
  · intro y hy hne
    refine hf.parents y hy fun hnil => hne ?_
    have hmem := hsub y
    rw [hnil] at hmem
    exact subset_nil.mp hmem
  · -- `p` is the one process that is collected now, and it has no children
    intro y hy hpos
    have hstate : ((s.edit t.process (unlink p)).procs y).state = (s.procs y).state :=
      (hkeep y).2.2.2
    have hchildless : (s.procs y).children = [] ∧
        ((s.procs y).state = .zombie ∨ (s.procs y).state = .dead) := by
      by_cases hyp : y = p
      · subst hyp
        exact ⟨hleaf, .inl hz⟩
      · have hid : (s.procs p).id ≠ (s.procs y).id := fun he => hyp (h.ids y hy p hp he.symm)
        change 0 < collects _ (_ :: s.log) at hpos
        rw [collects_cons] at hpos
        have hzero : (Event.collected (s.procs p).id (s.procs t.process).id
            (s.procs p).exitStatus).collects (s.procs y).id = 0 := one_ne hid
        rw [hzero, Nat.zero_add] at hpos
        exact hf.gone y hy hpos
    refine ⟨?_, ?_⟩
    swap
    · show ((s.edit t.process (unlink p)).procs y).state = _ ∨
        ((s.edit t.process (unlink p)).procs y).state = _
      rw [hstate]
      exact hchildless.2
    have hmem := hsub y
    rw [hchildless.1] at hmem
    exact subset_nil.mp hmem

/-- `kfree` of a process without children. -/
theorem Family.destroyed (h : Inv s) (hf : Family s) (hr : .destroy q ∈ s.pending)
    (hnil : (s.procs q).children = []) :
    Family ({ s with allocated := s.allocated.erase q }.move (.destroy q) []) := by
  have hmem : q ∈ s.allocated := by
    by_contra hno
    have := (h.unreferenced hno).2.2.2.1
    have := destroying_pos.mpr hr
    omega
  have hi := ((h.proc q hmem).dying (destroying_pos.mpr hr)).2.1
  have herase : ∀ {x}, x ∈ s.allocated.erase q ↔ x ≠ q ∧ x ∈ s.allocated :=
    List.Nodup.mem_erase_iff h.nodup
  have hkernel : kernelProcess ≠ q := by
    rintro rfl
    rw [hf.kernel.2.2] at hi
    cases hi
  have hlink := linked_destroyed hmem hnil
  refine hf.step h (fun _ hx => (herase.mp hx).2) (herase.mpr ⟨hkernel, hf.kernel.1⟩) rfl ?_
    ?_ ?_ ?_ ?_
  · exact
      { id := fun _ _ => rfl
        parentId := fun _ _ => rfl
        immortal := fun _ _ => rfl
        link := fun x _ => Nat.le_of_eq (congrArg (· + _) (hlink x).symm) }
  · exact regions_move fun _ hr' => by cases hr'
  · exact fun t ht => ⟨(h.bound_owned ht).1, hf.threads t ht⟩
  · exact fun y hy => hf.parents y (herase.mp hy).2
  · exact fun y hy => hf.gone y (herase.mp hy).2

/-- No region of before needs the new process: the id it looks for, if any, is older. -/
theorem Family.needs_created (hf : Family s) (h : Inv s) (hp : p ∉ s.allocated)
    (hnext : s.nextProcessId ≠ 0) {new : Proc} (hid : new.id = s.nextProcessId)
    (hr : r ∈ s.pending) (hx : x = p ∨ x ∈ s.allocated)
    (hneeds : r.needs (update s.procs p new) x) : x ∈ s.allocated ∧ r.needs s.procs x := by
  have hne : ∀ y ∈ s.allocated, update s.procs p new y = s.procs y := by
    intro y hy
    have hyp : y ≠ p := by
      rintro rfl
      exact hp hy
    exact update_of_ne hyp ..
  cases r with
  | acquireParent y =>
    have hy := (h.held_owned hr (x := y) (by simp [Region.refs])).1
    have hids : (update s.procs p new x).id = (update s.procs p new y).parentId := hneeds
    rw [hne y hy] at hids
    rcases hx with rfl | hx
    · rw [update_self, hid] at hids
      exact absurd hids (Nat.ne_of_gt (hf.known hnext y hy))
    · rw [hne x hx] at hids
      exact ⟨hx, hids⟩
  | inheritCwd a b | retainChild a b | linkChild a b =>
    obtain rfl : x = a := hneeds
    exact ⟨(h.held_owned hr (by simp only [Region.refs, one_self]; omega)).1, rfl⟩
  | created a | attach a =>
    obtain rfl : x = a := hneeds
    exact ⟨(h.held_owned hr (by simp [Region.refs])).1, rfl⟩
  | detach | release | destroy => cases hneeds

/-- A new process: its parent is the kernel or has a thread. -/
theorem Family.created (h : Inv s) (hf : Family s) (hp : p ∉ s.allocated)
    (hnext : s.nextProcessId ≠ 0) {parentId : Pid}
    (hparent : parentId = 1 ∨ ∃ t ∈ s.threads, parentId = (s.procs t.process).id)
    (hs' : processCreate s p parentId = .ok s') : Family s' := by
  have hids : ∀ x ∈ s.allocated, (s.procs x).id < s.nextProcessId := fun x hx =>
    h.fresh hnext _ (h.proc x hx).createdLogged
  have hparentLt : parentId < s.nextProcessId := by
    rcases hparent with rfl | ⟨t, ht, rfl⟩
    · rw [← hf.kernel.2.1]
      exact hids _ hf.kernel.1
    · exact hids _ (h.bound_owned ht).1
  rw [processCreate, if_neg hnext] at hs'
  obtain rfl := Except.ok.inj hs'
  generalize hnew : newProcess s.nextProcessId parentId = new
  have hne : ∀ x ∈ s.allocated, update s.procs p new x = s.procs x := by
    intro x hx
    have hxp : x ≠ p := by
      rintro rfl
      exact hp hx
    exact update_of_ne hxp ..
  have hself : update s.procs p new p = new := update_self ..
  have hid : new.id = s.nextProcessId := hnew ▸ rfl
  have hchildren : new.children = [] := hnew ▸ rfl
  have hlink := linked_created hp hchildren
  generalize hs' : ({ s with
    allocated := p :: s.allocated
    procs := update s.procs p new
    registry := p :: s.registry
    nextProcessId := (s.nextProcessId + 1) % 2 ^ 32
    liveProcesses := s.liveProcesses + 1
    pending := .acquireParent p :: s.pending
    log := .created s.nextProcessId parentId :: s.log } : System) = s'
  have hprocs : s'.procs = update s.procs p new := hs' ▸ rfl
  have hrooted : ∀ x ∈ s.allocated, Rooted s x → Rooted s' x := by
    intro x hx hr
    rw [Rooted, hprocs, hne x hx]
    refine hr.imp_right fun hpos => ?_
    subst hs'
    show 0 < linked (p :: s.allocated) (update s.procs p new) x + collects _ (_ :: s.log)
    rw [hlink, collects_cons]
    show 0 < _ + (0 + _)
    rw [Nat.zero_add]
    exact hpos
  have hgone : ∀ x, collects x s'.log = collects x s.log := by
    intro x
    subst hs'
    rw [collects_cons]
    exact Nat.zero_add _
  have hmem : ∀ {x}, x ∈ s'.allocated → x = p ∨ x ∈ s.allocated := by
    subst hs'
    exact mem_cons.mp
  refine
    { kernel := ?_
      known := ?_
      regions := ?_
      threads := ?_
      parents := ?_
      gone := ?_ }
  · rw [hprocs, hne _ hf.kernel.1]
    subst hs'
    exact ⟨mem_cons_of_mem _ hf.kernel.1, hf.kernel.2⟩
  · intro hn x hx
    have hlt : s'.nextProcessId = s.nextProcessId + 1 := by
      subst hs'
      exact h.next_succ hn
    rw [hlt, hprocs]
    rcases hmem hx with rfl | hx
    · rw [hself, ← hnew]
      exact Nat.lt_succ_of_lt hparentLt
    · rw [hne x hx]
      exact Nat.lt_succ_of_lt (hf.known hnext x hx)
  · intro r hr x hx hneeds
    rw [hprocs] at hneeds
    have hr' : r = .acquireParent p ∨ r ∈ s.pending := by
      subst hs'
      exact mem_cons.mp hr
    rcases hr' with rfl | hr'
    · -- the new process looks for a parent that exists already
      have hpid : (update s.procs p new x).id = parentId := by
        have hnewParent : new.parentId = parentId := hnew ▸ rfl
        have hneeds : (update s.procs p new x).id = (update s.procs p new p).parentId := hneeds
        rwa [hself, hnewParent] at hneeds
      rcases hmem hx with rfl | hx
      · rw [hself, hid] at hpid
        exact absurd hpid (Nat.ne_of_gt hparentLt)
      · rw [hne x hx] at hpid
        refine hrooted x hx ?_
        rcases hparent with rfl | ⟨t, ht, rfl⟩
        · obtain rfl := h.ids x hx _ hf.kernel.1 (hpid.trans hf.kernel.2.1.symm)
          exact .inl hf.kernel.2.2
        · obtain rfl := h.ids x hx _ (h.bound_owned ht).1 hpid
          exact hf.threads t ht
    · obtain ⟨hx, hold⟩ := hf.needs_created h hp hnext hid hr' (hmem hx) hneeds
      exact hrooted x hx (hf.regions r hr' x hx hold)
  · intro t ht
    have ht : t ∈ s.threads := by
      subst hs'
      exact ht
    exact hrooted _ (h.bound_owned ht).1 (hf.threads t ht)
  · intro q hq hne'
    rw [hprocs] at hne'
    rcases hmem hq with rfl | hq
    · rw [hself] at hne'
      exact absurd hchildren hne'
    · rw [hne q hq] at hne'
      exact hrooted q hq (hf.parents q hq hne')
  · intro q hq hpos
    rw [hgone, hprocs] at hpos
    rw [hprocs]
    rcases hmem hq with rfl | hq
    · rw [hself, hid, collects_eq_zero fun e he => Nat.ne_of_lt (h.fresh hnext e he)] at hpos
      exact absurd hpos (Nat.lt_irrefl 0)
    · rw [hne q hq] at hpos ⊢
      exact hf.gone q hq hpos

/-! ## Runs -/

theorem Change.family (h : Inv s) (hf : Family s) (hc : Change s l s')
    (hleaf : CollectsLeaf s l) : Family s' := by
  cases hc with
  | same => exact hf
  | created hp hnext hparent hcreate => exact hf.created h hp hnext hparent hcreate
  | passed hr hpass =>
    refine hf.same h rfl rfl (fun _ => ⟨rfl, rfl, rfl, rfl, fun h => h⟩) (fun _ => rfl) ?_
      (fun _ ht => .inl ht)
    exact regions_move fun r' hr' x hx hneeds => hf.regions _ hr x hx (hpass.needs r' hr' x hneeds)
  | @foundParent _ q p hr hq hd hid =>
    refine hf.same h rfl rfl (same_edit ⟨rfl, rfl, rfl, rfl, fun h => h⟩) (fun _ => rfl) ?_
      (fun _ ht => .inl ht)
    refine regions_move fun r' hr' x hx hneeds => ?_
    obtain rfl := mem_singleton.mp hr'
    obtain rfl : x = q := hneeds
    exact hf.regions _ hr x hq hid
  | @retained _ q p hr =>
    refine hf.same h rfl rfl (same_edit ⟨rfl, rfl, rfl, rfl, fun h => h⟩) (fun _ => rfl) ?_
      (fun _ ht => .inl ht)
    refine regions_move fun r' hr' x hx hneeds => ?_
    obtain rfl := mem_singleton.mp hr'
    exact hf.regions _ hr x hx hneeds
  | linked hr hz hd => exact hf.linkedChild h hr hz hd
  | @bound _ q hroot =>
    refine hf.same h rfl rfl (same_edit ⟨rfl, rfl, rfl, rfl, fun h => h⟩) (fun _ => rfl) ?_
      (fun _ ht => .inl ht)
    intro r hr
    rcases mem_cons.mp hr with rfl | hr
    · refine .inr fun x hx hneeds => ?_
      obtain rfl : x = q := hneeds
      rcases hroot with hr | ⟨t, ht, rfl⟩
      · exact hf.regions _ hr x hx rfl
      · exact hf.threads t ht
    · exact .inl hr
  | @lookedUp _ q hq hd =>
    refine hf.same h rfl rfl (same_edit ⟨rfl, rfl, rfl, rfl, fun h => h⟩) (fun _ => rfl) ?_
      (fun _ ht => .inl ht)
    intro r hr
    rcases mem_cons.mp hr with rfl | hr
    · exact .inr fun _ _ hneeds => by cases hneeds
    · exact .inl hr
  | @attached _ q hr hstate =>
    have hq := (h.held_owned hr (x := q) (by simp [Region.refs])).1
    have hended : ¬((s.procs q).state = .zombie ∨ (s.procs q).state = .dead) := by
      rcases hstate with hs | hs <;> simp [hs]
    refine hf.same h rfl rfl (same_edit ⟨rfl, rfl, rfl, rfl, fun h => absurd h hended⟩)
      (fun _ => rfl) (regions_move fun _ hr' => by cases hr') ?_
    intro t ht
    rcases mem_cons.mp ht with rfl | ht
    · exact .inr ⟨hq, hf.regions _ hr q hq rfl⟩
    · exact .inl ht
  | @detached _ q f log hr hedit =>
    have hsame : Same (s.procs q) (f (s.procs q)) := by
      rcases hedit with ⟨rfl, -⟩ | ⟨rfl, -⟩
      · exact ⟨rfl, rfl, rfl, rfl, fun h => h⟩
      · exact ⟨rfl, rfl, rfl, rfl, fun _ => .inl rfl⟩
    have hlog : ∀ pid, collects pid log = collects pid s.log := by
      intro pid
      rcases hedit with ⟨-, rfl, -⟩ | ⟨-, rfl, -⟩
      · rfl
      · rw [collects_cons]
        exact Nat.zero_add _
    refine hf.same h rfl rfl (same_edit hsame) hlog ?_ (fun _ ht => .inl ht)
    refine regions_move fun r' hr' x _ hneeds => ?_
    obtain rfl := mem_singleton.mp hr'
    cases hneeds
  | dropped hr hrel hmany =>
    exact hf.same h rfl rfl (same_edit ⟨rfl, rfl, rfl, rfl, fun h => h⟩) (fun _ => rfl)
      (regions_move fun _ hr' => by cases hr') (fun _ ht => .inl ht)
  | retired hr hrel hi hlast =>
    refine hf.same h rfl rfl (same_edit ⟨rfl, rfl, rfl, rfl, fun _ => .inr rfl⟩) (fun _ => rfl)
      ?_ (fun _ ht => .inl ht)
    refine regions_move fun r' hr' x _ hneeds => ?_
    obtain rfl := mem_singleton.mp hr'
    cases hneeds
  | destroyed hr hnil => exact hf.destroyed h hr hnil
  | statusSet ht =>
    refine hf.same h rfl rfl (same_edit ⟨rfl, rfl, rfl, rfl, fun h => h⟩) ?_
      (fun _ hr => .inl hr) (fun _ ht => .inl ht)
    intro pid
    exact (collects_cons ..).trans (Nat.zero_add _)
  | @phase _ t _ ht =>
    refine hf.same h rfl rfl (fun _ => ⟨rfl, rfl, rfl, rfl, fun h => h⟩) (fun _ => rfl)
      (fun _ hr => .inl hr) ?_
    intro t' ht'
    rcases mem_cons.mp ht' with rfl | ht'
    · have hroot := hf.threads t ht
      exact .inr ⟨(h.bound_owned ht).1, hroot⟩
    · exact .inl (mem_of_mem_erase ht')
  | dropThread ht =>
    refine hf.same h rfl rfl (fun _ => ⟨rfl, rfl, rfl, rfl, fun h => h⟩) (fun _ => rfl) ?_
      (fun _ ht' => .inl (mem_of_mem_erase ht'))
    intro r hr
    rcases mem_cons.mp hr with rfl | hr
    · exact .inr fun _ _ hneeds => by cases hneeds
    · exact .inl hr
  | @collected t c ht hc hz => exact hf.collectedChild h ht hc hz (hleaf c hc rfl hz)

/-- A process that is being destroyed owns no children. -/
theorem Family.childless (h : Inv s) (hf : Family s) (hr : .destroy q ∈ s.pending) :
    (s.procs q).children = [] := by
  have hd := destroying_pos.mpr hr
  have hmem : q ∈ s.allocated := by
    by_contra hno
    have := (h.unreferenced hno).2.2.2.1
    omega
  obtain ⟨-, hi, hrc⟩ := (h.proc q hmem).dying hd
  have hzero : (tallies s q).owners = 0 := ((h.proc q hmem).counted hi).symm.trans hrc
  by_contra hne
  rcases hf.parents q hmem hne with himm | hpos
  · rw [hi] at himm
    cases himm
  · have hcollected : 0 < collects (s.procs q).id s.log := by
      rw [Tallies.owners] at hzero
      omega
    exact hne (hf.gone q hmem hcollected).1

theorem initial_family : Family initial where
  kernel := ⟨mem_singleton.mpr rfl, rfl, rfl⟩
  known _ _ _ := Nat.zero_lt_two
  regions _ hr := by cases hr
  threads _ ht := by cases ht
  parents _ _ hne := absurd rfl hne
  gone q _ hpos := by
    have hzero : collects (initial.procs q).id initial.log = 0 := rfl
    omega

theorem step_family (h : Inv s ∧ Family s ∧ s.panic ≠ some .ownedChildren)
    (hleaf : CollectsLeaf s l) (hs : step s l = some s') :
    Inv s' ∧ Family s' ∧ s'.panic ≠ some .ownedChildren := by
  obtain ⟨hinv, hfam, -⟩ := h
  obtain ⟨hpanic, ⟨-, hchange⟩ | rfl | ⟨rfl, q, hr, howned⟩⟩ := step_cases hinv hs
  · refine ⟨hchange.inv hinv, hchange.family hinv hfam hleaf, ?_⟩
    rw [hchange.panic, hpanic]
    nofun
  · exact ⟨hinv.panicked _, { hfam with }, nofun⟩
  · exact absurd (hfam.childless hinv hr) howned

theorem family_run {ls : List Label} {t : System}
    (hr : RunWhere step CollectsLeaf initial ls t) :
    Inv t ∧ Family t ∧ t.panic ≠ some .ownedChildren :=
  hr.invariant (I := fun s => Inv s ∧ Family s ∧ s.panic ≠ some .ownedChildren)
    ⟨initial_inv, initial_family, nofun⟩ fun _ _ _ h hok hs => step_family h hok hs

/-- In a run whose `process_waitpid`s collect only processes without children of
their own, no process that owns children is ever destroyed. -/
theorem childless_run {ls : List Label} {t : System}
    (hr : RunWhere step CollectsLeaf initial ls t) : t.panic ≠ some .ownedChildren :=
  (family_run hr).2.2

/-- A run that meets the condition and collects a child. -/
theorem childless_run_oneChild : ∃ t, exec step CollectsLeaf initial oneChild = some t ∧
    .collected 3 2 7 ∈ t.log ∧ t.panic ≠ some .ownedChildren :=
  exists_exec (fun t => .collected 3 2 7 ∈ t.log) (by decide +kernel)
    fun _ hr hlog => ⟨hlog, childless_run hr⟩

/-- A child with a child of its own exits and is collected. -/
def threeGenerations : List Label :=
  spawn none kernelProcess 1 ++ spawn (some ⟨1, .running⟩) 1 2 ++
    spawn (some ⟨2, .running⟩) 2 3 ++ quit 2 0 ++
    [.waitpid ⟨1, .running⟩ 3, .proceed (.release 2) true, .proceed (.destroy 2) true]

/-- Not every run keeps clear of the panic. -/
theorem not_run_childless :
    ¬ ∀ (ls : List Label) (t : System), Run step initial ls t → t.panic ≠ some .ownedChildren := by
  intro hall
  have hrun : (exec step (fun _ _ => True) initial threeGenerations).any
      (fun t => decide (t.panic = some .ownedChildren)) = true := by decide +kernel
  obtain ⟨t, ht, hpanic⟩ := (Option.any_eq_true _ _).mp hrun
  exact hall _ t (run_of_exec ht) (of_decide_eq_true hpanic)

/-! ## Lifetimes -/

/-- An object leaves the heap only by its own destruction. -/
theorem Change.frees (hc : Change s l s') (hp : p ∈ s.allocated) (hgone : p ∉ s'.allocated) :
    .destroy p ∈ s.pending := by
  cases hc with
  | created _ hnext _ hcreate =>
    rw [processCreate, if_neg hnext] at hcreate
    obtain rfl := Except.ok.inj hcreate
    exact absurd (mem_cons_of_mem _ hp) hgone
  | @destroyed _ q hr _ =>
    by_cases hpq : p = q
    · exact hpq ▸ hr
    · exact absurd ((mem_erase_of_ne hpq).mpr hp) hgone
  | _ => exact absurd hp hgone

/-- `ProcessSound`, and the destruction of an object nobody owns succeeds. -/
structure Reclaimed (s : System) : Prop where
  sound : ProcessSound s
  running : s.panic = none ∨ s.panic = some .pidExhausted
  /-- An object without owners can be destroyed, and is gone afterwards. -/
  reclaimed : s.panic = none → ∀ p ∈ s.allocated, (s.procs p).immortal = false →
    owners s p = 0 → ∀ ok, ∃ t, step s (.proceed (.destroy p) ok) = some t ∧ p ∉ t.allocated
  /-- No other object is ever freed. -/
  only : ∀ l t p, step s l = some t → p ∈ s.allocated → p ∉ t.allocated →
    (s.procs p).immortal = false ∧ owners s p = 0

theorem Inv.reclaimed (h : Inv s) (hf : Family s) (hstop : Stopped s)
    (hown : s.panic ≠ some .ownedChildren) : Reclaimed s where
  sound := h.sound hstop
  running := hstop.imp_right fun hp => hp.resolve_right hown
  reclaimed hp p hmem hi hzero ok := by
    have hr := ((h.sound hstop).destroyed p hmem hi).mpr hzero
    obtain ⟨-, hdone⟩ | ⟨hne, -⟩ := processDestroy_cases h hr
    · refine ⟨{ s with allocated := s.allocated.erase p }.move (.destroy p) [], ?_,
        h.nodup.not_mem_erase⟩
      rw [step, if_pos ⟨hp, hr⟩, act, proceed, hdone]
      rfl
    · exact absurd (hf.childless h hr) hne
  only l t p hs hmem hgone := by
    obtain ⟨-, ⟨-, hchange⟩ | rfl | ⟨rfl, -⟩⟩ := step_cases h hs
    · have hr := hchange.frees hmem hgone
      obtain ⟨-, hi, -⟩ := (h.proc p hmem).dying (destroying_pos.mpr hr)
      exact ⟨hi, ((h.sound hstop).destroyed p hmem hi).mp hr⟩
    · exact absurd hmem hgone
    · exact absurd hmem hgone

/-- In a run whose `process_waitpid`s collect only processes without children of
their own, every object is freed exactly when its last owner is gone. -/
theorem reclaimed_run {ls : List Label} {t : System}
    (hr : RunWhere step CollectsLeaf initial ls t) : Reclaimed t := by
  obtain ⟨hinv, hfam, hown⟩ := family_run hr
  exact hinv.reclaimed hfam (run_inv hr).2 hown

theorem reclaimed_run_oneChild : ∃ t, RunWhere step CollectsLeaf initial oneChild t ∧
    (.collected 3 2 7 ∈ t.log ∧ 2 ∉ t.allocated) ∧ Reclaimed t :=
  exists_run (fun t => .collected 3 2 7 ∈ t.log ∧ 2 ∉ t.allocated) (by decide +kernel)
    fun _ hr h => ⟨h, reclaimed_run hr⟩

/-- The process in the middle has no owner left, and no step frees it. -/
theorem not_reclaimed : ∃ t, Run step initial threeGenerations t ∧ 2 ∈ t.allocated ∧
    (t.procs 2).immortal = false ∧ owners t 2 = 0 ∧ ∀ l, step t l = none :=
  exists_run (fun t => (2 ∈ t.allocated ∧ (t.procs 2).immortal = false ∧ owners t 2 = 0) ∧
      t.panic = some .ownedChildren) (by decide +kernel) fun t _ ⟨⟨hmem, hi, hown⟩, hp⟩ =>
    ⟨hmem, hi, hown, fun l => if_neg fun h => by simp [hp] at h⟩

end MeatySkeleton.Process
