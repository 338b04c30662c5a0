import MeatySkeleton.Process.Invariant

/-!
# Every change keeps the process invariant

The changes of `Process.Invariant` that a region makes to an object beside its
reference count: the last drop, threads, child links, exit statuses, creation
and destruction.
-/

namespace MeatySkeleton.Process

open List Lib
open Process.System (move)
open Region (refs making detaching destroying)

variable {s : System} {p q x : ProcPtr} {r : Region} {k : Proc} {n : Tallies}
  {registered : Prop} {log : List Event}

/-! ## Dropping a reference -/

/-- A region that holds one reference to `q` and nothing else. -/
def Region.drops (r : Region) (q : ProcPtr) : Prop := r = .release q ∨ r = .created q

theorem Region.drops.weights (hrel : r.drops q) (x : ProcPtr) :
    r.refs x = one q x ∧ r.making x = 0 ∧ r.detaching x = 0 ∧ r.destroying x = 0 := by
  rcases hrel with rfl | rfl <;> exact ⟨rfl, rfl, rfl, rfl⟩

theorem due_destroy (q x : ProcPtr) : due refs [.destroy q] x = 0 ∧
    due making [.destroy q] x = 0 ∧ due detaching [.destroy q] x = 0 ∧
    due destroying [.destroy q] x = one q x := ⟨rfl, rfl, rfl, rfl⟩

/-- The reference count of an immortal process stands still. -/
def countDown (k : Proc) : Proc :=
  { k with referenceCount := k.referenceCount - if k.immortal then 0 else 1 }

theorem drop_immortal (hi : (s.procs q).immortal = true) : s.edit q countDown = s := by
  have hsame : (s.procs q).referenceCount - (if (s.procs q).immortal then 0 else 1) =
      (s.procs q).referenceCount := by
    rw [hi]
    rfl
  have hdown : countDown (s.procs q) = s.procs q := by rw [countDown, hsame]
  rw [System.edit, hdown, Function.update_eq_self]

theorem drop_mortal (hi : (s.procs q).immortal = false) :
    s.edit q countDown = s.edit q dropReference := by
  have hless : (s.procs q).referenceCount - (if (s.procs q).immortal then 0 else 1) =
      (s.procs q).referenceCount - 1 := by
    rw [hi]
    rfl
  have hdown : countDown (s.procs q) = dropReference (s.procs q) := by
    rw [countDown, hless, Process.dropReference]
  rw [System.edit, hdown, System.edit]

/-- A reference that is not the last one is dropped. -/
theorem Inv.dropped (h : Inv s) (hr : r ∈ s.pending) (hrel : r.drops q)
    (hmany : (s.procs q).immortal = false → (s.procs q).referenceCount ≠ 1) :
    Inv ((s.edit q countDown).move r []) := by
  have hown := h.held_owned hr (x := q) (by rw [(hrel.weights q).1, one_self]; exact Nat.one_pos)
  have hrep := fun w x => due_replace (w := w) hr [] x
  have hm : ∀ x, (tallies s x).Moves (tallies (s.move r []) x) := by
    intro x
    obtain ⟨-, hmaking, hdetaching, hdestroying⟩ := hrel.weights x
    have h1 := hrep making x
    have h2 := hrep detaching x
    have h3 := hrep destroying x
    rw [due_nil] at h1 h2 h3
    refine ⟨?_, ?_, ?_⟩ <;> simp only [tallies, move] <;> omega
  have ho : ∀ x, owners (s.move r []) x + one q x = owners s x := by
    intro x
    have hw := (hrel.weights x).1
    have h1 := hrep refs x
    rw [due_nil] at h1
    simp only [owners, Tallies.owners, tallies, move]
    omega
  refine h.edited ([] ++ s.pending.erase r) s.threads s.log hown.1
    ⟨fun _ => rfl, fun _ => rfl, fun _ => rfl⟩ (fun x _ => hm x) ?_ ?_ (.inl rfl) ?_
  · intro x hx
    have := ho x
    rw [one_ne (Ne.symm hx)] at this
    exact this
  · have hk := h.proc q hown.1
    have hcount := ho q
    rw [one_self] at hcount
    refine hk.recount (hm q) ?_ ?_ fun hd => absurd hown.2 (Nat.pos_iff_ne_zero.mp hd)
    · intro hi
      have hrc : (s.procs q).referenceCount = owners s q := hk.counted hi
      have hless : (s.procs q).referenceCount - 1 = owners (s.move r []) q := by omega
      rw [hi]
      exact hless
    · intro hd
      cases hi : (s.procs q).immortal with
      | true => exact .inl rfl
      | false =>
        have hne := hmany hi
        rcases (hk.alive hd).2 with himm | hpos
        · rw [hi] at himm; cases himm
        · right
          show 0 < (s.procs q).referenceCount - 1
          omega
  · intro r' hr'
    exact h.agrees r' (mem_of_mem_erase hr')

/-- The last reference is dropped: the object leaves the registry and will be
destroyed. -/
theorem Inv.retired (h : Inv s) (hr : r ∈ s.pending) (hrel : r.drops q)
    (hi : (s.procs q).immortal = false) (hlast : (s.procs q).referenceCount = 1) :
    Inv ((s.retire q).move r [.destroy q]) := by
  have hown := h.held_owned hr (x := q) (by rw [(hrel.weights q).1, one_self]; exact Nat.one_pos)
  have hk := h.proc q hown.1
  have hrep := fun w x => due_replace (w := w) hr [.destroy q] x
  have htallies : ∀ x, tallies ((s.retire q).move r [.destroy q]) x =
      tallies (s.move r [.destroy q]) x := tallies_edit (s := s.move r [.destroy q])
        (f := dropLast) fun _ => rfl
  have hm : ∀ x, x ≠ q → (tallies s x).Moves (tallies (s.move r [.destroy q]) x) := by
    intro x hx
    obtain ⟨-, hmaking, hdetaching, hdestroying⟩ := hrel.weights x
    obtain ⟨-, hnew, hnew', hnew''⟩ := due_destroy q x
    have hone : one q x = 0 := one_ne (Ne.symm hx)
    have h1 := hrep making x
    have h2 := hrep detaching x
    have h3 := hrep destroying x
    refine ⟨?_, ?_, ?_⟩ <;> simp only [tallies, move] <;> omega
  have ho : ∀ x, owners (s.move r [.destroy q]) x + one q x = owners s x := by
    intro x
    have hw := (hrel.weights x).1
    have h1 := hrep refs x
    have h2 := (due_destroy q x).1
    simp only [owners, Tallies.owners, tallies, move]
    omega
  have hreg : q ∈ s.registry := hk.registered.mpr hown.2
  have herase : ∀ {x}, x ∈ s.registry.erase q ↔ x ≠ q ∧ x ∈ s.registry :=
    List.Nodup.mem_erase_iff h.regNodup
  refine h.update (q := q) rfl rfl (fun x hx => edit_ne hx)
    (edit_field (g := Proc.id) (f := dropLast) (fun _ => rfl) q)
    (edit_field (g := Proc.parentId) (f := dropLast) (fun _ => rfl) q)
    (h.regNodup.erase q) ?_ ?_ ?_ ?_ ?_ ?_ h.logOk (fun e he => ⟨e, he, rfl⟩)
  · show s.liveProcesses - 1 = (s.registry.erase q).length
    rw [length_erase_of_mem hreg, h.live]
  · -- an address without an object stays without references
    intro x hx
    have hne : x ≠ q := fun he => hx (he ▸ hown.1)
    obtain ⟨hfree, hdes, hnot⟩ := h.freed x hx
    have hox := ho x
    rw [one_ne (Ne.symm hne)] at hox
    rw [owners, htallies]
    exact ⟨hox.trans hfree, (hm x hne).destroying.trans hdes, fun hmem => hnot (herase.mp hmem).2⟩
  · -- every other process only has to stay registered
    intro x hx hne
    rw [htallies]
    have hox := ho x
    rw [one_ne (Ne.symm hne)] at hox
    have hx' := (h.proc x hx).transfer (hm x hne) hox
    have hsame : x ∈ s.registry.erase q ↔ x ∈ s.registry :=
      ⟨fun hmem => (herase.mp hmem).2, fun hmem => herase.mpr ⟨hne, hmem⟩⟩
    exact { hx' with registered := hsame.trans hx'.registered }
  · -- the process itself: no owner is left, and one destruction is due
    intro _
    obtain ⟨-, hmaking, hdetaching, hdestroying⟩ := hrel.weights q
    obtain ⟨-, hnew, hnew', hnew''⟩ := due_destroy q q
    rw [one_self] at hnew''
    have h1 := hrep making q
    have h2 := hrep detaching q
    have h3 := hrep destroying q
    have hcount := ho q
    rw [one_self] at hcount
    have hrc : (s.procs q).referenceCount = owners s q := hk.counted hi
    have hdes : (tallies (s.move r [.destroy q]) q).destroying = 1 := by
      have hzero := hown.2
      simp only [tallies, move] at hzero ⊢
      omega
    have hself : ((s.retire q).move r [.destroy q]).procs q = dropLast (s.procs q) :=
      edit_self _
    rw [htallies, hself]
    exact
      { counted := fun _ => by
          show 0 = owners (s.move r [.destroy q]) q
          omega
        alive := fun hd => by omega
        dying := fun _ => ⟨hdes, hi, rfl⟩
        registered := ⟨fun hmem => absurd rfl (herase.mp hmem).1, fun hd => by omega⟩
        threads := by
          have hlive := hk.threads
          simp only [tallies, move] at hlive ⊢
          show (s.procs q).liveThreads = _
          omega
        zombieThreads := fun hz => by cases hz
        children := hk.children
        once := by
          have hone := hk.once
          simp only [tallies, move] at hone ⊢
          show _ + _ + collects (s.procs q).id s.log ≤ 1
          omega
        status := hk.status
        zombieLogged := fun hz => by cases hz
        notZombie := fun _ hd => absurd rfl hd
        createdLogged := hk.createdLogged }
  · intro c hc hmem
    have hsame : (((s.retire q).move r [.destroy q]).procs q).children = (s.procs q).children :=
      edit_field (g := Proc.children) (f := dropLast) (fun _ => rfl) q
    rw [hsame] at hc
    exact h.parents q hmem c hc
  · intro r' hr'
    rcases mem_append.mp hr' with hr' | hr'
    · obtain rfl := mem_singleton.mp hr'
      trivial
    · exact h.agrees r' (mem_of_mem_erase hr')

/-! ## Threads and exit statuses -/

/-- A process with a thread is no zombie and not dead. -/
theorem ProcInv.lively (h : ProcInv k n registered log) (hd : n.destroying = 0)
    (hlive : 0 < k.liveThreads) : k.state ≠ .zombie ∧ k.state ≠ .dead :=
  ⟨fun hz => absurd (h.zombieThreads hz) (Nat.ne_of_gt hlive), (h.alive hd).1⟩

theorem Inv.attached (h : Inv s) (hr : .attach q ∈ s.pending)
    (hstate : (s.procs q).state = .new ∨ (s.procs q).state = .running) :
    Inv { (s.edit q attachThread).move (.attach q) [] with
      threads := ⟨q, .unpublished⟩ :: s.threads } := by
  have hown := h.held_owned hr (x := q) (by simp [refs])
  have hk := h.proc q hown.1
  have hrep := fun w x => due_replace (w := w) hr [] x
  have hz : (s.procs q).state ≠ .zombie ∧ (s.procs q).state ≠ .dead := by
    rcases hstate with hs | hs <;> simp [hs]
  have hnum : ∀ x, owners { s.move (.attach q) [] with
      threads := ⟨q, .unpublished⟩ :: s.threads } x = owners s x := by
    intro x
    have h1 := hrep refs x
    simp only [due_nil, refs] at h1
    simp only [owners, Tallies.owners, tallies, move, bound_cons]
    omega
  have hm1 := fun x => hrep making x
  have hm2 := fun x => hrep detaching x
  have hm3 := fun x => hrep destroying x
  simp only [due_nil, making, detaching, destroying] at hm1 hm2 hm3
  refine h.edited ([] ++ s.pending.erase (.attach q)) (⟨q, .unpublished⟩ :: s.threads) s.log hown.1
    ⟨fun _ => rfl, fun _ => rfl, fun _ => rfl⟩ ?_ (fun x _ => hnum x) ?_ (.inl rfl) ?_
  · intro x hx
    have hone : one q x = 0 := one_ne (Ne.symm hx)
    have h1 := hm1 x
    have h2 := hm2 x
    have h3 := hm3 x
    refine ⟨?_, ?_, ?_⟩ <;> simp only [tallies, bound_cons] <;> omega
  · have h1 := hm1 q
    have h2 := hm2 q
    have h3 := hm3 q
    have hzero := hown.2
    have hdes : (tallies { s.move (.attach q) [] with
        threads := ⟨q, .unpublished⟩ :: s.threads } q).destroying = 0 := by
      simp only [tallies, move] at hzero ⊢
      omega
    exact
      { counted := fun hi => (hk.counted hi).trans (hnum q).symm
        alive := fun _ => ⟨fun hd => (by cases hd), (hk.alive hzero).2⟩
        dying := fun hd => absurd hdes (Nat.pos_iff_ne_zero.mp hd)
        registered := ⟨fun _ => hdes, fun _ => hk.registered.mpr hzero⟩
        threads := by
          have hlive := hk.threads
          simp only [tallies, bound_cons, one_self] at hlive ⊢
          show (s.procs q).liveThreads + 1 = _
          omega
        zombieThreads := fun hz => by cases hz
        children := hk.children
        once := by
          have hone := hk.once
          simp only [tallies] at hone ⊢
          show _ + _ + collects (s.procs q).id s.log ≤ 1
          omega
        status := hk.status
        zombieLogged := fun hz => by cases hz
        notZombie := fun _ _ => hk.notZombie hz.1 hz.2
        createdLogged := hk.createdLogged }
  · intro r' hr'
    exact h.agrees r' (mem_of_mem_erase hr')

/-- A pending detach counts as one of the live threads. -/
theorem Inv.detach_live (h : Inv s) (hr : .detach q ∈ s.pending) :
    q ∈ s.allocated ∧ (tallies s q).destroying = 0 ∧ 0 < (s.procs q).liveThreads := by
  have hown := h.held_owned hr (x := q) (by simp [refs])
  refine ⟨hown.1, hown.2, ?_⟩
  have hle : detaching (.detach q) q ≤ due detaching s.pending q := le_due hr
  have hlive := (h.proc q hown.1).threads
  rw [detaching, one_self] at hle
  simp only [tallies] at hlive
  omega

/-- How `process_thread_detach` writes the process and the history. -/
def DetachEdit (s : System) (q : ProcPtr) (f : Proc → Proc) (log : List Event) : Prop :=
  f = detachThread ∧ log = s.log ∧ (s.procs q).state ≠ .zombie ∨
    f = becomeZombie ∘ detachThread ∧ log = .zombie (s.procs q).id :: s.log ∧
      (s.procs q).liveThreads = 1

/-- A thread leaves; the last one turns the process into a zombie. -/
theorem Inv.detached (h : Inv s) (hr : .detach q ∈ s.pending) {f : Proc → Proc}
    {log : List Event} (hf : DetachEdit s q f log) :
    Inv ({ s.edit q f with log := log }.move (.detach q) [.release q]) := by
  obtain ⟨hmem, hzero, hlive⟩ := h.detach_live hr
  have hk := h.proc q hmem
  obtain ⟨hz, hdead⟩ := hk.lively hzero hlive
  have hquiet := hk.notZombie hz hdead
  have hrep := fun w x => due_replace (w := w) hr [.release q] x
  have ho : ∀ x, owners (s.move (.detach q) [.release q]) x = owners s x := by
    intro x
    have h1 := hrep refs x
    simp only [due_cons, due_nil, refs] at h1
    simp only [owners, Tallies.owners, tallies, move]
    omega
  have hm1 := fun x => hrep making x
  have hm2 := fun x => hrep detaching x
  have hm3 := fun x => hrep destroying x
  simp only [due_cons, due_nil, making, detaching, destroying] at hm1 hm2 hm3
  have h1 := hm1 q
  have h2 := hm2 q
  have h3 := hm3 q
  have hthreads : (s.procs q).liveThreads - 1 =
      (tallies (s.move (.detach q) [.release q]) q).bound +
        (tallies (s.move (.detach q) [.release q]) q).detaching := by
    have hsum := hk.threads
    simp only [tallies, move, one_self] at hsum h2 ⊢
    omega
  have hdes : (tallies (s.move (.detach q) [.release q]) q).destroying = 0 := by
    simp only [tallies, move] at hzero ⊢
    omega
  have honce : (tallies (s.move (.detach q) [.release q]) q).making +
      (tallies (s.move (.detach q) [.release q]) q).linked +
        collects (s.procs q).id s.log ≤ 1 := by
    have hone := hk.once
    simp only [tallies, move] at hone ⊢
    omega
  refine h.edited (f := f) ([Region.release q] ++ s.pending.erase (.detach q)) s.threads log
    hmem ?_ ?_ (fun x _ => ho x) ?_ ?_ ?_
  · rcases hf with ⟨rfl, -⟩ | ⟨rfl, -⟩ <;> exact ⟨fun _ => rfl, fun _ => rfl, fun _ => rfl⟩
  · intro x hx
    have hone : one q x = 0 := one_ne (Ne.symm hx)
    have h1 := hm1 x
    have h2 := hm2 x
    have h3 := hm3 x
    refine ⟨?_, ?_, ?_⟩ <;> simp only [tallies] <;> omega
  · rcases hf with ⟨rfl, rfl, -⟩ | ⟨rfl, rfl, hlast⟩
    · exact
        { counted := fun hi => (hk.counted hi).trans (ho q).symm
          alive := fun _ => ⟨hdead, (hk.alive hzero).2⟩
          dying := fun hd => absurd hdes (Nat.pos_iff_ne_zero.mp hd)
          registered := ⟨fun _ => hdes, fun _ => hk.registered.mpr hzero⟩
          threads := hthreads
          zombieThreads := fun hz' => absurd hz' hz
          children := hk.children
          once := honce
          status := hk.status
          zombieLogged := fun hz' => absurd hz' hz
          notZombie := fun _ _ => hquiet
          createdLogged := hk.createdLogged }
    · exact
        { counted := fun hi => (hk.counted hi).trans (ho q).symm
          alive := fun _ => ⟨fun hd => (by cases hd), (hk.alive hzero).2⟩
          dying := fun hd => absurd hdes (Nat.pos_iff_ne_zero.mp hd)
          registered := ⟨fun _ => hdes, fun _ => hk.registered.mpr hzero⟩
          threads := hthreads
          zombieThreads := fun _ => by
            show (s.procs q).liveThreads - 1 = 0
            omega
          children := hk.children
          once := by
            rw [collects_cons]
            show _ + _ + (0 + collects (s.procs q).id s.log) ≤ 1
            rw [Nat.zero_add]
            exact honce
          status := hk.status
          zombieLogged := fun _ => mem_cons_self
          notZombie := fun hz' => absurd rfl hz'
          createdLogged := mem_cons_of_mem _ hk.createdLogged }
  · rcases hf with ⟨-, rfl, -⟩ | ⟨-, rfl, -⟩
    · exact .inl rfl
    · exact .inr ⟨_, rfl, rfl, hquiet⟩
  · intro r' hr'
    rcases mem_append.mp hr' with hr' | hr'
    · obtain rfl := mem_singleton.mp hr'
      trivial
    · exact h.agrees r' (mem_of_mem_erase hr')

/-- A running thread stores its process's exit status. -/
theorem Inv.statusSet (h : Inv s) {t : Thread} (ht : t ∈ s.threads) (status : Int) :
    Inv ((s.edit t.process (setStatus status)).record
      (.exited (s.procs t.process).id status)) := by
  have hown := h.bound_owned ht
  have hk := h.proc _ hown.1
  have hlive : 0 < (s.procs t.process).liveThreads := by
    have hpos := bound_pos ht
    have hsum := hk.threads
    simp only [tallies] at hsum
    omega
  obtain ⟨hz, hdead⟩ := hk.lively hown.2 hlive
  have hquiet := hk.notZombie hz hdead
  refine h.edited s.pending s.threads (.exited (s.procs t.process).id status :: s.log) hown.1
    ⟨fun _ => rfl, fun _ => rfl, fun _ => rfl⟩ (fun x _ => ⟨Nat.le_refl _, rfl, rfl⟩)
    (fun _ _ => rfl) ?_ (.inr ⟨_, rfl, rfl, hquiet⟩) h.agrees
  exact
    { counted := hk.counted
      alive := hk.alive
      dying := hk.dying
      registered := hk.registered
      threads := hk.threads
      zombieThreads := hk.zombieThreads
      children := hk.children
      once := by
        rw [collects_cons]
        show _ + _ + (0 + collects (s.procs t.process).id s.log) ≤ 1
        rw [Nat.zero_add]
        exact hk.once
      status := (if_pos rfl).symm
      zombieLogged := fun hz' => absurd hz' hz
      notZombie := fun _ _ hmem => by
        rcases mem_cons.mp hmem with hmem | hmem
        · cases hmem
        · exact hquiet hmem
      createdLogged := mem_cons_of_mem _ hk.createdLogged }

/-! ## Child links -/

theorem linked_edit (hn : s.allocated.Nodup) (hq : q ∈ s.allocated) (f : Proc → Proc)
    (x : ProcPtr) :
    linked s.allocated (s.edit q f).procs x + (s.procs q).children.count x =
      linked s.allocated s.procs x + (f (s.procs q)).children.count x := by
  have := tally_update (fun y => (s.procs y).children.count x)
    (fun y => ((s.edit q f).procs y).children.count x) hn hq
    (fun y _ hy => by rw [edit_ne hy])
  rw [edit_self] at this
  exact this

/-- The fields a child list edit writes. -/
theorem ProcInv.relist (h : ProcInv k n registered log) {children : List ProcPtr} {count : Nat}
    (hc : count = children.length) :
    ProcInv { k with children := children, childCount := count } n registered log :=
  { h with children := hc }

theorem count_linkFirst (p : ProcPtr) (k : Proc) (x : ProcPtr) :
    (linkFirst p k).children.count x = k.children.count x + one p x := by
  rw [linkFirst, count_cons, one]
  by_cases hpx : p = x <;> simp [hpx]

theorem count_unlink {k : Proc} (hp : p ∈ k.children) (x : ProcPtr) :
    (unlink p k).children.count x + one p x = k.children.count x := by
  rw [unlink, count_erase, one]
  by_cases hpx : p = x
  · subst hpx
    have := count_pos_iff.mpr hp
    simp only [BEq.rfl, if_true]
    omega
  · simp [hpx]

/-- `process_add_child` gives the parent its link. -/
theorem Inv.linkedChild (h : Inv s) (hr : .linkChild q p ∈ s.pending) :
    Inv ((s.edit q (linkFirst p)).move (.linkChild q p) [.release q, .created p]) := by
  have hown := h.held_owned hr (x := q) (by simp only [refs, one_self]; omega)
  have hrep := fun w x => due_replace (w := w) hr [.release q, .created p] x
  have hlink : ∀ x, linked s.allocated (s.edit q (linkFirst p)).procs x =
      linked s.allocated s.procs x + one p x := by
    intro x
    have := linked_edit h.nodup hown.1 (linkFirst p) x
    have hcount := count_linkFirst p (s.procs q) x
    omega
  generalize hs' : (s.edit q (linkFirst p)).move (.linkChild q p) [.release q, .created p] = s'
  have hm : ∀ x, (tallies s x).Moves (tallies s' x) ∧ owners s' x = owners s x := by
    intro x
    have h1 := hrep refs x
    have h2 := hrep making x
    have h3 := hrep detaching x
    have h4 := hrep destroying x
    have h5 := hlink x
    simp only [due_cons, due_nil, refs, making, detaching, destroying] at h1 h2 h3 h4
    subst hs'
    refine ⟨⟨?_, ?_, ?_⟩, ?_⟩
    all_goals
      simp only [owners, Tallies.owners, tallies, move]
      simp only [System.edit] at h5 ⊢
      omega
  have hproc : ∀ x ∈ s.allocated, ProcInv (s.procs x) (tallies s' x) (x ∈ s.registry) s.log :=
    fun x hx => (h.proc x hx).transfer (hm x).1 (hm x).2
  have hself : s'.procs q = linkFirst p (s.procs q) := hs' ▸ edit_self _
  have hkeep : s'.allocated = s.allocated ∧ s'.nextProcessId = s.nextProcessId ∧
      s'.registry = s.registry ∧ s'.liveProcesses = s.liveProcesses ∧ s'.log = s.log ∧
      s'.pending = [.release q, .created p] ++ s.pending.erase (.linkChild q p) := by
    subst hs'
    exact ⟨rfl, rfl, rfl, rfl, rfl, rfl⟩
  obtain ⟨halloc, hnext, hregistry, hlive, hlog, hpending⟩ := hkeep
  refine h.update (q := q) halloc hnext (fun x hx => hs' ▸ edit_ne hx) (by rw [hself]; rfl)
    (by rw [hself]; rfl) (hregistry ▸ h.regNodup) ?_ ?_ ?_ ?_ ?_ ?_ (hlog ▸ h.logOk) ?_
  · rw [hlive, hregistry]
    exact h.live
  · intro x hx
    obtain ⟨hfree, hdes, hnot⟩ := h.freed x hx
    exact ⟨(hm x).2.trans hfree, (hm x).1.destroying.trans hdes, hregistry ▸ hnot⟩
  · intro x hx _
    rw [hregistry, hlog]
    exact hproc x hx
  · intro hq
    rw [hself, hregistry, hlog]
    exact (hproc q hq).relist (by rw [(h.proc q hq).children]; rfl)
  · -- the region remembers that the new link's child names this parent
    intro c hc hq
    rw [hself] at hc
    rcases mem_cons.mp hc with rfl | hc
    · exact h.agrees _ hr
    · exact h.parents q hq c hc
  · intro r' hr'
    rw [hpending] at hr'
    rcases mem_append.mp hr' with hr' | hr'
    · rcases mem_pair.mp hr' with rfl | rfl <;> trivial
    · exact h.agrees r' (mem_of_mem_erase hr')
  · intro e he
    rw [hlog] at he
    exact ⟨e, he, rfl⟩

/-- `process_waitpid` takes the link of a zombie child. -/
theorem Inv.collectedChild (h : Inv s) (hq : q ∈ s.allocated) (hc : p ∈ (s.procs q).children)
    (hz : (s.procs p).state = .zombie) :
    Inv (((s.edit q (unlink p)).record
      (.collected (s.procs p).id (s.procs q).id (s.procs p).exitStatus)).push (.release p)) := by
  have hp := h.linked_owned hq hc
  have hkp := h.proc p hp.1
  have hlinkp := linked_pos hq hc
  have hlink : ∀ x, linked s.allocated (s.edit q (unlink p)).procs x + one p x =
      linked s.allocated s.procs x := by
    intro x
    have := linked_edit h.nodup hq (unlink p) x
    have hcount := count_unlink hc x
    omega
  generalize hs' : ((s.edit q (unlink p)).record
    (.collected (s.procs p).id (s.procs q).id (s.procs p).exitStatus)).push (.release p) = s'
  have hm : ∀ x, (tallies s x).Moves (tallies s' x) ∧ owners s' x = owners s x ∧
      (tallies s' x).making = (tallies s x).making ∧
      (tallies s' x).linked + one p x = (tallies s x).linked := by
    intro x
    have h5 := hlink x
    subst hs'
    refine ⟨⟨?_, ?_, ?_⟩, ?_, ?_, ?_⟩
    all_goals
      simp only [owners, Tallies.owners, tallies, System.push, System.record, due_cons,
        refs, making, detaching, destroying]
      simp only [System.edit] at h5 ⊢
      omega
  have hkeep : s'.allocated = s.allocated ∧ s'.nextProcessId = s.nextProcessId ∧
      s'.registry = s.registry ∧ s'.liveProcesses = s.liveProcesses ∧
      s'.pending = .release p :: s.pending ∧ s'.log =
        .collected (s.procs p).id (s.procs q).id (s.procs p).exitStatus :: s.log := by
    subst hs'
    exact ⟨rfl, rfl, rfl, rfl, rfl, rfl⟩
  obtain ⟨halloc, hnext, hregistry, hlive, hpending, hlog⟩ := hkeep
  have hself : s'.procs q = unlink p (s.procs q) := hs' ▸ edit_self _
  have hproc : ∀ x ∈ s.allocated, ProcInv (s.procs x) (tallies s' x) (x ∈ s.registry) s'.log := by
    intro x hx
    rw [hlog]
    have hx' := (h.proc x hx).transfer (hm x).1 (hm x).2.1
    by_cases hxp : x = p
    · subst hxp
      -- the collected child itself: its link becomes its collection
      exact
        { hx' with
          once := by
            have hone := hkp.once
            obtain ⟨-, -, hmaking, hlinked⟩ := hm x
            rw [one_self] at hlinked
            rw [collects_cons]
            show _ + _ + (one (s.procs x).id (s.procs x).id + _) ≤ 1
            rw [one_self]
            omega
          zombieLogged := fun hz' => mem_cons_of_mem _ (hx'.zombieLogged hz')
          notZombie := fun hz' => absurd hz hz'
          createdLogged := mem_cons_of_mem _ hx'.createdLogged }
    · refine hx'.record fun he => hxp ?_
      exact h.ids x hx p hp.1 he.symm
  refine h.update (q := q) halloc hnext (fun x hx => hs' ▸ edit_ne hx) (by rw [hself]; rfl)
    (by rw [hself]; rfl) (hregistry ▸ h.regNodup) ?_ ?_ ?_ ?_ ?_ ?_ ?_ ?_
  · rw [hlive, hregistry]
    exact h.live
  · intro x hx
    obtain ⟨hfree, hdes, hnot⟩ := h.freed x hx
    exact ⟨(hm x).2.1.trans hfree, (hm x).1.destroying.trans hdes, hregistry ▸ hnot⟩
  · intro x hx _
    rw [hregistry]
    exact hproc x hx
  · intro hq'
    rw [hself, hregistry]
    refine (hproc q hq').relist ?_
    rw [(h.proc q hq').children, length_erase_of_mem hc]
  · intro c hc' hq'
    rw [hself] at hc'
    exact h.parents q hq' c (mem_of_mem_erase hc')
  · intro r' hr'
    rw [hpending] at hr'
    rcases mem_cons.mp hr' with rfl | hr'
    · trivial
    · exact h.agrees r' hr'
  · -- the collection itself: a zombie, of this parent, with its last status, not collected before
    rw [hlog]
    refine ⟨⟨hkp.zombieLogged hz, ?_, hkp.status, ?_⟩, h.logOk⟩
    · have := hkp.createdLogged
      rwa [h.parents q hq p hc] at this
    · have hone := hkp.once
      have hpos : 0 < (tallies s p).linked := hlinkp
      omega
  · intro e he
    rw [hlog] at he
    rcases mem_cons.mp he with rfl | he
    · exact ⟨_, hkp.createdLogged, rfl⟩
    · exact ⟨e, he, rfl⟩

/-! ## Creation and destruction -/

/-- Nothing refers to an object that is not in the heap. -/
theorem Inv.unreferenced (h : Inv s) (hp : p ∉ s.allocated) :
    due refs s.pending p = 0 ∧ due making s.pending p = 0 ∧
      due detaching s.pending p = 0 ∧ due destroying s.pending p = 0 ∧
      bound s.threads p = 0 ∧ linked s.allocated s.procs p = 0 := by
  obtain ⟨hown, hdes, -⟩ := h.freed p hp
  have hmaking := due_mono s.pending p fun r => r.making_le_refs p
  have hdetaching := due_mono s.pending p fun r => r.detaching_le_refs p
  simp only [owners, Tallies.owners, tallies] at hown hdes
  refine ⟨?_, ?_, ?_, hdes, ?_, ?_⟩ <;> omega

/-- The record of a new process, whose only reference is the one the creator holds. -/
theorem newProcess_inv {pid parentId : Pid} (hpids : ∀ e ∈ log, e.pid < pid)
    (howners : n.owners = 1) (hmaking : n.making = 1) (hlinked : n.linked = 0)
    (hthreads : n.bound + n.detaching = 0) (hdes : n.destroying = 0) (hreg : registered) :
    ProcInv (newProcess pid parentId) n registered (.created pid parentId :: log) where
  counted _ := howners.symm
  alive _ := ⟨nofun, .inr Nat.one_pos⟩
  dying hd := absurd hdes (Nat.pos_iff_ne_zero.mp hd)
  registered := ⟨fun _ => hdes, fun _ => hreg⟩
  threads := hthreads.symm
  zombieThreads := fun hz => by cases hz
  children := rfl
  once := by
    have hzero : collects pid log = 0 := collects_eq_zero fun e he => Nat.ne_of_lt (hpids e he)
    rw [collects_cons, hmaking, hlinked]
    show 1 + 0 + (0 + collects pid log) ≤ 1
    omega
  status := (lastStatus_fresh fun e he => Nat.ne_of_lt (hpids e he)).symm
  zombieLogged := fun hz => by cases hz
  notZombie _ _ hmem := by
    rcases mem_cons.mp hmem with hmem | hmem
    · cases hmem
    · exact Nat.lt_irrefl _ (hpids _ hmem)
  createdLogged := mem_cons_self

theorem linked_created (hp : p ∉ s.allocated) {new : Proc} (hnil : new.children = [])
    (x : ProcPtr) : linked (p :: s.allocated) (Function.update s.procs p new) x =
      linked s.allocated s.procs x := by
  rw [linked, tally_cons, Function.update_self, hnil, count_nil, Nat.zero_add]
  refine linked_congr (fun q hq => ?_) x
  have hqp : q ≠ p := by
    rintro rfl
    exact hp hq
  rw [Function.update_of_ne hqp]

theorem linked_destroyed (hq : q ∈ s.allocated) (hnil : (s.procs q).children = []) (x : ProcPtr) :
    linked (s.allocated.erase q) s.procs x = linked s.allocated s.procs x := by
  have hsum := tally_erase (fun y => (s.procs y).children.count x) hq
  rw [hnil, count_nil, Nat.zero_add] at hsum
  exact hsum

/-- The counter of process ids only wraps to 0, which stops every later creation. -/
theorem Inv.next_succ (h : Inv s) (hne : (s.nextProcessId + 1) % 2 ^ 32 ≠ 0) :
    (s.nextProcessId + 1) % 2 ^ 32 = s.nextProcessId + 1 := by
  refine Nat.mod_eq_of_lt ?_
  have hle := h.nextLt
  by_contra hge
  have heq : s.nextProcessId + 1 = 2 ^ 32 := by omega
  rw [heq, Nat.mod_self] at hne
  exact hne rfl

/-- `process_create` registers a new object under a fresh process id. -/
theorem Inv.created (h : Inv s) (hp : p ∉ s.allocated) (hnext : s.nextProcessId ≠ 0)
    (parentId : Pid) {s' : System} (hs' : processCreate s p parentId = .ok s') : Inv s' := by
  obtain ⟨hheld, hmaking, hdetaching, hdestroying, hbound, hlinked⟩ := h.unreferenced hp
  have hpids := h.fresh hnext
  have hids : ∀ x ∈ s.allocated, (s.procs x).id < s.nextProcessId := fun x hx =>
    hpids _ (h.proc x hx).createdLogged
  have hunlinked : ∀ q ∈ s.allocated, ∀ c ∈ (s.procs q).children, c ≠ p := by
    intro q hq c hc hcp
    have := linked_pos hq (hcp ▸ hc)
    omega
  rw [processCreate, if_neg hnext] at hs'
  obtain rfl := Except.ok.inj hs'
  generalize hnew : newProcess s.nextProcessId parentId = new
  have hne : ∀ x ∈ s.allocated, Function.update s.procs p new x = s.procs x := by
    intro x hx
    have hxp : x ≠ p := by
      rintro rfl
      exact hp hx
    exact Function.update_of_ne hxp ..
  have hself : Function.update s.procs p new p = new := Function.update_self ..
  have hnewId : new.id = s.nextProcessId := hnew ▸ rfl
  have hchildless : new.children = [] := hnew ▸ rfl
  have hlink := linked_created hp hchildless
  refine
    { nodup := nodup_cons.mpr ⟨hp, h.nodup⟩
      regNodup := nodup_cons.mpr ⟨(h.freed p hp).2.2, h.regNodup⟩
      freed := ?_
      proc := ?_
      ids := ?_
      nextLt := Nat.mod_lt _ (by decide)
      fresh := ?_
      live := congrArg (· + 1) h.live
      parents := ?_
      agrees := ?_
      logOk := ⟨fun e he => Nat.ne_of_lt (hpids e he), h.logOk⟩ }
  · -- addresses that are still free
    intro x hx
    have hxp : x ≠ p := fun he => hx (he ▸ mem_cons_self)
    replace hx : x ∉ s.allocated := fun hin => hx (mem_cons_of_mem _ hin)
    obtain ⟨hfree, hdes, hnot⟩ := h.freed x hx
    have hone : one p x = 0 := one_ne (Ne.symm hxp)
    have hl := hlink x
    simp only [owners, Tallies.owners, tallies] at hfree hdes ⊢
    simp only [due_cons, refs, destroying]
    refine ⟨by omega, by omega, fun hin => ?_⟩
    exact hnot ((mem_cons.mp hin).resolve_left hxp)
  · intro x hx
    by_cases hxp : x = p
    · subst hxp
      have hl := hlink x
      simp only [tallies, due_cons, refs, making, detaching,
        destroying, one_self, hself, hheld, hmaking, hdetaching, hdestroying, hbound,
        hl, hlinked]
      subst hnew
      exact newProcess_inv hpids rfl rfl rfl rfl rfl mem_cons_self
    · have hx : x ∈ s.allocated := (mem_cons.mp hx).resolve_left hxp
      have hone : one p x = 0 := one_ne (Ne.symm hxp)
      have hl := hlink x
      have hk := (h.proc x hx).record (e := .created s.nextProcessId parentId)
        (Nat.ne_of_gt (hids x hx))
      simp only [tallies, due_cons, refs, making, detaching,
        destroying, hone, Nat.zero_add, hl, hne x hx]
      have hreg : x ∈ p :: s.registry ↔ x ∈ s.registry := by
        rw [mem_cons]
        exact ⟨fun hm => hm.resolve_left hxp, .inr⟩
      exact { hk with registered := hreg.trans hk.registered }
  · -- the new id is above every id handed out so far
    intro x hx y hy hxy
    change (Function.update s.procs p new x).id = (Function.update s.procs p new y).id at hxy
    rcases mem_cons.mp hx with rfl | hx' <;> rcases mem_cons.mp hy with rfl | hy'
    · rfl
    · rw [hself, hne y hy', hnewId] at hxy
      exact absurd hxy.symm (Nat.ne_of_lt (hids y hy'))
    · rw [hself, hne x hx', hnewId] at hxy
      exact absurd hxy (Nat.ne_of_lt (hids x hx'))
    · rw [hne x hx', hne y hy'] at hxy
      exact h.ids x hx' y hy' hxy
  · intro hn e he
    show e.pid < (s.nextProcessId + 1) % 2 ^ 32
    rw [h.next_succ hn]
    rcases mem_cons.mp he with rfl | he
    · exact Nat.lt_succ_self _
    · exact Nat.lt_succ_of_lt (hpids e he)
  · intro q hq c hc
    change c ∈ (Function.update s.procs p new q).children at hc
    show (Function.update s.procs p new c).parentId = (Function.update s.procs p new q).id
    rcases mem_cons.mp hq with rfl | hq
    · rw [hself, ← hnew] at hc
      cases hc
    · rw [hne q hq] at hc
      rw [hne q hq, Function.update_of_ne (hunlinked q hq c hc)]
      exact h.parents q hq c hc
  · intro r hr
    rcases mem_cons.mp hr with rfl | hr
    · trivial
    · have hzero : r.refs p = 0 := by
        have hle : r.refs p ≤ due refs s.pending p := le_due hr
        omega
      have hag := h.agrees r hr
      -- only regions of a creation say anything, and they hold both processes
      cases r with
      | inheritCwd a b | retainChild a b | linkChild a b =>
        have ha : a ≠ p := by
          rintro rfl
          simp [refs] at hzero
        have hb : b ≠ p := by
          rintro rfl
          simp [refs] at hzero
        show (Function.update s.procs p new b).parentId = (Function.update s.procs p new a).id
        rw [Function.update_of_ne hb, Function.update_of_ne ha]
        exact hag
      | _ => trivial

/-- `kfree` of an object nobody owns. -/
theorem Inv.destroyed (h : Inv s) (hr : .destroy q ∈ s.pending)
    (hchildren : (s.procs q).children = []) :
    Inv ({ s with allocated := s.allocated.erase q }.move (.destroy q) []) := by
  have hone : 1 ≤ due destroying s.pending q := by
    have hle : destroying (.destroy q) q ≤ due destroying s.pending q := le_due hr
    rwa [destroying, one_self] at hle
  have hmem : q ∈ s.allocated := by
    by_contra hno
    have := (h.unreferenced hno).2.2.2.1
    omega
  have hk := h.proc q hmem
  obtain ⟨hdes, hi, hrc⟩ := hk.dying hone
  have hrep := fun w x => due_replace (w := w) hr [] x
  have hm0 := fun x => hrep refs x
  have hm1 := fun x => hrep making x
  have hm2 := fun x => hrep detaching x
  have hm3 := fun x => hrep destroying x
  simp only [due_nil, refs, making, detaching, destroying] at hm0 hm1 hm2 hm3
  have herase : ∀ {x}, x ∈ s.allocated.erase q ↔ x ≠ q ∧ x ∈ s.allocated :=
    List.Nodup.mem_erase_iff h.nodup
  have hlink := linked_destroyed hmem hchildren
  have hnum : ∀ x, owners ({ s with allocated := s.allocated.erase q }.move (.destroy q) []) x =
      owners s x := by
    intro x
    have h0 := hm0 x
    have hl := hlink x
    simp only [owners, Tallies.owners, tallies, move]
    omega
  have hzero : owners s q = 0 := (hk.counted hi).symm.trans hrc
  have hreg : q ∉ s.registry := by
    intro hin
    have := hk.registered.mp hin
    omega
  refine
    { nodup := h.nodup.erase q
      regNodup := h.regNodup
      freed := ?_
      proc := ?_
      ids := fun x hx y hy => h.ids x (herase.mp hx).2 y (herase.mp hy).2
      nextLt := h.nextLt
      fresh := h.fresh
      live := h.live
      parents := fun y hy => h.parents y (herase.mp hy).2
      agrees := fun r hr' => h.agrees r (mem_of_mem_erase hr')
      logOk := h.logOk }
  · -- the object's own address is free from now on, and the region that was due is gone
    intro x hx
    by_cases hxq : x = q
    · subst hxq
      refine ⟨(hnum x).trans hzero, ?_, hreg⟩
      have h3 := hm3 x
      rw [one_self] at h3
      simp only [tallies] at hdes
      simp only [tallies, move]
      omega
    · have hx : x ∉ s.allocated := fun hin => hx (herase.mpr ⟨hxq, hin⟩)
      obtain ⟨hfree, hfree', hnot⟩ := h.freed x hx
      refine ⟨(hnum x).trans hfree, ?_, hnot⟩
      have h3 := hm3 x
      rw [one_ne (Ne.symm hxq)] at h3
      simp only [tallies] at hfree'
      simp only [tallies, move]
      omega
  · intro x hx
    obtain ⟨hxq, hx⟩ := herase.mp hx
    have h1 := hm1 x
    have h2 := hm2 x
    have h3 := hm3 x
    have hl := hlink x
    rw [one_ne (Ne.symm hxq)] at h3
    refine (h.proc x hx).transfer ⟨?_, ?_, ?_⟩ (hnum x)
    all_goals
      simp only [tallies, move]
      omega

end MeatySkeleton.Process
