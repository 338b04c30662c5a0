import MeatySkeleton.Process.Preservation

/-!
# Reference counts, lifetimes and collection over whole runs

What each function of `process.c` can return in a state that satisfies `Inv`,
one lemma per function; from these `act_fine`, that no step breaks `Inv` and
that the only panics left are the two the code reserves for an exhausted id
space and for a process that still owns children; and by induction `run_inv`
for every state of every run, from which `Inv.sound` reads `ProcessSound` off.
-/

namespace MeatySkeleton.Process

open List Lib
open Region (refs destroying)

variable {s : System} {p q x : ProcPtr} {r : Region}

/-! ## The functions, one by one -/

theorem ok_bind {α β : Type} (a : α) (f : α → Except Panic β) : (Except.ok a >>= f) = f a := rfl

theorem findById_spec (pid : Pid) {l : List ProcPtr} (hl : ∀ x ∈ l, x ∈ s.allocated) :
    s.findById pid l = .ok none ∨
      ∃ q ∈ l, s.findById pid l = .ok (some q) ∧ (s.procs q).id = pid := by
  induction l with
  | nil => exact .inl rfl
  | cons y l ih =>
    have hload := load_ok (hl y mem_cons_self)
    have ih := ih fun x hx => hl x (mem_cons_of_mem _ hx)
    rw [System.findById, hload, ok_bind]
    by_cases hid : (s.procs y).id = pid
    · rw [if_pos hid]
      exact .inr ⟨y, mem_cons_self, rfl, hid⟩
    · rw [if_neg hid]
      rcases ih with hnone | ⟨q, hq, hsome, hid'⟩
      · exact .inl hnone
      · exact .inr ⟨q, mem_cons_of_mem _ hq, hsome, hid'⟩

section

variable (h : Inv s)

include h

/-- What is in the registry is in the heap and not being destroyed. -/
theorem Inv.registry_owned (hq : q ∈ s.registry) :
    q ∈ s.allocated ∧ (tallies s q).destroying = 0 := by
  have hmem : q ∈ s.allocated := by
    by_contra hno
    exact (h.freed q hno).2.2 hq
  exact ⟨hmem, (h.proc q hmem).registered.mp hq⟩

/-- `process_retain` of a process that is not being destroyed succeeds. -/
theorem processRetain_eq (hp : p ∈ s.allocated) (hd : (tallies s p).destroying = 0) :
    processRetain s p = .ok (s.gain p, true) := by
  obtain ⟨hdead, hcount⟩ := (h.proc p hp).alive hd
  rw [processRetain, load_ok hp, ok_bind]
  cases hi : (s.procs p).immortal with
  | true => rw [if_pos rfl, gain_immortal hi]
  | false =>
    have hne : ¬((s.procs p).referenceCount = 0 ∨ (s.procs p).state = .dead) := by
      rw [hi] at hcount
      have hpos : 0 < (s.procs p).referenceCount := hcount.resolve_left nofun
      exact fun hor => hor.elim (Nat.ne_of_gt hpos) hdead
    rw [if_neg nofun, if_neg hne, gain_mortal hi]

/-- `process_acquire_by_id` finds nothing, or takes a reference to a process
that is not being destroyed. -/
theorem processAcquireById_cases (pid : Pid) :
    processAcquireById s pid = .ok (s, none) ∨ ∃ q,
      processAcquireById s pid = .ok (s.gain q, some q) ∧ q ∈ s.allocated ∧
        (tallies s q).destroying = 0 ∧ (s.procs q).id = pid := by
  by_cases hpid : pid = 0
  · left
    rw [processAcquireById, if_pos hpid]
  · have hfind := findById_spec pid fun x hx => (h.registry_owned hx).1
    rw [processAcquireById, if_neg hpid]
    rcases hfind with hnone | ⟨q, hq, hsome, hid⟩
    · left
      rw [hnone]
      rfl
    · right
      obtain ⟨hmem, hdes⟩ := h.registry_owned hq
      obtain ⟨hdead, hcount⟩ := (h.proc q hmem).alive hdes
      refine ⟨q, ?_, hmem, hdes, hid⟩
      rw [hsome, ok_bind]
      show s.load q >>= _ = _
      rw [load_ok hmem, ok_bind, if_neg hdead]
      cases hi : (s.procs q).immortal with
      | true => rw [if_pos rfl, gain_immortal hi]
      | false =>
        rw [hi] at hcount
        have hpos : 0 < (s.procs q).referenceCount := hcount.resolve_left nofun
        rw [if_neg nofun, if_neg (Nat.ne_of_gt hpos), gain_mortal hi]

/-- `process_release` drops a reference, and retires the object with the last
one. -/
theorem processRelease_cases (hr : r ∈ s.pending) (hrel : r.drops q) :
    processRelease s q = .ok (s.edit q countDown, false) ∧
        ((s.procs q).immortal = false → (s.procs q).referenceCount ≠ 1) ∨
      processRelease s q = .ok (s.retire q, true) ∧ (s.procs q).immortal = false ∧
        (s.procs q).referenceCount = 1 := by
  obtain ⟨hmem, hdes⟩ := h.held_owned hr (x := q)
    (by rw [(hrel.weights q).1, one_self]; exact Nat.one_pos)
  have hk := h.proc q hmem
  rw [processRelease, load_ok hmem, ok_bind]
  cases hi : (s.procs q).immortal with
  | true =>
    left
    rw [if_pos rfl, drop_immortal hi]
    exact ⟨rfl, nofun⟩
  | false =>
    have hcount := (hk.alive hdes).2
    rw [hi] at hcount
    have hpos : 0 < (s.procs q).referenceCount := hcount.resolve_left nofun
    rw [if_neg nofun, if_neg (Nat.ne_of_gt hpos)]
    by_cases hlast : (s.procs q).referenceCount = 1
    · right
      have hlive : s.liveProcesses ≠ 0 := by
        have hreg := length_pos_of_mem (hk.registered.mpr hdes)
        rw [h.live]
        omega
      rw [if_pos hlast, if_neg hlive]
      exact ⟨rfl, rfl, hlast⟩
    · left
      rw [if_neg hlast, drop_mortal hi]
      exact ⟨rfl, fun _ => hlast⟩

/-- `process_destroy` panics exactly on a process that owns children. -/
theorem processDestroy_cases (hr : .destroy q ∈ s.pending) :
    (s.procs q).children = [] ∧
        processDestroy s q = .ok { s with allocated := s.allocated.erase q } ∨
      (s.procs q).children ≠ [] ∧ processDestroy s q = .error .ownedChildren := by
  have hmem : q ∈ s.allocated := by
    by_contra hno
    have hzero := (h.unreferenced hno).2.2.2.1
    have hle : destroying (.destroy q) q ≤ due destroying s.pending q := le_due hr
    rw [destroying, one_self] at hle
    omega
  have hcount := (h.proc q hmem).children
  rw [processDestroy, load_ok hmem, ok_bind]
  by_cases hnil : (s.procs q).children = []
  · left
    have hzero : (s.procs q).childCount = 0 := by rw [hcount, hnil]; rfl
    rw [if_neg (not_or.mpr ⟨not_not.mpr hnil, not_not.mpr hzero⟩)]
    exact ⟨hnil, rfl⟩
  · right
    rw [if_pos (.inl hnil)]
    exact ⟨hnil, rfl⟩

/-- `process_add_child` before the parent's lock. -/
theorem processAddChildRetain_cases (hr : .retainChild q p ∈ s.pending) (ok : Bool) :
    processAddChildRetain s q p ok = .ok (s, false) ∨
      processAddChildRetain s q p ok = .ok (s.gain p, true) := by
  have hq := h.held_owned hr (x := q) (by simp only [refs, one_self]; omega)
  have hp := h.held_owned hr (x := p) (by simp only [refs, one_self]; omega)
  rw [processAddChildRetain, load_ok hq.1, load_ok hp.1, ok_bind, ok_bind]
  split
  · exact .inl rfl
  · exact .inr (processRetain_eq h hp.1 hp.2)

/-- `process_add_child` under the parent's lock. -/
theorem processAddChildLink_cases (hr : .linkChild q p ∈ s.pending) :
    processAddChildLink s q p = .ok (s, false) ∨
      processAddChildLink s q p = .ok (s.edit q (linkFirst p), true) ∧
        (s.procs q).state ≠ .zombie ∧ (s.procs q).state ≠ .dead := by
  have hq := h.held_owned hr (x := q) (by simp only [refs, one_self]; omega)
  have hp := h.held_owned hr (x := p) (by simp only [refs, one_self]; omega)
  rw [processAddChildLink, load_ok hq.1, ok_bind]
  split
  · exact .inl rfl
  · next hstate =>
    rw [load_ok hp.1, ok_bind]
    have hfind := findById_spec (s := s) (s.procs p).id (l := (s.procs q).children)
      fun x hx => (h.linked_owned hq.1 hx).1
    rcases hfind with hnone | ⟨c, -, hsome, -⟩
    · right
      refine ⟨?_, fun hz => hstate (.inr (.inl hz)), fun hd => hstate (.inr (.inr hd))⟩
      rw [hnone]
      rfl
    · left
      rw [hsome]
      rfl

/-- `process_thread_attach`. -/
theorem processThreadAttach_cases (hr : .attach q ∈ s.pending) :
    processThreadAttach s q = .ok (s, false) ∨
      processThreadAttach s q = .ok (s.edit q attachThread, true) ∧
        ((s.procs q).state = .new ∨ (s.procs q).state = .running) := by
  have hq := h.held_owned hr (x := q) (by simp [refs])
  rw [processThreadAttach, load_ok hq.1, ok_bind]
  split
  · next hstate => exact .inr ⟨rfl, hstate⟩
  · exact .inl rfl

/-- `process_thread_detach`: the last thread turns the process into a zombie. -/
theorem processThreadDetach_cases (hr : .detach q ∈ s.pending) :
    ∃ f log, processThreadDetach s q = .ok { s.edit q f with log := log } ∧ DetachEdit s q f log := by
  obtain ⟨hmem, hzero, hlive⟩ := h.detach_live hr
  obtain ⟨hz, hdead⟩ := (h.proc q hmem).lively hzero hlive
  rw [processThreadDetach, load_ok hmem, ok_bind, if_neg (Nat.ne_of_gt hlive)]
  split
  · next hlast => exact ⟨_, _, rfl, .inr ⟨rfl, rfl, hlast.1⟩⟩
  · exact ⟨_, s.log, rfl, .inl ⟨rfl, rfl, hz⟩⟩

/-- `process_waitpid` collects nothing, or a zombie among the children. -/
theorem processWaitpid_cases (hq : q ∈ s.allocated) (pid : Pid) :
    processWaitpid s q pid = .ok (s, none) ∨ ∃ c ∈ (s.procs q).children,
      (s.procs c).id = pid ∧ (s.procs c).state = .zombie ∧ processWaitpid s q pid =
        .ok ((s.edit q (unlink c)).record
          (.collected (s.procs c).id (s.procs q).id (s.procs c).exitStatus),
          some (c, (s.procs c).exitStatus)) := by
  by_cases hpid : pid = 0
  · left
    rw [processWaitpid, if_pos hpid]
  · have hfind := findById_spec (s := s) pid (l := (s.procs q).children)
      fun x hx => (h.linked_owned hq hx).1
    rw [processWaitpid, if_neg hpid, load_ok hq, ok_bind]
    rcases hfind with hnone | ⟨c, hc, hsome, hid⟩
    · left
      rw [hnone]
      rfl
    · have hcount : (s.procs q).childCount ≠ 0 := by
        have hpos := length_pos_of_mem hc
        rw [(h.proc q hq).children]
        omega
      by_cases hz : (s.procs c).state = .zombie
      · right
        refine ⟨c, hc, hid, hz, ?_⟩
        rw [hsome, ok_bind]
        show s.load c >>= _ = _
        rw [load_ok (h.linked_owned hq hc).1, ok_bind, if_neg (not_not.mpr hz), if_neg hcount]
      · left
        rw [hsome, ok_bind]
        show s.load c >>= _ = _
        rw [load_ok (h.linked_owned hq hc).1, ok_bind, if_pos hz]

/-- `process_acquire_zombie_child` under the parent's lock. -/
theorem processAcquireChild_cases (hq : q ∈ s.allocated) (pid : Pid) :
    processAcquireChild s q pid = .ok (s, none) ∨ ∃ c ∈ (s.procs q).children,
      processAcquireChild s q pid = .ok (s.gain c, some c) := by
  by_cases hpid : pid = 0
  · left
    rw [processAcquireChild, if_pos hpid]
  · have hfind := findById_spec (s := s) pid (l := (s.procs q).children)
      fun x hx => (h.linked_owned hq hx).1
    rw [processAcquireChild, if_neg hpid, load_ok hq, ok_bind]
    rcases hfind with hnone | ⟨c, hc, hsome, hid⟩
    · left
      rw [hnone]
      rfl
    · right
      obtain ⟨hmem, hdes⟩ := h.linked_owned hq hc
      refine ⟨c, hc, ?_⟩
      rw [hsome, ok_bind]
      show processRetain s c >>= _ = _
      rw [processRetain_eq h hmem hdes]
      rfl

end

/-! ## What a step can do -/

/-- A region that writes no process, with the regions it goes on to. -/
inductive Passes : Region → List Region → Prop
  | noParent (p : ProcPtr) : Passes (.acquireParent p) [.release p]
  | cwd (q p : ProcPtr) : Passes (.inheritCwd q p) [.retainChild q p]
  | noCwd (q p : ProcPtr) : Passes (.inheritCwd q p) [.release q, .release p]
  | notRetained (q p : ProcPtr) : Passes (.retainChild q p) [.release q, .release p]
  | notLinked (q p : ProcPtr) : Passes (.linkChild q p) [.release p, .release q, .release p]
  | notAttached (p : ProcPtr) : Passes (.attach p) [.release p]

/-- The changes an action can make, with what the code has checked before each. -/
inductive Change (s : System) : Label → System → Prop
  | same {l : Label} : Change s l s
  | created {creator : Option Thread} {p : ProcPtr} {parentId : Pid} {s' : System} :
      p ∉ s.allocated → s.nextProcessId ≠ 0 →
      (parentId = 1 ∨ ∃ t ∈ s.threads, parentId = (s.procs t.process).id) →
      processCreate s p parentId = .ok s' → Change s (.create creator p) s'
  | passed {l : Label} {r : Region} {rs : List Region} : r ∈ s.pending → Passes r rs →
      Change s l (s.move r rs)
  | foundParent {l : Label} {q p : ProcPtr} : .acquireParent p ∈ s.pending → q ∈ s.allocated →
      (tallies s q).destroying = 0 → (s.procs q).id = (s.procs p).parentId →
      Change s l ((s.gain q).move (.acquireParent p) [.inheritCwd q p])
  | retained {l : Label} {q p : ProcPtr} : .retainChild q p ∈ s.pending →
      Change s l ((s.gain p).move (.retainChild q p) [.linkChild q p])
  | linked {l : Label} {q p : ProcPtr} : .linkChild q p ∈ s.pending →
      (s.procs q).state ≠ .zombie → (s.procs q).state ≠ .dead →
      Change s l ((s.edit q (linkFirst p)).move (.linkChild q p) [.release q, .created p])
  | bound {l : Label} {q : ProcPtr} :
      (.created q ∈ s.pending ∨ ∃ t ∈ s.threads, t.process = q) →
      Change s l ((s.gain q).push (.attach q))
  | lookedUp {l : Label} {q : ProcPtr} : q ∈ s.allocated → (tallies s q).destroying = 0 →
      Change s l ((s.gain q).push (.release q))
  | attached {l : Label} {q : ProcPtr} : .attach q ∈ s.pending →
      ((s.procs q).state = .new ∨ (s.procs q).state = .running) →
      Change s l { (s.edit q attachThread).move (.attach q) [] with
        threads := ⟨q, .unpublished⟩ :: s.threads }
  | detached {l : Label} {q : ProcPtr} {f : Proc → Proc} {log : List Event} :
      .detach q ∈ s.pending → DetachEdit s q f log →
      Change s l ({ s.edit q f with log := log }.move (.detach q) [.release q])
  | dropped {l : Label} {q : ProcPtr} {r : Region} : r ∈ s.pending → r.drops q →
      ((s.procs q).immortal = false → (s.procs q).referenceCount ≠ 1) →
      Change s l ((s.edit q countDown).move r [])
  | retired {l : Label} {q : ProcPtr} {r : Region} : r ∈ s.pending → r.drops q →
      (s.procs q).immortal = false → (s.procs q).referenceCount = 1 →
      Change s l ((s.retire q).move r [.destroy q])
  | destroyed {l : Label} {q : ProcPtr} : .destroy q ∈ s.pending → (s.procs q).children = [] →
      Change s l ({ s with allocated := s.allocated.erase q }.move (.destroy q) [])
  | statusSet {l : Label} {t : Thread} {status : Int} : t ∈ s.threads →
      Change s l ((s.edit t.process (setStatus status)).record
        (.exited (s.procs t.process).id status))
  | phase {l : Label} {t : Thread} (phase : Phase) : t ∈ s.threads → Change s l (s.setPhase t phase)
  | dropThread {l : Label} {t : Thread} : t ∈ s.threads → Change s l (s.dropThread t)
  | collected {t : Thread} {c : ProcPtr} : t ∈ s.threads → c ∈ (s.procs t.process).children →
      (s.procs c).state = .zombie →
      Change s (.waitpid t (s.procs c).id) (((s.edit t.process (unlink c)).record
        (.collected (s.procs c).id (s.procs t.process).id (s.procs c).exitStatus)).push
          (.release c))

/-- An action ends in one of the changes, or in one of the two panics the code
keeps for an exhausted id space and for a process that owns children. -/
inductive Outcome (s : System) (l : Label) : Except Panic System → Prop
  | ok {s' : System} : Change s l s' → Outcome s l (.ok s')
  | pidExhausted : Outcome s l (.error .pidExhausted)
  | ownedChildren {q : ProcPtr} : .destroy q ∈ s.pending → (s.procs q).children ≠ [] →
      Outcome s l (.error .ownedChildren)

theorem proceed_drops (h : Inv s) (hr : r ∈ s.pending) (hrel : r.drops q) (ok : Bool) :
    Outcome s (.proceed r ok) (proceed s r ok) := by
  rcases processRelease_cases h hr hrel with ⟨hres, hmany⟩ | ⟨hres, hi, hlast⟩
  · have hproceed : proceed s r ok = .ok ((s.edit q countDown).move r []) := by
      rcases hrel with rfl | rfl <;> rw [proceed, hres, ok_bind]
    rw [hproceed]
    exact .ok (.dropped hr hrel hmany)
  · have hproceed : proceed s r ok = .ok ((s.retire q).move r [.destroy q]) := by
      rcases hrel with rfl | rfl <;> rw [proceed, hres, ok_bind]
    rw [hproceed]
    exact .ok (.retired hr hrel hi hlast)

theorem proceed_outcome (h : Inv s) (hr : r ∈ s.pending) (ok : Bool) :
    Outcome s (.proceed r ok) (proceed s r ok) := by
  cases r with
  | acquireParent p =>
    have hp := h.held_owned hr (x := p) (by simp [refs])
    rw [proceed, load_ok hp.1, ok_bind]
    rcases processAcquireById_cases h (s.procs p).parentId with hres | ⟨q, hres, hq, hd, hid⟩
    · rw [hres, ok_bind]
      exact .ok (.passed hr (.noParent p))
    · rw [hres, ok_bind]
      exact .ok (.foundParent hr hq hd hid)
  | inheritCwd q p =>
    have hq := h.held_owned hr (x := q) (by simp only [refs, one_self]; omega)
    have hp := h.held_owned hr (x := p) (by simp only [refs, one_self]; omega)
    rw [proceed, load_ok hq.1, load_ok hp.1, ok_bind, ok_bind]
    cases ok with
    | true => exact .ok (.passed hr (.cwd q p))
    | false => exact .ok (.passed hr (.noCwd q p))
  | retainChild q p =>
    rw [proceed]
    rcases processAddChildRetain_cases h hr ok with hres | hres
    · rw [hres, ok_bind]
      exact .ok (.passed hr (.notRetained q p))
    · rw [hres, ok_bind]
      exact .ok (.retained hr)
  | linkChild q p =>
    rw [proceed]
    rcases processAddChildLink_cases h hr with hres | ⟨hres, hz, hdead⟩
    · rw [hres, ok_bind]
      exact .ok (.passed hr (.notLinked q p))
    · rw [hres, ok_bind]
      exact .ok (.linked hr hz hdead)
  | created p => exact proceed_drops h hr (.inr rfl) ok
  | release p => exact proceed_drops h hr (.inl rfl) ok
  | attach p =>
    rw [proceed]
    rcases processThreadAttach_cases h hr with hres | ⟨hres, hstate⟩
    · rw [hres, ok_bind]
      exact .ok (.passed hr (.notAttached p))
    · rw [hres, ok_bind]
      exact .ok (.attached hr hstate)
  | detach p =>
    rw [proceed]
    obtain ⟨f, log, hres, hedit⟩ := processThreadDetach_cases h hr
    rw [hres, ok_bind]
    exact .ok (.detached hr hedit)
  | destroy p =>
    rw [proceed]
    rcases processDestroy_cases h hr with ⟨hnil, hres⟩ | ⟨howned, hres⟩
    · rw [hres, ok_bind]
      exact .ok (.destroyed hr hnil)
    · rw [hres]
      exact .ownedChildren hr howned

variable {l : Label}

/-- `task_bind_process` of a process somebody holds. -/
theorem taskBindProcess_outcome (h : Inv s) (hq : q ∈ s.allocated)
    (hd : (tallies s q).destroying = 0)
    (hroot : .created q ∈ s.pending ∨ ∃ t ∈ s.threads, t.process = q) :
    Outcome s l (taskBindProcess s q) := by
  rw [taskBindProcess, processRetain_eq h hq hd, ok_bind]
  exact .ok (.bound hroot)

theorem act_outcome (h : Inv s) (he : enabled s l) : Outcome s l (act s l) := by
  cases l with
  | create creator p =>
    obtain ⟨hp, hrun⟩ := he
    have hparent : ∃ parentId, parentPid s creator = .ok parentId ∧
        (parentId = 1 ∨ ∃ t ∈ s.threads, parentId = (s.procs t.process).id) := by
      cases creator with
      | none => exact ⟨1, rfl, .inl rfl⟩
      | some t =>
        have ht := (hrun t rfl).1
        refine ⟨_, ?_, .inr ⟨t, ht, rfl⟩⟩
        rw [parentPid, load_ok (h.bound_owned ht).1]
        rfl
    obtain ⟨parentId, hpid, hparent⟩ := hparent
    rw [act, hpid, ok_bind]
    by_cases hnext : s.nextProcessId = 0
    · rw [processCreate, if_pos hnext]
      exact .pidExhausted
    · generalize hcreate : processCreate s p parentId = res
      rw [processCreate, if_neg hnext] at hcreate
      subst hcreate
      refine .ok (.created hp hnext hparent ?_)
      rw [processCreate, if_neg hnext]
  | proceed r ok => exact proceed_outcome h he ok
  | bind p =>
    have hp := h.held_owned he (x := p) (by simp [refs])
    exact taskBindProcess_outcome h hp.1 hp.2 (.inl he)
  | threadCreate t =>
    have ht := h.bound_owned he.1
    exact taskBindProcess_outcome h ht.1 ht.2 (.inr ⟨t, he.1, rfl⟩)
  | lookup pid =>
    rw [act]
    rcases processAcquireById_cases h pid with hres | ⟨q, hres, hq, hd, -⟩
    · rw [hres, ok_bind]
      exact .ok .same
    · rw [hres, ok_bind]
      exact .ok (.lookedUp hq hd)
  | acquireZombieChild t pid =>
    have ht := h.bound_owned he.1
    rw [act]
    rcases processAcquireChild_cases h ht.1 pid with hres | ⟨c, hc, hres⟩
    · rw [hres, ok_bind]
      exact .ok .same
    · rw [hres, ok_bind]
      obtain ⟨hmem, hd⟩ := h.linked_owned ht.1 hc
      exact .ok (.lookedUp hmem hd)
  | setExitStatus t status =>
    have ht := h.bound_owned he.1
    have hdead := ((h.proc _ ht.1).alive ht.2).1
    rw [act, processSetExitStatus, load_ok ht.1, ok_bind, if_neg hdead]
    exact .ok (.statusSet he.1)
  | exit t => exact .ok (.phase .exited he.1)
  | publish t => exact .ok (.phase .running he.1)
  | destroyUnpublished t => exact .ok (.dropThread he.1)
  | reap t => exact .ok (.dropThread he.1)
  | waitpid t pid =>
    have ht := h.bound_owned he.1
    rw [act]
    rcases processWaitpid_cases h ht.1 pid with hres | ⟨c, hc, hid, hz, hres⟩
    · rw [hres, ok_bind]
      exact .ok .same
    · rw [hres, ok_bind, ← hid]
      exact .ok (.collected he.1 hc hz)

/-! ## The invariant over runs -/

theorem Passes.inv {rs : List Region} (h : Inv s) (hr : r ∈ s.pending) (hp : Passes r rs) :
    Inv (s.move r rs) := by
  have hagrees := h.agrees r hr
  cases hp
  case cwd q p =>
    refine h.moved hr (fun _ => rfl) (fun _ => Nat.le_refl _) (fun _ => rfl) (fun _ => rfl) ?_
    intro r' hr'
    obtain rfl := mem_singleton.mp hr'
    exact hagrees
  all_goals
    refine h.moved hr (fun x => ?_) (fun x => ?_) (fun _ => rfl) (fun _ => rfl) ?_
    · simp only [due_cons, due_nil, refs]
      omega
    · exact Nat.zero_le _
    · simp [Region.agrees]

/-- A reference is taken while a region goes on. -/
theorem Inv.gainMove (h : Inv s) (hr : r ∈ s.pending) {r' : Region} (hq : q ∈ s.allocated)
    (hd : (tallies s q).destroying = 0) (hrefs : ∀ x, r'.refs x = r.refs x + one q x)
    (hmaking : ∀ x, r'.making x = r.making x) (hdetaching : ∀ x, r'.detaching x = r.detaching x)
    (hdestroying : ∀ x, r'.destroying x = r.destroying x) (hagrees : r'.agrees s.procs) :
    Inv ((s.gain q).move r [r']) := by
  have hrep := fun w x => due_replace (w := w) hr [r'] x
  refine h.gain ([r'] ++ s.pending.erase r) hq hd ?_ ?_ ?_
  · intro x
    have h1 := hrep Region.making x
    have h2 := hrep Region.detaching x
    have h3 := hrep destroying x
    rw [due_cons, due_nil] at h1 h2 h3
    have h4 := hmaking x
    have h5 := hdetaching x
    have h6 := hdestroying x
    refine ⟨?_, ?_, ?_⟩ <;> simp only [tallies] <;> omega
  · intro x
    have h1 := hrep refs x
    rw [due_cons, due_nil] at h1
    have h2 := hrefs x
    simp only [owners, Tallies.owners, tallies]
    omega
  · intro r'' hr''
    rcases mem_append.mp hr'' with hr'' | hr''
    · obtain rfl := mem_singleton.mp hr''
      exact hagrees
    · exact h.agrees r'' (mem_of_mem_erase hr'')

/-- A reference is taken for a new obligation that only holds it. -/
theorem Inv.gainPush (h : Inv s) {r' : Region} (hq : q ∈ s.allocated)
    (hd : (tallies s q).destroying = 0) (hr' : r' = .attach q ∨ r' = .release q) :
    Inv ((s.gain q).push r') := by
  have hw : ∀ x, r'.refs x = one q x ∧ r'.making x = 0 ∧ r'.detaching x = 0 ∧
      r'.destroying x = 0 ∧ r'.agrees s.procs := by
    intro x
    rcases hr' with rfl | rfl <;> exact ⟨rfl, rfl, rfl, rfl, trivial⟩
  refine h.gain (r' :: s.pending) hq hd ?_ ?_ ?_
  · intro x
    obtain ⟨-, h1, h2, h3, -⟩ := hw x
    refine ⟨?_, ?_, ?_⟩ <;> simp only [tallies, due_cons] <;> omega
  · intro x
    have h1 := (hw x).1
    simp only [owners, Tallies.owners, tallies, due_cons]
    omega
  · intro r hr
    rcases mem_cons.mp hr with rfl | hr
    · exact (hw q).2.2.2.2
    · exact h.agrees r hr

theorem Inv.phaseSet (h : Inv s) {t : Thread} (ht : t ∈ s.threads) (phase : Phase) :
    Inv (s.setPhase t phase) := by
  have hb := bound_erase ht
  refine h.transfer s.pending (⟨t.process, phase⟩ :: s.threads.erase t) ?_ ?_ h.agrees
  · intro x
    have := hb x
    refine ⟨Nat.le_refl _, ?_, rfl⟩
    simp only [tallies, bound_cons]
    omega
  · intro x
    have := hb x
    simp only [owners, Tallies.owners, tallies, bound_cons]
    omega

theorem Inv.threadDropped (h : Inv s) {t : Thread} (ht : t ∈ s.threads) :
    Inv (s.dropThread t) := by
  have hb := bound_erase ht
  refine h.transfer (.detach t.process :: s.pending) (s.threads.erase t) ?_ ?_ ?_
  · intro x
    have := hb x
    refine ⟨?_, ?_, ?_⟩ <;> simp only [tallies, due_cons, Region.making, Region.detaching,
      destroying] <;> omega
  · intro x
    have := hb x
    simp only [owners, Tallies.owners, tallies, due_cons, refs]
    omega
  · intro r hr
    rcases mem_cons.mp hr with rfl | hr
    · trivial
    · exact h.agrees r hr

variable {s' : System}

theorem Change.inv (h : Inv s) (hc : Change s l s') : Inv s' := by
  cases hc with
  | same => exact h
  | created hp hnext _ hcreate => exact h.created hp hnext _ hcreate
  | passed hr hpass => exact hpass.inv h hr
  | @foundParent _ q p hr hq hd hid =>
    refine h.gainMove hr hq hd (fun x => ?_) (fun _ => rfl) (fun _ => rfl) (fun _ => rfl) hid.symm
    exact Nat.add_comm _ _
  | @retained _ q p hr =>
    have hp := h.held_owned hr (x := p) (by simp only [refs, one_self]; omega)
    have hagrees : (s.procs p).parentId = (s.procs q).id := h.agrees _ hr
    refine h.gainMove hr hp.1 hp.2 (fun x => ?_) (fun _ => rfl) (fun _ => rfl) (fun _ => rfl)
      hagrees
    simp only [refs]
    omega
  | linked hr _ _ => exact h.linkedChild hr
  | @bound _ q hroot =>
    have hq : q ∈ s.allocated ∧ (tallies s q).destroying = 0 := by
      rcases hroot with hr | ⟨t, ht, rfl⟩
      · exact h.held_owned hr (by simp [refs])
      · exact h.bound_owned ht
    exact h.gainPush hq.1 hq.2 (.inl rfl)
  | lookedUp hq hd => exact h.gainPush hq hd (.inr rfl)
  | attached hr hstate => exact h.attached hr hstate
  | detached hr hedit => exact h.detached hr hedit
  | dropped hr hrel hmany => exact h.dropped hr hrel hmany
  | retired hr hrel hi hlast => exact h.retired hr hrel hi hlast
  | destroyed hr hnil => exact h.destroyed hr hnil
  | @statusSet _ t status ht => exact h.statusSet ht status
  | phase phase ht => exact h.phaseSet ht phase
  | dropThread ht => exact h.threadDropped ht
  | collected ht hc hz => exact h.collectedChild (h.bound_owned ht).1 hc hz

theorem initial_inv : Inv initial where
  nodup := nodup_cons.mpr ⟨not_mem_nil, nodup_nil⟩
  regNodup := nodup_cons.mpr ⟨not_mem_nil, nodup_nil⟩
  freed x hx := by
    have hne : kernelProcess ≠ x := fun he => hx (he ▸ mem_singleton.mpr rfl)
    exact ⟨rfl, rfl, fun hin => hne (mem_singleton.mp hin).symm⟩
  proc x hx := by
    obtain rfl := mem_singleton.mp hx
    exact
      { counted := nofun
        alive := fun _ => ⟨nofun, .inl rfl⟩
        dying := fun hd => absurd hd (Nat.lt_irrefl 0)
        registered := ⟨fun _ => rfl, fun _ => mem_singleton.mpr rfl⟩
        threads := rfl
        zombieThreads := nofun
        children := rfl
        once := by decide
        status := rfl
        zombieLogged := nofun
        notZombie := by decide
        createdLogged := mem_singleton.mpr rfl }
  ids x hx y hy _ := (mem_singleton.mp hx).trans (mem_singleton.mp hy).symm
  nextLt := by decide
  fresh _ e he := by
    obtain rfl := mem_singleton.mp he
    exact Nat.one_lt_two
  live := rfl
  parents q _ c hc := by cases hc
  agrees r hr := by cases hr
  logOk := ⟨nofun, trivial⟩

/-- A panic writes nothing else. -/
theorem Inv.panicked (h : Inv s) (e : Panic) : Inv { s with panic := some e } :=
  { h with }

/-- The panics a run can end in. -/
def Stopped (s : System) : Prop :=
  s.panic = none ∨ s.panic = some .pidExhausted ∨ s.panic = some .ownedChildren

theorem step_cases (h : Inv s) (hs : step s l = some s') :
    s.panic = none ∧ (act s l = .ok s' ∧ Change s l s' ∨
      s' = { s with panic := some .pidExhausted } ∨
      s' = { s with panic := some .ownedChildren } ∧
        ∃ q, .destroy q ∈ s.pending ∧ (s.procs q).children ≠ []) := by
  rw [step, Option.ite_none_right_eq_some] at hs
  obtain ⟨⟨hpanic, he⟩, hs⟩ := hs
  refine ⟨hpanic, ?_⟩
  have hout := act_outcome h he
  generalize hact : act s l = res at hs hout
  cases hout with
  | ok hchange =>
    obtain rfl := Option.some.inj hs
    exact .inl ⟨rfl, hchange⟩
  | pidExhausted => exact .inr (.inl (Option.some.inj hs).symm)
  | ownedChildren hr howned => exact .inr (.inr ⟨(Option.some.inj hs).symm, _, hr, howned⟩)

theorem Change.panic (hc : Change s l s') : s'.panic = s.panic := by
  cases hc with
  | created _ hnext _ hcreate =>
    rw [processCreate, if_neg hnext] at hcreate
    obtain rfl := Except.ok.inj hcreate
    rfl
  | _ => rfl

theorem step_inv (h : Inv s ∧ Stopped s) (hs : step s l = some s') :
    Inv s' ∧ Stopped s' := by
  obtain ⟨hinv, -⟩ := h
  obtain ⟨hpanic, ⟨-, hchange⟩ | rfl | ⟨rfl, -⟩⟩ := step_cases hinv hs
  · exact ⟨hchange.inv hinv, .inl (hchange.panic.trans hpanic)⟩
  · exact ⟨hinv.panicked _, .inr (.inl rfl)⟩
  · exact ⟨hinv.panicked _, .inr (.inr rfl)⟩

theorem run_inv {ok : System → Label → Prop} {ls : List Label} {t : System}
    (hr : RunWhere step ok initial ls t) : Inv t ∧ Stopped t :=
  hr.invariant ⟨initial_inv, .inl rfl⟩ fun _ _ _ h _ hs => step_inv h hs

theorem destroying_pos : 0 < due destroying s.pending x ↔ .destroy x ∈ s.pending := by
  constructor
  · intro h
    obtain ⟨r, hr, hw⟩ := exists_of_tally_pos h
    cases r with
    | destroy p =>
      have hpx : p = x := by
        by_contra hne
        simp only [destroying, one_ne hne] at hw
        exact Nat.lt_irrefl 0 hw
      exact hpx ▸ hr
    | _ => exact absurd hw (Nat.lt_irrefl 0)
  · intro h
    have hle : destroying (.destroy x) x ≤ due destroying s.pending x := le_due h
    rwa [destroying, one_self] at hle

/-- What the lifetime rules of `process.c` promise of a state. -/
structure ProcessSound (s : System) : Prop where
  /-- The reference count is the number of outstanding owners. -/
  counted : ∀ p ∈ s.allocated, (s.procs p).immortal = false →
    (s.procs p).referenceCount = owners s p
  /-- A process is being destroyed exactly when nobody owns it. -/
  destroyed : ∀ p ∈ s.allocated, (s.procs p).immortal = false →
    (.destroy p ∈ s.pending ↔ owners s p = 0)
  /-- The registry holds exactly the processes that somebody owns. -/
  registered : ∀ p, p ∈ s.registry ↔
    p ∈ s.allocated ∧ ((s.procs p).immortal = true ∨ 0 < owners s p)
  /-- No thread, link or caller is left with a pointer to a freed object. -/
  freed : ∀ p, p ∉ s.allocated → owners s p = 0 ∧ .destroy p ∉ s.pending
  /-- No count ever underflowed and no freed object was used. -/
  stopped : Stopped s
  pids : ∀ p ∈ s.allocated, ∀ q ∈ s.allocated, (s.procs p).id = (s.procs q).id → p = q
  /-- Children are collected once, by their parent, as zombies, with the status
  of their exit. -/
  history : LogOk s.log

theorem Inv.sound (h : Inv s) (hstop : Stopped s) : ProcessSound s where
  counted p hp hi := (h.proc p hp).counted hi
  destroyed p hp hi := by
    have hk := h.proc p hp
    have hrc : (s.procs p).referenceCount = owners s p := hk.counted hi
    rw [← destroying_pos, ← hrc]
    constructor
    · exact fun hd => (hk.dying hd).2.2
    · intro hzero
      by_contra hno
      have hd : (tallies s p).destroying = 0 := Nat.eq_zero_of_not_pos hno
      rcases (hk.alive hd).2 with himm | hpos
      · rw [hi] at himm
        cases himm
      · omega
  registered p := by
    constructor
    · intro hp
      obtain ⟨hmem, hd⟩ := h.registry_owned hp
      refine ⟨hmem, ?_⟩
      have hk := h.proc p hmem
      cases hi : (s.procs p).immortal with
      | true => exact .inl rfl
      | false =>
        right
        rcases (hk.alive hd).2 with himm | hpos
        · rw [hi] at himm
          cases himm
        · rwa [hk.counted hi] at hpos
    · rintro ⟨hmem, hi | hpos⟩
      · refine (h.proc p hmem).registered.mpr ?_
        by_contra hd
        have := ((h.proc p hmem).dying (Nat.pos_of_ne_zero hd)).2.1
        rw [hi] at this
        cases this
      · exact (h.proc p hmem).registered.mpr (h.owned hpos).2
  freed p hp := by
    refine ⟨(h.freed p hp).1, fun hd => ?_⟩
    have hzero := (h.unreferenced hp).2.2.2.1
    have hpos := destroying_pos.mpr hd
    omega
  stopped := hstop
  pids := h.ids
  history := h.logOk

/-- A spawn by `creator`, a thread of `q` (or the kernel), into the object `p`,
with nothing failing. -/
def spawn (creator : Option Thread) (q p : ProcPtr) : List Label :=
  [.create creator p, .proceed (.acquireParent p) true, .proceed (.inheritCwd q p) true,
    .proceed (.retainChild q p) true, .proceed (.linkChild q p) true, .proceed (.release q) true,
    .bind p, .proceed (.attach p) true, .proceed (.created p) true,
    .publish ⟨p, .unpublished⟩]

/-- The only thread of `p` exits and is reaped. -/
def quit (p : ProcPtr) (status : Int) : List Label :=
  [.setExitStatus ⟨p, .running⟩ status, .exit ⟨p, .running⟩, .reap ⟨p, .exited⟩,
    .proceed (.detach p) true, .proceed (.release p) true]

/-- The kernel starts a program, which spawns a child and collects it. -/
def oneChild : List Label :=
  spawn none kernelProcess 1 ++ spawn (some ⟨1, .running⟩) 1 2 ++ quit 2 7 ++
    [.waitpid ⟨1, .running⟩ 3, .proceed (.release 2) true, .proceed (.destroy 2) true]

end MeatySkeleton.Process
