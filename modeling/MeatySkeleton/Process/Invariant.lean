import MeatySkeleton.Process.Model

/-!
# The process invariant

Every reference to a process is held by a pending region, a bound thread or a
child link; `owners` adds them up. `Inv` says, of every object in the heap, how
its fields relate to these tallies and to the history (`ProcInv`), and of the
whole system that freed objects have no owners, that process ids are not reused
and that parent ids agree with the child lists.

The lemmas below are one per kind of change: a move of obligations that keeps
every tally (`Inv.transfer`), a reference gained or dropped, a thread attached
or detached, a child linked or unlinked, an exit status, a new object and a
freed one. Each has a data half on `ProcInv`, where the numbers are checked.
-/

namespace MeatySkeleton.Process

open Function List Lib

/-! ## Obligations and owners -/

/-- References a pending region holds to `x`. -/
def Region.refs : Region → ProcPtr → Nat
  | .acquireParent p, x | .created p, x | .attach p, x | .detach p, x | .release p, x => one p x
  | .inheritCwd q p, x | .retainChild q p, x => one q x + one p x
  | .linkChild q p, x => one q x + 2 * one p x
  | .destroy _, _ => 0

/-- `process_create` has not decided yet whether `x` becomes a child. -/
def Region.making : Region → ProcPtr → Nat
  | .acquireParent p, x | .inheritCwd _ p, x | .retainChild _ p, x | .linkChild _ p, x => one p x
  | _, _ => 0

def Region.detaching : Region → ProcPtr → Nat
  | .detach p, x => one p x
  | _, _ => 0

open Region (refs making detaching)

def Region.destroying : Region → ProcPtr → Nat
  | .destroy p, x => one p x
  | _, _ => 0

/-- The parent a pending creation found is the one its process names. -/
def Region.agrees (procs : ProcPtr → Proc) : Region → Prop
  | .inheritCwd q p | .retainChild q p | .linkChild q p => (procs p).parentId = (procs q).id
  | _ => True

theorem Region.making_le_refs (r : Region) (x : ProcPtr) : r.making x ≤ r.refs x := by
  cases r <;> simp only [making, refs] <;> omega

theorem Region.detaching_le_refs (r : Region) (x : ProcPtr) : r.detaching x ≤ r.refs x := by
  cases r <;> simp only [detaching, refs] <;> omega

/-- The pending regions' total of a weight at `x`. -/
def due (w : Region → ProcPtr → Nat) (rs : List Region) (x : ProcPtr) : Nat :=
  tally (fun r => w r x) rs

variable {w : Region → ProcPtr → Nat} {rs : List Region} {r : Region} {x : ProcPtr}

@[simp] theorem due_nil : due w [] x = 0 := rfl

@[simp] theorem due_cons : due w (r :: rs) x = w r x + due w rs x := tally_cons ..

theorem le_due (h : r ∈ rs) : w r x ≤ due w rs x := le_tally (fun r => w r x) h

theorem due_replace (h : r ∈ rs) (new : List Region) (x : ProcPtr) :
    due w (new ++ rs.erase r) x + w r x = due w new x + due w rs x := by
  have := tally_erase (fun r => w r x) h
  rw [due, tally_append, due, due]
  omega

theorem due_mono {w' : Region → ProcPtr → Nat} (rs : List Region) (x : ProcPtr)
    (h : ∀ r, w r x ≤ w' r x) : due w rs x ≤ due w' rs x := by
  induction rs with
  | nil => exact Nat.le_refl _
  | cons r rs ih => rw [due_cons, due_cons]; exact Nat.add_le_add (h r) ih

/-- Threads bound to `x`. -/
def bound (ts : List Thread) (x : ProcPtr) : Nat := tally (fun t => one t.process x) ts

@[simp] theorem bound_cons (t : Thread) (ts : List Thread) :
    bound (t :: ts) x = one t.process x + bound ts x := tally_cons ..

theorem bound_erase {t : Thread} {ts : List Thread} (h : t ∈ ts) (x : ProcPtr) :
    one t.process x + bound (ts.erase t) x = bound ts x :=
  tally_erase (fun t => one t.process x) h

theorem bound_pos {t : Thread} {ts : List Thread} (h : t ∈ ts) : 0 < bound ts t.process := by
  have := bound_erase h t.process
  rw [one_self] at this
  omega

/-- Child links to `x`. -/
def linked (allocated : List ProcPtr) (procs : ProcPtr → Proc) (x : ProcPtr) : Nat :=
  tally (fun q => (procs q).children.count x) allocated

theorem linked_congr {allocated : List ProcPtr} {procs procs' : ProcPtr → Proc}
    (h : ∀ q ∈ allocated, (procs' q).children = (procs q).children) (x : ProcPtr) :
    linked allocated procs' x = linked allocated procs x := by
  apply tally_congr
  intro q hq
  rw [h q hq]

theorem linked_pos {allocated : List ProcPtr} {procs : ProcPtr → Proc} {q : ProcPtr}
    (hq : q ∈ allocated) (h : x ∈ (procs q).children) : 0 < linked allocated procs x := by
  have hle := le_tally (fun q => (procs q).children.count x) hq
  have hpos := count_pos_iff.mpr h
  exact Nat.lt_of_lt_of_le hpos hle

structure Tallies where
  held : Nat
  bound : Nat
  linked : Nat
  making : Nat
  detaching : Nat
  destroying : Nat

def tallies (s : System) (x : ProcPtr) : Tallies :=
  { held := due refs s.pending x
    bound := bound s.threads x
    linked := linked s.allocated s.procs x
    making := due making s.pending x
    detaching := due detaching s.pending x
    destroying := due Region.destroying s.pending x }

def Tallies.owners (n : Tallies) : Nat := n.held + n.bound + n.linked

/-- The outstanding owners of a process: callers that created it, look at it or
are about to release it, bound threads, and the parent link. -/
def owners (s : System) (x : ProcPtr) : Nat := (tallies s x).owners

/-! ## The history -/

def Event.pid : Event → Pid
  | .created c _ | .exited c _ | .zombie c | .collected c _ _ => c

def Event.collects : Event → Pid → Nat
  | .collected c _ _, pid => one c pid
  | _, _ => 0

/-- How often `pid` was collected. -/
def collects (pid : Pid) (log : List Event) : Nat := tally (fun e => e.collects pid) log

@[simp] theorem collects_cons (pid : Pid) (e : Event) (log : List Event) :
    collects pid (e :: log) = e.collects pid + collects pid log := tally_cons ..

/-- The status of the last exit of `pid`; a process that never stored one has
the status it was created with. -/
def lastStatus (pid : Pid) : List Event → Int
  | [] => 0
  | .exited c status :: log => if c = pid then status else lastStatus pid log
  | _ :: log => lastStatus pid log

/-- What an event needs of the history before it: process ids are fresh, only a
process that is no zombie exits or becomes one, and a child is collected by its
parent, once, as a zombie, with the status of its exit. -/
def EventOk (log : List Event) : Event → Prop
  | .created c _ => ∀ e ∈ log, e.pid ≠ c
  | .exited c _ => .zombie c ∉ log
  | .zombie c => .zombie c ∉ log
  | .collected c parent status =>
    .zombie c ∈ log ∧ .created c parent ∈ log ∧ status = lastStatus c log ∧ collects c log = 0

def LogOk : List Event → Prop
  | [] => True
  | e :: log => EventOk log e ∧ LogOk log

theorem collects_eq_zero {pid : Pid} {log : List Event} (h : ∀ e ∈ log, e.pid ≠ pid) :
    collects pid log = 0 := by
  apply tally_eq_zero.mpr
  intro e he
  have := h e he
  cases e with
  | collected c _ _ => exact one_ne this
  | _ => rfl

theorem lastStatus_fresh {pid : Pid} : ∀ {log : List Event}, (∀ e ∈ log, e.pid ≠ pid) →
    lastStatus pid log = 0
  | [], _ => rfl
  | e :: log, h => by
    have ih := lastStatus_fresh fun e he => h e (mem_cons_of_mem _ he)
    cases e with
    | exited c status =>
      have hc : c ≠ pid := h _ mem_cons_self
      simpa only [lastStatus, if_neg hc] using ih
    | _ => exact ih

/-! ## The invariant -/

/-- What holds of one object in the heap. -/
structure ProcInv (k : Proc) (n : Tallies) (registered : Prop) (log : List Event) : Prop where
  counted : k.immortal = false → k.referenceCount = n.owners
  alive : n.destroying = 0 → k.state ≠ .dead ∧ (k.immortal = true ∨ 0 < k.referenceCount)
  dying : 0 < n.destroying → n.destroying = 1 ∧ k.immortal = false ∧ k.referenceCount = 0
  registered : registered ↔ n.destroying = 0
  threads : k.liveThreads = n.bound + n.detaching
  zombieThreads : k.state = .zombie → k.liveThreads = 0
  children : k.childCount = k.children.length
  once : n.making + n.linked + collects k.id log ≤ 1
  status : k.exitStatus = lastStatus k.id log
  zombieLogged : k.state = .zombie → .zombie k.id ∈ log
  notZombie : k.state ≠ .zombie → k.state ≠ .dead → .zombie k.id ∉ log
  createdLogged : .created k.id k.parentId ∈ log

structure Inv (s : System) : Prop where
  nodup : s.allocated.Nodup
  regNodup : s.registry.Nodup
  freed : ∀ x, x ∉ s.allocated → owners s x = 0 ∧ (tallies s x).destroying = 0 ∧ x ∉ s.registry
  proc : ∀ x ∈ s.allocated, ProcInv (s.procs x) (tallies s x) (x ∈ s.registry) s.log
  ids : ∀ x ∈ s.allocated, ∀ y ∈ s.allocated, (s.procs x).id = (s.procs y).id → x = y
  nextLt : s.nextProcessId < 2 ^ 32
  fresh : s.nextProcessId ≠ 0 → ∀ e ∈ s.log, e.pid < s.nextProcessId
  live : s.liveProcesses = s.registry.length
  parents : ∀ q ∈ s.allocated, ∀ c ∈ (s.procs q).children, (s.procs c).parentId = (s.procs q).id
  agrees : ∀ r ∈ s.pending, r.agrees s.procs
  logOk : LogOk s.log

variable {s : System} {p q : ProcPtr}

/-- Whatever has an owner is in the heap and not being destroyed. -/
theorem Inv.owned (h : Inv s) (ho : 0 < owners s x) :
    x ∈ s.allocated ∧ (tallies s x).destroying = 0 := by
  have hmem : x ∈ s.allocated := by
    by_contra hno
    have := (h.freed x hno).1
    omega
  refine ⟨hmem, ?_⟩
  by_contra hd
  obtain ⟨_, himm, hrc⟩ := (h.proc x hmem).dying (Nat.pos_of_ne_zero hd)
  have := (h.proc x hmem).counted himm
  have : owners s x = (tallies s x).owners := rfl
  omega

theorem Inv.held_owned (h : Inv s) (hr : r ∈ s.pending) (hw : 0 < r.refs x) :
    x ∈ s.allocated ∧ (tallies s x).destroying = 0 := by
  apply h.owned
  have hle : r.refs x ≤ due refs s.pending x := le_due hr
  change 0 < due refs s.pending x + _ + _
  omega

theorem Inv.bound_owned (h : Inv s) {t : Thread} (ht : t ∈ s.threads) :
    t.process ∈ s.allocated ∧ (tallies s t.process).destroying = 0 := by
  apply h.owned
  have := bound_pos ht
  change 0 < _ + bound s.threads t.process + _
  omega

theorem Inv.linked_owned (h : Inv s) (hq : q ∈ s.allocated) (hc : x ∈ (s.procs q).children) :
    x ∈ s.allocated ∧ (tallies s x).destroying = 0 := by
  apply h.owned
  have := linked_pos hq hc
  change 0 < _ + _ + linked s.allocated s.procs x
  omega

theorem load_ok (h : p ∈ s.allocated) : s.load p = .ok (s.procs p) := if_pos h

@[simp] theorem edit_self (f : Proc → Proc) : (s.edit p f).procs p = f (s.procs p) :=
  update_self ..

variable {f : Proc → Proc}

theorem edit_ne (h : x ≠ p) : (s.edit p f).procs x = s.procs x :=
  update_of_ne h ..

/-- A field the write does not touch reads as before. -/
theorem edit_field {β : Type} {g : Proc → β} (h : ∀ k, g (f k) = g k)
    (x : ProcPtr) : g ((s.edit p f).procs x) = g (s.procs x) := by
  by_cases hx : x = p
  · subst hx; rw [edit_self, h]
  · rw [edit_ne hx]

/-! ## Changes of one object -/

/-- Obligations change hands: no child link out of nothing, and all but the
number of owners stays. -/
structure Tallies.Moves (n n' : Tallies) : Prop where
  lineage : n'.making + n'.linked ≤ n.making + n.linked
  threads : n'.bound + n'.detaching = n.bound + n.detaching
  destroying : n'.destroying = n.destroying

section data

variable {k : Proc} {n n' : Tallies} {registered : Prop} {log : List Event}

/-- The number of references and the number of owners change together. -/
theorem ProcInv.recount (h : ProcInv k n registered log) (hm : n.Moves n') {c : Nat}
    (hc : k.immortal = false → c = n'.owners) (hd : n.destroying = 0 → k.immortal = true ∨ 0 < c)
    (hz : 0 < n.destroying → c = 0) :
    ProcInv { k with referenceCount := c } n' registered log :=
  { h with
    counted := hc
    alive hd' := by
      rw [hm.destroying] at hd'
      exact ⟨(h.alive hd').1, hd hd'⟩
    dying hd' := by
      rw [hm.destroying] at hd' ⊢
      exact ⟨(h.dying hd').1, (h.dying hd').2.1, hz hd'⟩
    registered := by rw [hm.destroying]; exact h.registered
    threads := by rw [hm.threads]; exact h.threads
    once := by
      have hone : n.making + n.linked + collects k.id log ≤ 1 := h.once
      have := hm.lineage
      change _ + _ + collects k.id log ≤ 1
      omega }

theorem ProcInv.transfer (h : ProcInv k n registered log) (hm : n.Moves n')
    (ho : n'.owners = n.owners) : ProcInv k n' registered log :=
  h.recount hm (fun hi => (h.counted hi).trans ho.symm) (fun hd => (h.alive hd).2)
    (fun hd => (h.dying hd).2.2)

/-- An event of another process. -/
theorem ProcInv.record (h : ProcInv k n registered log) {e : Event} (he : e.pid ≠ k.id) :
    ProcInv k n registered (e :: log) :=
  { h with
    once := by
      have hzero : e.collects k.id = 0 := by
        cases e with
        | collected c _ _ => exact one_ne he
        | _ => rfl
      rw [collects_cons, hzero, Nat.zero_add]
      exact h.once
    status := by
      rw [h.status]
      cases e with
      | exited c status => exact (if_neg he).symm
      | _ => rfl
    zombieLogged hz := mem_cons_of_mem _ (h.zombieLogged hz)
    notZombie hz hd hmem := by
      rcases mem_cons.mp hmem with rfl | hmem
      · exact he rfl
      · exact h.notZombie hz hd hmem
    createdLogged := mem_cons_of_mem _ h.createdLogged }

end data

/-- One object of a system changes, with the obligations around it. -/
theorem Inv.update (h : Inv s) {s' : System} (halloc : s'.allocated = s.allocated)
    (hnext : s'.nextProcessId = s.nextProcessId)
    (hprocs : ∀ x, x ≠ q → s'.procs x = s.procs x)
    (hid : (s'.procs q).id = (s.procs q).id) (hparent : (s'.procs q).parentId = (s.procs q).parentId)
    (hregNodup : s'.registry.Nodup) (hlive : s'.liveProcesses = s'.registry.length)
    (hfreed : ∀ x, x ∉ s.allocated →
      owners s' x = 0 ∧ (tallies s' x).destroying = 0 ∧ x ∉ s'.registry)
    (hother : ∀ x ∈ s.allocated, x ≠ q →
      ProcInv (s.procs x) (tallies s' x) (x ∈ s'.registry) s'.log)
    (hproc : q ∈ s.allocated → ProcInv (s'.procs q) (tallies s' q) (q ∈ s'.registry) s'.log)
    (hchildren : ∀ c ∈ (s'.procs q).children, q ∈ s.allocated →
      (s.procs c).parentId = (s.procs q).id)
    (hagrees : ∀ r ∈ s'.pending, r.agrees s.procs) (hlogOk : LogOk s'.log)
    (hpids : ∀ e ∈ s'.log, ∃ e' ∈ s.log, e'.pid = e.pid) : Inv s' := by
  have hident : ∀ x, (s'.procs x).id = (s.procs x).id ∧
      (s'.procs x).parentId = (s.procs x).parentId := by
    intro x
    by_cases hx : x = q
    · subst hx; exact ⟨hid, hparent⟩
    · rw [hprocs x hx]; exact ⟨rfl, rfl⟩
  refine
    { nodup := halloc ▸ h.nodup
      regNodup := hregNodup
      freed := fun x hx => hfreed x (halloc ▸ hx)
      proc := ?_
      ids := ?_
      nextLt := hnext ▸ h.nextLt
      fresh := ?_
      live := hlive
      parents := ?_
      agrees := ?_
      logOk := hlogOk }
  · intro x hx
    rw [halloc] at hx
    by_cases hxq : x = q
    · subst hxq; exact hproc hx
    · rw [hprocs x hxq]; exact hother x hx hxq
  · intro x hx y hy hxy
    rw [(hident x).1, (hident y).1] at hxy
    exact h.ids x (halloc ▸ hx) y (halloc ▸ hy) hxy
  · intro hn e he
    rw [hnext] at hn ⊢
    obtain ⟨e', he', hpid⟩ := hpids e he
    exact hpid ▸ h.fresh hn e' he'
  · intro y hy c hc
    rw [halloc] at hy
    rw [(hident c).2, (hident y).1]
    by_cases hyq : y = q
    · subst hyq; exact hchildren c hc hy
    · rw [hprocs y hyq] at hc
      exact h.parents y hy c hc
  · intro r hr
    have := hagrees r hr
    cases r <;> simp only [Region.agrees] at this ⊢
    all_goals rw [(hident _).2, (hident _).1, this]

theorem tallies_edit (hf : ∀ k, (f k).children = k.children) (x : ProcPtr) :
    tallies (s.edit q f) x = tallies s x := by
  have hlinked : linked s.allocated (s.edit q f).procs x = linked s.allocated s.procs x :=
    linked_congr (fun y _ => edit_field hf y) x
  rw [tallies, tallies, ← hlinked]
  rfl

/-- The fields an edit may not write. -/
structure Keeps (f : Proc → Proc) : Prop where
  id : ∀ k, (f k).id = k.id
  parentId : ∀ k, (f k).parentId = k.parentId
  children : ∀ k, (f k).children = k.children

/-- One object is written that keeps its id and its children; the history may
grow by an event of this process. -/
theorem Inv.edited (h : Inv s) (ps : List Region) (ts : List Thread)
    (log : List Event) (hq : q ∈ s.allocated) (hf : Keeps f)
    (hm : ∀ x, x ≠ q → (tallies s x).Moves (tallies { s with pending := ps, threads := ts } x))
    (ho : ∀ x, x ≠ q → owners { s with pending := ps, threads := ts } x = owners s x)
    (hproc : ProcInv (f (s.procs q)) (tallies { s with pending := ps, threads := ts } q)
      (q ∈ s.registry) log)
    (hlog : log = s.log ∨ ∃ e, log = e :: s.log ∧ e.pid = (s.procs q).id ∧ EventOk s.log e)
    (hagrees : ∀ r ∈ ps, r.agrees s.procs) :
    Inv (({ s with pending := ps, threads := ts, log := log } : System).edit q f) := by
  have htallies : ∀ x, tallies (({ s with pending := ps, threads := ts, log := log } :
      System).edit q f) x = tallies { s with pending := ps, threads := ts } x :=
    tallies_edit hf.children
  have hcreated : ∃ e ∈ s.log, e.pid = (s.procs q).id := ⟨_, (h.proc q hq).createdLogged, rfl⟩
  refine h.update (q := q) rfl rfl (fun x hx => edit_ne hx) (edit_field hf.id q)
    (edit_field hf.parentId q) h.regNodup h.live ?_ ?_ ?_ ?_ hagrees ?_ ?_
  · intro x hx
    have hne : x ≠ q := fun he => hx (he ▸ hq)
    rw [owners, htallies]
    exact ⟨(ho x hne).trans (h.freed x hx).1, (hm x hne).destroying.trans (h.freed x hx).2.1,
      (h.freed x hx).2.2⟩
  · intro x hx hxq
    rw [htallies]
    have hx' := (h.proc x hx).transfer (hm x hxq) (ho x hxq)
    rcases hlog with rfl | ⟨e, rfl, hpid, _⟩
    · exact hx'
    · refine hx'.record fun he => hxq ?_
      exact h.ids x hx q hq (he.symm.trans hpid)
  · intro _
    rw [htallies, edit_self]
    exact hproc
  · intro c hc hmem
    have hsame := edit_field (s := { s with pending := ps, threads := ts, log := log }) (p := q)
      hf.children q
    rw [hsame] at hc
    exact h.parents q hmem c hc
  · rcases hlog with rfl | ⟨e, rfl, _, hok⟩
    · exact h.logOk
    · exact ⟨hok, h.logOk⟩
  · rcases hlog with rfl | ⟨e, rfl, hpid, _⟩
    · exact fun e he => ⟨e, he, rfl⟩
    · intro e' he'
      rcases mem_cons.mp he' with rfl | he'
      · obtain ⟨c, hc, hcid⟩ := hcreated
        exact ⟨c, hc, hcid.trans hpid.symm⟩
      · exact ⟨e', he', rfl⟩

/-! ## Moves of obligations -/

/-- Obligations change hands and no object is written. -/
theorem Inv.transfer (h : Inv s) (ps : List Region) (ts : List Thread)
    (hm : ∀ x, (tallies s x).Moves (tallies { s with pending := ps, threads := ts } x))
    (ho : ∀ x, owners { s with pending := ps, threads := ts } x = owners s x)
    (hagrees : ∀ r ∈ ps, r.agrees s.procs) : Inv { s with pending := ps, threads := ts } :=
  { h with
    freed x hx := ⟨(ho x).trans (h.freed x hx).1, (hm x).destroying.trans (h.freed x hx).2.1,
      (h.freed x hx).2.2⟩
    proc x hx := (h.proc x hx).transfer (hm x) (ho x)
    agrees := hagrees }

/-- A region that writes no object and passes on what it holds. -/
theorem Inv.moved (h : Inv s) (hr : r ∈ s.pending) {rs : List Region}
    (hrefs : ∀ x, due refs rs x = r.refs x)
    (hmaking : ∀ x, due making rs x ≤ r.making x)
    (hdetaching : ∀ x, due detaching rs x = r.detaching x)
    (hdestroying : ∀ x, due Region.destroying rs x = r.destroying x)
    (hagrees : ∀ r ∈ rs, r.agrees s.procs) : Inv (s.move r rs) := by
  have hrep := fun w x => due_replace (w := w) hr rs x
  refine h.transfer (rs ++ s.pending.erase r) s.threads ?_ ?_ ?_
  · intro x
    have h1 := hrep making x
    have h2 := hrep detaching x
    have h3 := hrep Region.destroying x
    have h4 := hmaking x
    have h5 := hdetaching x
    have h6 := hdestroying x
    refine ⟨?_, ?_, ?_⟩ <;> simp only [tallies] <;> omega
  · intro x
    have h1 := hrep refs x
    have h2 := hrefs x
    simp only [owners, Tallies.owners, tallies]
    omega
  · intro r' hr'
    rcases mem_append.mp hr' with hr' | hr'
    · exact hagrees r' hr'
    · exact h.agrees r' (mem_of_mem_erase hr')

/-! ## References -/

/-- The reference count of an immortal process stands still. -/
def countUp (k : Proc) : Proc :=
  { k with referenceCount := k.referenceCount + if k.immortal then 0 else 1 }

/-- The system after a reference to `q` was taken. -/
def System.gain (s : System) (q : ProcPtr) : System := s.edit q countUp

theorem gain_immortal (hi : (s.procs q).immortal = true) : s.gain q = s := by
  have hsame : (s.procs q).referenceCount + (if (s.procs q).immortal then 0 else 1) =
      (s.procs q).referenceCount := by
    rw [hi]
    rfl
  have hup : countUp (s.procs q) = s.procs q := by rw [countUp, hsame]
  rw [System.gain, System.edit, hup, update_eq_self]

theorem gain_mortal (hi : (s.procs q).immortal = false) : s.gain q = s.edit q addReference := by
  have hmore : (s.procs q).referenceCount + (if (s.procs q).immortal then 0 else 1) =
      (s.procs q).referenceCount + 1 := by
    rw [hi]
    rfl
  have hup : countUp (s.procs q) = addReference (s.procs q) := by
    rw [countUp, hmore, addReference]
  rw [System.gain, System.edit, hup, System.edit]

/-- A caller takes a reference to a process that is not being destroyed. -/
theorem Inv.gain (h : Inv s) (ps : List Region) (hq : q ∈ s.allocated)
    (hd : (tallies s q).destroying = 0)
    (hm : ∀ x, (tallies s x).Moves (tallies { s with pending := ps } x))
    (ho : ∀ x, owners { s with pending := ps } x = owners s x + one q x)
    (hagrees : ∀ r ∈ ps, r.agrees s.procs) :
    Inv (({ s with pending := ps } : System).gain q) := by
  refine h.edited ps s.threads s.log hq ⟨fun _ => rfl, fun _ => rfl, fun _ => rfl⟩
    (fun x _ => hm x) ?_ ?_ (.inl rfl) hagrees
  · intro x hx
    have := ho x
    rw [one_ne (Ne.symm hx)] at this
    exact this
  · have hk := h.proc q hq
    refine hk.recount (hm q) ?_ ?_ ?_
    · intro hi
      have hrc : (s.procs q).referenceCount = owners s q := hk.counted hi
      have hown := ho q
      rw [one_self] at hown
      rw [hi, hrc]
      exact hown.symm
    · intro _
      rcases (hk.alive hd).2 with hi | hpos
      · exact .inl hi
      · exact .inr (Nat.add_pos_left hpos _)
    · intro hpos
      omega

end MeatySkeleton.Process
