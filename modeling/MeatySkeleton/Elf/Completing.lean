import MeatySkeleton.Elf.Interleaving

/-!
# Loads that come to their end

A step takes one frame at most, so a load of a program that can be loaded goes
through to its end when there are as many frames as steps.
-/

namespace MeatySkeleton.Elf

open Function Option Lib Paging

variable {m0 m m' : Machine} {k v : Nat} {flags : Word} {l l' : Load} {w : World Unit}
  {final : Unit → Own} {own : Unit → Own} {role : Nat → Role Unit}

/-! ## The frames a step takes -/

theorem store_used {x : Word} (h : m.store v x = some m') : m'.used = m.used := by
  obtain ⟨⟨frame, i⟩, -, h⟩ := bind_eq_some_iff.mp h
  obtain rfl := some.inj h
  rfl

theorem editPage_used {g : (Nat → Word) → Nat → Word} (h : m.editPage v g = some m') :
    m'.used = m.used := by
  obtain ⟨⟨frame, i⟩, -, h⟩ := bind_eq_some_iff.mp h
  obtain rfl := some.inj h
  rfl

variable {ok : Bool}

theorem installPage_used {d t address : Nat}
    (h : installPage m d t address flags = some (ok, m')) : m'.used = m.used := by
  obtain ⟨pte, -, h⟩ := bind_eq_some_iff.mp h
  split at h
  next =>
    cases h
    rfl
  next =>
    obtain ⟨m1, hstore, h⟩ := bind_eq_some_iff.mp h
    cases h
    exact store_used hstore

theorem frames_of_same (h : m'.used = m.used) : freeFrames m.used ≤ freeFrames m'.used + 1 := by
  rw [h]
  exact Nat.le_succ _

/-- Mapping a page takes a frame at most, for its page table. -/
theorem pagingMapPage_frames {address : Nat}
    (h : pagingMapPage m v address flags = some (ok, m')) :
    freeFrames m.used ≤ freeFrames m'.used + 1 := by
  rw [pagingMapPage] at h
  split at h
  next =>
    cases h
    exact frames_of_same rfl
  next =>
  split at h
  next =>
    cases h
    exact frames_of_same rfl
  next =>
  split at h
  next =>
    cases h
    exact frames_of_same rfl
  next =>
  obtain ⟨pde, -, h⟩ := bind_eq_some_iff.mp h
  split at h
  next =>
    rcases pmmAllocateFrame_cases m with ⟨hnone, -⟩ | ⟨frame, hsome, -, -, -, hcount⟩
    · rw [hnone] at h
      cases h
      exact frames_of_same rfl
    · rw [hsome] at h
      obtain ⟨m1, hstore, h⟩ := bind_eq_some_iff.mp h
      obtain ⟨m2, hclear, h⟩ := bind_eq_some_iff.mp h
      rw [installPage_used h, editPage_used hclear, store_used hstore, hcount]
  next =>
    obtain ⟨m1, hstore, h⟩ := bind_eq_some_iff.mp h
    exact frames_of_same ((installPage_used h).trans (store_used hstore))

theorem pagingSwitchDirectory_used (m : Machine) (directory : Nat) :
    (pagingSwitchDirectory m directory).2.used = m.used := by
  rw [pagingSwitchDirectory]
  split
  · rfl
  · split
    · rfl
    · rfl

theorem pagingMapPageInDirectory_frames {directory address : Nat}
    (h : pagingMapPageInDirectory m directory v address flags = some (ok, m')) :
    freeFrames m.used ≤ freeFrames m'.used + 1 := by
  rw [pagingMapPageInDirectory] at h
  split at h
  next =>
    cases h
    exact frames_of_same rfl
  next =>
  split at h
  next => exact pagingMapPage_frames h
  next =>
  split at h
  next =>
    cases h
    exact frames_of_same rfl
  next =>
  have hswitch := pagingSwitchDirectory_used m directory
  split at h
  next he =>
    cases h
    rw [he] at hswitch
    exact frames_of_same hswitch
  next m1 he =>
    rw [he] at hswitch
    obtain ⟨⟨mapped, m2⟩, hmap, h⟩ := bind_eq_some_iff.mp h
    have hframes := pagingMapPage_frames hmap
    have hback := pagingSwitchDirectory_used m2 m2.kernelDirectory
    dsimp only at h
    split at h
    next => cases h
    next m3 he3 =>
      cases h
      rw [he3] at hback
      rw [← hswitch, hback]
      exact hframes

theorem pagingUnmapPage_used (h : pagingUnmapPage m v false = some (ok, m')) :
    m'.used = m.used := by
  rw [pagingUnmapPage] at h
  split at h
  next =>
    cases h
    rfl
  next =>
  split at h
  next =>
    cases h
    rfl
  next =>
  obtain ⟨pde, -, h⟩ := bind_eq_some_iff.mp h
  split at h
  next =>
    cases h
    rfl
  next =>
  obtain ⟨pte, -, h⟩ := bind_eq_some_iff.mp h
  split at h
  next =>
    cases h
    rfl
  next =>
  obtain ⟨m1, hstore, h⟩ := bind_eq_some_iff.mp h
  cases h
  exact store_used hstore

/-- A step that goes through takes one frame at most. -/
theorem perform_frames {s : Step} (hok : l'.failed = false) (h : s.perform l m = some (m', l')) :
    freeFrames m.used ≤ freeFrames m'.used + 1 := by
  rcases perform_cases h with ⟨hfailed, -⟩ | hperformed
  · rw [hfailed] at hok
    cases hok
  cases hperformed with
  | active => exact frames_of_same rfl
  | allocated hallocate =>
    rcases pmmAllocateFrame_cases m with ⟨hnone, -⟩ | ⟨frame, hsome, -, -, -, hcount⟩
    · rw [hnone] at hallocate
      cases hallocate
    · rw [hsome] at hallocate
      cases hallocate
      exact Nat.le_of_eq hcount.symm
  | opened _ hmap => exact pagingMapPage_frames hmap
  | wrote hedit => exact frames_of_same (editPage_used hedit)
  | skipped => exact frames_of_same rfl
  | unshared => exact frames_of_same rfl
  | shared _ _ _ hstore => exact frames_of_same (store_used hstore)
  | closed _ hstore => exact frames_of_same (store_used hstore)
  | unmapped hunmap => exact frames_of_same (pagingUnmapPage_used hunmap)
  | adopted => exact frames_of_same rfl
  | entered _ _ hmap => exact pagingMapPageInDirectory_frames hmap

/-! ## To the end -/

/-- With as many frames as steps, a load nobody interferes with comes to its end. -/
theorem Inv.completes : ∀ {n : Nat} {w : World Unit} {own : Unit → Own} {role : Nat → Role Unit},
    Inv m0 k final w own role → (w.load ()).steps.length = n → n ≤ freeFrames w.machine.used →
    ∃ us w', Run Elf.step w us w' ∧ (w'.load ()).steps = [] ∧ (w'.load ()).failed = false
  | 0, w, own, role, h, hlength, _ =>
    ⟨[], w, .nil, List.eq_nil_of_length_eq_zero hlength, (h.load ()).running⟩
  | n + 1, w, own, role, h, hlength, hframes => by
    have hmore : (w.load ()).steps ≠ [] := by
      intro hnil
      rw [hnil] at hlength
      cases hlength
    have hu : Undisturbed w () := ⟨by omega, fun _ j hj => absurd rfl hj⟩
    obtain ⟨w1, own1, role1, hstep, h1⟩ := h.step hu hmore
    have htaken := hstep
    rw [Elf.step] at htaken
    split at htaken
    next hnil => exact absurd hnil hmore
    next s rest hsteps =>
      split at htaken
      next => cases htaken
      next m1 l1 hperform =>
        obtain rfl := some.inj htaken
        have hself : update w.load () l1 () = l1 := update_self ..
        have hrunning : l1.failed = false := by
          rw [← hself]
          exact (h1.load ()).running
        have hcount := perform_frames hrunning hperform
        have hrest : l1.steps = rest := by
          rcases perform_cases hperform with ⟨hbad, -⟩ | hperformed
          · rw [hrunning] at hbad
            cases hbad
          · exact hperformed.perform.1
        rw [hsteps, List.length_cons] at hlength
        obtain ⟨us, w', hrun, hend⟩ := Inv.completes (n := n) h1
          (by
            show (update w.load () l1 ()).steps.length = n
            rw [hself, hrest]
            exact Nat.succ.inj hlength)
          (show n ≤ freeFrames m1.used by omega)
        exact ⟨() :: us, w', hrun.cons trivial hstep, hend⟩

/-- All frames from `n` on are free. -/
theorem freeFrames_ge {used : Nat → Bool} {n : Nat} (hn : 0 < n ∧ n ≤ frameCount)
    (hfree : ∀ x, n ≤ x → used x = false) : frameCount - n ≤ freeFrames used := by
  have hsplit : List.range' 1 (frameCount - 1) =
      List.range' 1 (n - 1) ++ List.range' n (frameCount - n) := by
    have happend := @List.range'_append 1 (n - 1) (frameCount - n) 1
    have hstart : 1 + 1 * (n - 1) = n := by omega
    have hcount : n - 1 + (frameCount - n) = frameCount - 1 := by omega
    rw [hstart, hcount] at happend
    exact happend.symm
  have hcount : tally (fun frame => if used frame then 0 else 1) (List.range' n (frameCount - n)) =
      frameCount - n := by
    have hone : ∀ x ∈ List.range' n (frameCount - n), (if used x then 0 else 1) = 1 := by
      intro x hx
      rw [hfree x (List.mem_range'_1.mp hx).1]
      rfl
    rw [tally, List.map_congr_left hone, List.map_const', List.sum_replicate_nat,
      List.length_range', Nat.mul_one]
  rw [freeFrames, hsplit, tally_append, hcount]
  exact Nat.le_add_left _ _

theorem spin_completes : ∃ us w, Run step (start booted fun _ : Unit => spin.steps) us w ∧
    (w.load ()).steps = [] ∧ (w.load ()).failed = false := by
  have hinv := start_inv booted_ready fun _ : Unit => spin_loadable.run
  refine hinv.completes rfl ?_
  have hfree : ∀ x, 3 ≤ x → booted.used x = false := by
    intro x hx
    show decide (x ≤ 2) = false
    rw [decide_eq_false]
    omega
  have hframes := freeFrames_ge (by decide) hfree
  have hlength : spin.steps.length ≤ frameCount - 3 := by decide +kernel
  exact Nat.le_trans hlength hframes

end MeatySkeleton.Elf
