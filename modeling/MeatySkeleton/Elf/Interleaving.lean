import MeatySkeleton.Elf.Alone
import MeatySkeleton.Elf.Image
import MeatySkeleton.Elf.Runs

/-!
# Loads that interleave

The loader, `paging.c` and `user_image.c` all fill frames through the one page at
`0xE0000000`, and no lock is held from its mapping to its unmapping. The present
bit of its entry keeps two loads from using it at the same time: the second
`paging_map_page` returns `false`, and the load it belongs to gives up. So loads
that interleave in any way do not all succeed (`not_run_images`), while a run in
which nobody maps the page as another load has it ends with the images of all
programs (`run_images`).
-/

namespace MeatySkeleton.Elf

open Lib Paging

variable {ι : Type} [DecidableEq ι] {m0 m m' : Machine} {k f f' scratch : Nat} {i j : ι} {l l' : Load}
  {w w' : World ι} {own final : ι → Own} {role : Nat → Role ι}

/-! ## Mapping the scratch page as another load has it -/

theorem openScratch_taken (ho : Opened m k scratch f') (hok : DirectoryOk m k)
    (h : l.openScratch m f = some (m', l')) : l'.failed = true := by
  obtain ⟨hd, ht, -⟩ := scratch_index 0 (by decide)
  change pageDirectoryIndex scratchAddress = _ at hd
  change pageTableIndex scratchAddress = _ at ht
  obtain ⟨r, hr, hout⟩ := pagingMapPage_outcome hok ho.directory (v := scratchAddress) (by decide)
    (by rw [hd]; decide) f pageWritable
  rw [hd, ht] at hout
  rw [Load.openScratch, hr] at h
  cases hout with
  | noFrame habsent =>
    rw [ho.pde.1] at habsent
    cases habsent
  | newTable habsent =>
    rw [ho.pde.1] at habsent
    cases habsent
  | mapped _ hfree =>
    rw [ho.pde.2, ho.pte.1] at hfree
    cases hfree
  | taken => exact (Load.fail_spec h).1

/-- The load that maps the scratch page while another has it fails. -/
theorem Inv.disturbed (h : Inv m0 k final w own role)
    (hmaps : (w.load i).steps.head?.any Step.mapsScratch = true) (hj : (w.load j).holding = true)
    (hstep : Elf.step w i = some w') : (w'.load i).failed = true := by
  have htarget : (own j).target ≠ none := by
    intro hnone
    rw [(h.load j).holding, hnone] at hj
    cases hj
  obtain ⟨f', -, ho⟩ := h.slot.held j htarget
  cases hsteps : (w.load i).steps with
  | nil =>
    rw [hsteps] at hmaps
    cases hmaps
  | cons s rest =>
    rw [hsteps] at hmaps
    rw [Elf.step, hsteps] at hstep
    dsimp only at hstep
    split at hstep
    next => cases hstep
    next m' l' hperform =>
      obtain rfl := Option.some.inj hstep
      show (Function.update w.load i l' i).failed = true
      rw [Function.update_self]
      cases s with
      | mapScratch =>
        obtain ⟨f, -, hopen⟩ := Option.bind_eq_some_iff.mp hperform
        exact openScratch_taken ho h.kernel.ok hopen
      | mapTopFrame =>
        dsimp only [Step.perform] at hperform
        split at hperform
        next => exact (Load.fail_spec hperform).1
        next f _ => exact openScratch_taken ho h.kernel.ok hperform
      | _ => cases hmaps

/-! ## Runs of programs -/

/-- Loads of programs that can be loaded, in a run where none maps the scratch page
while another has it and no allocation fails: no load has failed, the next step of
each goes through if it is of that kind and fails if it maps the page as another
load has it, and a load at its end has made a directory with its program's image. -/
theorem run_images {program : ι → Program} {is : List ι} (hready : KernelReady m0 k)
    (hload : ∀ i, Loadable (roomOf m0 k) (program i))
    (hrun : RunWhere step Undisturbed (start m0 fun i => (program i).steps) is w) (i : ι) :
    (w.load i).failed = false ∧
    ((w.load i).steps ≠ [] → Undisturbed w i → ∃ w', step w i = some w') ∧
    (∀ j w', (w.load i).steps.head?.any Step.mapsScratch = true → (w.load j).holding = true →
      step w i = some w' → (w'.load i).failed = true) ∧
    ((w.load i).steps = [] →
      ∃ dir, (w.load i).directory = some dir ∧ Shows w.machine dir (program i).image) := by
  obtain ⟨own, role, h⟩ := run_inv hready (fun i => (hload i).run) hrun
  refine ⟨(h.load i).running, fun hmore hu => ?_, fun j w' hmaps hj hstep => ?_, fun hend => ?_⟩
  · obtain ⟨w', -, -, hstep, -⟩ := h.step hu hmore
    exact ⟨w', hstep⟩
  · exact h.disturbed hmaps hj hstep
  · have hfinal := h.rest i
    rw [hend] at hfinal
    have hown : own i = ⟨none, none, true, (program i).image, some (program i).topPage⟩ :=
      Option.some.inj hfinal
    rcases (h.load i).space with ⟨-, hcreated, -⟩ | ⟨dir, hdir, -, hspace, -⟩
    · rw [hown] at hcreated
      cases hcreated
    · rw [hown] at hspace
      exact ⟨dir, hdir, hspace.shows⟩

/-- The smallest of programs: one segment with a jump to itself, one page of stack
and the argument `a`. -/
def spin : Program where
  file :=
    { bytes := fun i => ([0x7F, 0x45, 0x4C, 0x46, 1, 1, 1, 0, 0, 0, 0, 0, 0, 0, 0, 0,
        2, 0, 3, 0, 1, 0, 0, 0, 0, 0, 0x40, 0, 52, 0, 0, 0, 0, 0, 0, 0, 0, 0, 0, 0,
        52, 0, 32, 0, 1, 0, 0, 0, 0, 0, 0, 0,
        1, 0, 0, 0, 84, 0, 0, 0, 0, 0, 0x40, 0, 0, 0, 0, 0, 2, 0, 0, 0, 2, 0, 0, 0, 5, 0, 0, 0,
        1, 0, 0, 0, 0xEB, 0xFE] : List Byte).getD i 0
      size := 86 }
  stackAddress := 0x800000
  stackTop := 0x801000
  argv := [some fun i => if i = 0 then 0x61 else 0]

theorem spin_loadable : Loadable (roomOf booted 1) spin where
  size := by decide
  header := by decide +kernel
  segments := by decide +kernel
  entry := by decide +kernel
  stack := by decide +kernel
  distinct := by decide +kernel
  room := by decide +kernel

theorem booted_ready : KernelReady booted 1 := by
  have hspace : Space booted 1 := pagingInitialize_space ⟨by decide, by decide, by decide, rfl, rfl⟩
  refine ⟨rfl, rfl, hspace.ok, fun hp => ?_⟩
  have habsent : (booted.mem 1 scratchIndex).has pagePresent = false := by decide +kernel
  rw [habsent] at hp
  cases hp

/-- One load writes into the frame it fills while the other takes a frame. -/
theorem run_images_spin : ∃ w : World Bool,
    RunWhere step Undisturbed (start booted fun _ => spin.steps)
      [true, true, true, false, true, false, true] w ∧
    ∀ i, (w.load i).failed = false ∧
      ((w.load i).steps ≠ [] → Undisturbed w i → ∃ w', step w i = some w') ∧
      (∀ j w', (w.load i).steps.head?.any Step.mapsScratch = true → (w.load j).holding = true →
        step w i = some w' → (w'.load i).failed = true) ∧
      ((w.load i).steps = [] →
        ∃ dir, (w.load i).directory = some dir ∧ Shows w.machine dir spin.image) := by
  have hexec : (exec step (fun (w : World Bool) i => w.machine.used 100 = false ∧
      ((w.load i).steps.head?.any Step.mapsScratch = true →
        ∀ j, j ≠ i → (w.load j).holding = false)) (start booted fun _ => spin.steps)
      [true, true, true, false, true, false, true]).isSome = true := by
    decide +kernel
  obtain ⟨w, hw⟩ := Option.isSome_iff_exists.mp hexec
  have hrun : RunWhere step Undisturbed (start booted fun _ => spin.steps)
      [true, true, true, false, true, false, true] w :=
    (run_of_exec hw).mono fun _ _ hok => ⟨freeFrames_pos (by decide) hok.1, hok.2⟩
  exact ⟨w, hrun, run_images booted_ready (fun _ => spin_loadable) hrun⟩

/-- With plenty of memory, the load that comes second to the scratch page fails. -/
theorem not_run_images : ¬ ∀ (m0 : Machine) (k : Nat) (program : Bool → Program) (is : List Bool)
    (w : World Bool), KernelReady m0 k → (∀ i, Loadable (roomOf m0 k) (program i)) →
    RunWhere step (fun w _ => 0 < freeFrames w.machine.used) (start m0 fun i => (program i).steps) is w →
    ∀ i, (w.load i).failed = false := by
  intro h
  have hexec : (exec step (fun (w : World Bool) _ => w.machine.used 100 = false)
      (start booted fun _ => spin.steps) [true, true, true, false, false, false]).any
        (fun w => (w.load false).failed) = true := by
    decide +kernel
  obtain ⟨w, hw, hfailed⟩ := (Option.any_eq_true _ _).mp hexec
  have hrun : RunWhere step (fun w _ => 0 < freeFrames w.machine.used)
      (start booted fun _ => spin.steps) [true, true, true, false, false, false] w :=
    (run_of_exec hw).mono fun _ _ hok => freeFrames_pos (by decide) hok
  rw [h booted 1 (fun _ => spin) _ w booted_ready (fun _ => spin_loadable) hrun false] at hfailed
  cases hfailed

end MeatySkeleton.Elf
