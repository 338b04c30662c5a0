import MeatySkeleton.Device.MouseCursor
import MeatySkeleton.Lib.Run

/-!
# The cursor over the picture

What the writers have written is kept in two places: in the words saved under a visible cursor
and in the pixels around them. A cursor is visible only while no update is in progress, and the
pixels are written only while one is, so the saved words do not become stale.
-/

namespace MeatySkeleton.Device

open Option Lib

namespace Overlay

variable {o : Overlay} {written : Screen}

/-- The pixel is in the block that is saved. -/
def InBacking (o : Overlay) (px py : Nat) : Prop :=
  o.cursor.backingX ≤ px ∧ px < o.cursor.backingX + o.cursor.backingWidth ∧
  o.cursor.backingY ≤ py ∧ py < o.cursor.backingY + o.cursor.backingHeight

/-- The words under the cursor are saved, and the others are in the picture. -/
structure Saved (o : Overlay) (written : Screen) : Prop where
  base : o.cursor.backingBase.isSome
  backing : ∀ row < o.cursor.backingHeight, ∀ column < o.cursor.backingWidth,
    o.cursor.backing row column = written (o.cursor.backingX + column) (o.cursor.backingY + row)
  around : ∀ px py, ¬o.InBacking px py → o.screen px py = written px py

/-- What the writers have written is in the picture, or saved under the cursor. -/
def Holds (o : Overlay) (written : Screen) : Prop :=
  if o.cursor.visible then o.Saved written else o.screen = written

/-- It does not matter how many updates are in progress. -/
theorem Holds.recount (h : o.Holds written) (updates : Nat) :
    Holds { o with cursor := { o.cursor with framebufferUpdates := updates } } written := by
  unfold Holds at *
  dsimp only at *
  split at h
  next hvisible =>
    rw [if_pos hvisible]
    exact ⟨h.base, h.backing, h.around⟩
  next hvisible =>
    rw [if_neg hvisible]
    exact h

/-- Without the cursor the picture is what the writers have written. -/
theorem restore_eq (h : o.Holds written) : o.restore =
    { o with screen := written, cursor := { o.cursor with visible := false } } := by
  unfold Holds at h
  unfold restore
  split at h
  next hvisible =>
    obtain ⟨base, hbase⟩ := isSome_iff_exists.mp h.base
    rw [hvisible, hbase, if_neg (by decide), if_neg (by exact Bool.false_ne_true)]
    congr 1
    · funext px py
      rw [Framebuffer.paint_block]
      split
      next hin =>
        obtain ⟨hx, hx', hy, hy'⟩ := hin
        rw [h.backing _ (by omega) _ (by omega), Nat.add_sub_cancel' hx, Nat.add_sub_cancel' hy]
      next hout => exact h.around px py hout
  next hvisible =>
    rw [Bool.not_eq_true] at hvisible
    rw [hvisible, ← h]
    show o = _
    rw [← hvisible]

theorem capture_saved (h : o.screen = written) (hbase : o.capture.cursor.backingBase.isSome) :
    o.capture.Saved written ∧ o.capture.cursor.backingX = o.cursor.x ∧
      o.capture.cursor.backingY = o.cursor.y := by
  subst h
  unfold capture at hbase ⊢
  dsimp only at hbase ⊢
  split at hbase
  next => exact nomatch hbase
  next hgeometry =>
    rw [if_neg hgeometry]
    split at hbase
    next => exact nomatch hbase
    next hinside =>
      rw [if_neg hinside]
      exact ⟨⟨rfl, fun _ _ _ _ => rfl, fun _ _ _ => rfl⟩, rfl, rfl⟩

/-- A copy of the words, and nothing else, is what a capture changes. -/
structure Kept (o o' : Overlay) : Prop where
  fb : o'.fb = o.fb
  initialized : o'.cursor.initialized = o.cursor.initialized
  updates : o'.cursor.framebufferUpdates = o.cursor.framebufferUpdates
  x : o'.cursor.x = o.cursor.x
  y : o'.cursor.y = o.cursor.y

theorem Kept.refl (o : Overlay) : Kept o o := ⟨rfl, rfl, rfl, rfl, rfl⟩

theorem capture_kept (o : Overlay) : Kept o o.capture ∧ o.capture.screen = o.screen ∧
    o.capture.cursor.visible = o.cursor.visible := by
  unfold capture
  dsimp only
  split
  · exact ⟨⟨rfl, rfl, rfl, rfl, rfl⟩, rfl, rfl⟩
  · split
    · exact ⟨⟨rfl, rfl, rfl, rfl, rfl⟩, rfl, rfl⟩
    · exact ⟨⟨rfl, rfl, rfl, rfl, rfl⟩, rfl, rfl⟩

/-- The cursor is drawn over saved pixels only. -/
theorem shapeWrites_inside {p : PixelWrite} (hx : o.cursor.backingX = o.cursor.x)
    (hy : o.cursor.backingY = o.cursor.y) (hp : p ∈ o.shapeWrites) : o.InBacking p.x p.y := by
  obtain ⟨row, hrow, hp⟩ := List.mem_flatMap.mp hp
  obtain ⟨column, hcolumn, hp⟩ := List.mem_flatMap.mp hp
  rw [List.mem_range] at hrow hcolumn
  dsimp only at hp
  split at hp
  next => exact absurd hp List.not_mem_nil
  next =>
    unfold Framebuffer.putPixel at hp
    split at hp
    next => exact absurd hp List.not_mem_nil
    next =>
      split at hp
      next => exact absurd hp List.not_mem_nil
      next =>
        obtain rfl := List.mem_singleton.mp hp
        unfold InBacking
        dsimp only
        omega

/-- Drawing saves the words first. -/
theorem draw_spec (h : o.screen = written) (hvisible : o.cursor.visible = false) :
    Kept o o.draw ∧ o.draw.Holds written ∧
      (o.draw.cursor.visible = true → o.cursor.framebufferUpdates = 0) := by
  have hstay : o.Holds written := by
    unfold Holds
    rw [hvisible]
    exact h
  have hnot : o.cursor.visible = true → o.cursor.framebufferUpdates = 0 :=
    fun hv => absurd (hvisible.symm.trans hv) nofun
  unfold draw
  split
  next => exact ⟨.refl o, hstay, hnot⟩
  next =>
    split
    next => exact ⟨.refl o, hstay, hnot⟩
    next hupdates =>
      rw [ne_eq, not_not] at hupdates
      split
      next => exact ⟨.refl o, hstay, hnot⟩
      next =>
        split
        next => exact ⟨.refl o, hstay, hnot⟩
        next =>
          obtain ⟨hkept, hscreen, hsame⟩ := capture_kept o
          dsimp only
          split
          next =>
            refine ⟨hkept, ?_, fun _ => hupdates⟩
            unfold Holds
            rw [hsame, hvisible]
            exact hscreen.trans h
          next hbase =>
            rw [isNone_iff_eq_none, ← ne_eq, ne_none_iff_isSome] at hbase
            obtain ⟨hsaved, hx, hy⟩ := capture_saved h hbase
            refine ⟨⟨hkept.fb, hkept.initialized, hkept.updates, hkept.x, hkept.y⟩, ?_,
              fun _ => hupdates⟩
            refine ⟨hsaved.base, hsaved.backing, fun px py hout => ?_⟩
            refine Eq.trans ?_ (hsaved.around px py hout)
            refine Screen.paint_unwritten fun p hp hat => hout ?_
            have hin := shapeWrites_inside (hx.trans hkept.x.symm) (hy.trans hkept.y.symm) hp
            rwa [hat.1, hat.2] at hin

/-- During an update the picture is what the writers have written. -/
theorem beginFramebufferUpdate_spec (h : o.Holds written) :
    o.beginFramebufferUpdate.fb = o.fb ∧ o.beginFramebufferUpdate.screen = written ∧
    o.beginFramebufferUpdate.cursor.visible = false := by
  unfold beginFramebufferUpdate
  dsimp only
  split
  next =>
    rw [restore_eq (h.recount _)]
    exact ⟨rfl, rfl, rfl⟩
  next hvisible =>
    unfold Holds at h
    rw [if_neg hvisible] at h
    exact ⟨rfl, h, (Bool.not_eq_true _).mp hvisible⟩

/-- The cursor is drawn again over what was written, unless another update goes on. -/
theorem endFramebufferUpdate_spec (hscreen : o.screen = written)
    (hvisible : o.cursor.visible = false) :
    o.endFramebufferUpdate.fb = o.fb ∧ o.endFramebufferUpdate.Holds written := by
  have hended : ∀ o' : Overlay, o'.fb = o.fb → o'.screen = written → o'.cursor.visible = false →
      (if o'.cursor.initialized && o'.cursor.framebufferUpdates == 0 && !o'.cursor.visible then o'.draw
        else o').fb = o.fb ∧
      (if o'.cursor.initialized && o'.cursor.framebufferUpdates == 0 && !o'.cursor.visible then o'.draw
        else o').Holds written := by
    intro o' hfb hscreen' hvisible'
    split
    next =>
      obtain ⟨hkept, hholds, -⟩ := draw_spec hscreen' hvisible'
      exact ⟨hkept.fb.trans hfb, hholds⟩
    next =>
      refine ⟨hfb, ?_⟩
      unfold Holds
      rw [hvisible']
      exact hscreen'
  unfold endFramebufferUpdate
  dsimp only
  split
  next => exact hended _ rfl hscreen hvisible
  next => exact hended _ rfl hscreen hvisible

end Overlay

/-! ## Runs -/

/-- The overlay, the number of updates begun and not ended, and the picture as it was written. -/
structure Shared where
  overlay : Overlay
  inProgress : Nat
  written : Screen

namespace Shared

inductive Op
  | beginUpdate
  | endUpdate
  | move (dx dy : Int)
  | write (p : PixelWrite)

/-- One call, or one write to a pixel. -/
def step (s : Shared) : Op → Option Shared
  | .beginUpdate => some { s with
      overlay := s.overlay.beginFramebufferUpdate, inProgress := s.inProgress + 1 }
  | .endUpdate => some { s with
      overlay := s.overlay.endFramebufferUpdate, inProgress := s.inProgress - 1 }
  | .move dx dy => some { s with overlay := s.overlay.applyMovement dx dy }
  | .write p => some { s with
      overlay := { s.overlay with screen := s.overlay.screen.write p }
      written := s.written.write p }

/-- Updates are ended after they have begun, and the picture is written to during one. -/
def Ordered (s : Shared) : Op → Prop
  | .endUpdate => 0 < s.inProgress
  | .write _ => 0 < s.inProgress
  | _ => True

/-- The cursor was initialized on a picture. -/
structure Start (s : Shared) : Prop where
  initialized : ∃ o : Overlay, o.cursor = MouseCursor.zero ∧ o.initializeCursor true = (true, s.overlay) ∧
    s.written = o.screen
  inProgress : s.inProgress = 0

structure Inv (s : Shared) : Prop where
  counted : s.overlay.cursor.framebufferUpdates = s.inProgress
  hidden : s.overlay.cursor.visible = true → s.inProgress = 0
  holds : s.overlay.Holds s.written
  inside : s.overlay.cursor.x < s.overlay.fb.width ∧ s.overlay.cursor.y < s.overlay.fb.height

variable {s s' s0 : Shared} {op : Op} {ops : List Op}

theorem Start.inv (h : s.Start) : s.Inv := by
  obtain ⟨o, hzero, hinit, hwritten⟩ := h.initialized
  unfold Overlay.initializeCursor at hinit
  rw [hzero, if_neg (by exact Bool.false_ne_true)] at hinit
  split at hinit
  next => exact nomatch hinit
  next =>
    split at hinit
    next => exact nomatch hinit
    next hsize =>
      have hoverlay := (Prod.mk.inj hinit).2
      obtain ⟨hkept, hholds, -⟩ := @Overlay.draw_spec
        { o with cursor := { MouseCursor.zero with
          x := o.fb.width / 2, y := o.fb.height / 2, initialized := true } }
        s.written hwritten.symm rfl
      have hupdates : s.overlay.cursor.framebufferUpdates = 0 := hoverlay ▸ hkept.updates
      have hx : s.overlay.cursor.x = o.fb.width / 2 := hoverlay ▸ hkept.x
      have hy : s.overlay.cursor.y = o.fb.height / 2 := hoverlay ▸ hkept.y
      have hfb : s.overlay.fb = o.fb := hoverlay ▸ hkept.fb
      refine ⟨hupdates.trans h.inProgress.symm, fun _ => h.inProgress, hoverlay ▸ hholds, ?_⟩
      rw [hfb, hx, hy]
      omega

/-- Moving and updating restore the picture first, and may draw the cursor after it. -/
theorem Inv.redraw {o : Overlay} (hscreen : o.screen = s.written)
    (hvisible : o.cursor.visible = false) (hupdates : o.cursor.framebufferUpdates = s.inProgress)
    (hinside : o.cursor.x < o.fb.width ∧ o.cursor.y < o.fb.height) :
    Inv { s with overlay := o.draw } := by
  obtain ⟨hkept, hholds, hdrawn⟩ := Overlay.draw_spec hscreen hvisible
  refine ⟨hkept.updates.trans hupdates, fun hv => hupdates.symm.trans (hdrawn hv), hholds, ?_⟩
  dsimp only
  rw [hkept.fb, hkept.x, hkept.y]
  exact hinside

theorem Inv.move (h : s.Inv) (dx dy : Int) :
    Inv { s with overlay := s.overlay.applyMovement dx dy } := by
  unfold Overlay.applyMovement
  dsimp only
  split
  next => exact h
  next hsize =>
    rw [Overlay.restore_eq h.holds]
    have hinside : (min (max (↑s.overlay.cursor.x + dx) 0) (↑s.overlay.fb.width - 1)).toNat <
          s.overlay.fb.width ∧
        (min (max (↑s.overlay.cursor.y + dy) 0) (↑s.overlay.fb.height - 1)).toNat <
          s.overlay.fb.height := by
      omega
    split
    next hidle => exact Inv.redraw rfl rfl h.counted hinside
    next => exact ⟨h.counted, nofun, rfl, hinside⟩

theorem Inv.beginUpdate (h : s.Inv) : Inv { s with
    overlay := s.overlay.beginFramebufferUpdate, inProgress := s.inProgress + 1 } := by
  unfold Overlay.beginFramebufferUpdate
  dsimp only
  split
  next hvisible =>
    rw [Overlay.restore_eq (h.holds.recount _)]
    exact ⟨congrArg (· + 1) h.counted, nofun, rfl, h.inside⟩
  next hvisible =>
    exact ⟨congrArg (· + 1) h.counted, fun hv => absurd hv hvisible, h.holds.recount _, h.inside⟩

theorem Inv.endUpdate (h : s.Inv) (hpositive : 0 < s.inProgress) : Inv { s with
    overlay := s.overlay.endFramebufferUpdate, inProgress := s.inProgress - 1 } := by
  have hvisible : s.overlay.cursor.visible = false := by
    rw [← Bool.not_eq_true]
    exact fun hv => absurd (h.hidden hv) (Nat.ne_of_gt hpositive)
  have hscreen : s.overlay.screen = s.written := by
    have hholds := h.holds
    unfold Overlay.Holds at hholds
    rwa [hvisible] at hholds
  unfold Overlay.endFramebufferUpdate
  have hpositive' : s.overlay.cursor.framebufferUpdates ≠ 0 :=
    h.counted ▸ Nat.ne_of_gt hpositive
  rw [if_pos hpositive']
  have hcounted := congrArg (· - 1) h.counted
  have hended : Inv { s with
      overlay := { s.overlay with cursor := { s.overlay.cursor with
        framebufferUpdates := s.overlay.cursor.framebufferUpdates - 1 } }
      inProgress := s.inProgress - 1 } :=
    ⟨hcounted, fun hv => absurd (hvisible.symm.trans hv) nofun, h.holds.recount _, h.inside⟩
  dsimp only
  split
  next =>
    exact Inv.redraw (s := { s with inProgress := s.inProgress - 1 }) hscreen hvisible hcounted
      h.inside
  next => exact hended

theorem Inv.write (h : s.Inv) (hpositive : 0 < s.inProgress) (p : PixelWrite) : Inv { s with
    overlay := { s.overlay with screen := s.overlay.screen.write p }
    written := s.written.write p } := by
  have hvisible : s.overlay.cursor.visible = false := by
    rw [← Bool.not_eq_true]
    exact fun hv => absurd (h.hidden hv) (Nat.ne_of_gt hpositive)
  refine ⟨h.counted, h.hidden, ?_, h.inside⟩
  have hholds := h.holds
  unfold Overlay.Holds at hholds ⊢
  rw [hvisible] at hholds
  show if s.overlay.cursor.visible then _ else _
  rw [hvisible]
  exact congrArg (fun screen => screen.write p) hholds

theorem Inv.step (h : s.Inv) (hok : s.Ordered op) (hs : s.step op = some s') : s'.Inv := by
  cases op with
  | beginUpdate =>
    obtain rfl := some.inj hs
    exact h.beginUpdate
  | endUpdate =>
    obtain rfl := some.inj hs
    exact h.endUpdate hok
  | move dx dy =>
    obtain rfl := some.inj hs
    exact h.move dx dy
  | write p =>
    obtain rfl := some.inj hs
    exact h.write hok p

/-- In every run a visible cursor has saved what was written under it and no update is in
progress; without the cursor the picture is what was written, and the hotspot is in it. -/
theorem run_overlay (h : s0.Start) (hr : RunWhere step Ordered s0 ops s) :
    (s.overlay.cursor.visible = true → s.inProgress = 0 ∧
      ∀ row < s.overlay.cursor.backingHeight, ∀ column < s.overlay.cursor.backingWidth,
        s.overlay.cursor.backing row column =
          s.written (s.overlay.cursor.backingX + column) (s.overlay.cursor.backingY + row)) ∧
    s.overlay.restore.screen = s.written ∧
    s.overlay.cursor.x < s.overlay.fb.width ∧ s.overlay.cursor.y < s.overlay.fb.height := by
  have hinv : s.Inv := hr.invariant h.inv fun t op u ht hok hu => ht.step hok hu
  refine ⟨fun hvisible => ⟨hinv.hidden hvisible, ?_⟩, ?_, hinv.inside⟩
  · have hholds := hinv.holds
    unfold Overlay.Holds at hholds
    rw [hvisible] at hholds
    exact hholds.backing
  · rw [Overlay.restore_eq hinv.holds]

/-- A cursor in the middle of 16 by 32 pixels. -/
def smallShared : Shared :=
  let fb : Framebuffer :=
    ⟨true, 0xF0000000, 0xFD000000, 0xFD000000, 0, 64, 16, 32, 32, 16, 8, 0, 1, 2048⟩
  ⟨(Overlay.initializeCursor ⟨fb, .zero, fun _ _ => 7⟩ true).2, 0, fun _ _ => 7⟩

/-- The cursor moves to an edge while a pixel under it is written in the second of two nested
updates, and is drawn again when both have ended. -/
theorem run_overlay_nested : ∃ s, (do
    let s ← step smallShared .beginUpdate
    let s ← step s .beginUpdate
    let s ← step s (.write ⟨15, 16, 9⟩)
    let s ← step s (.move 100 0)
    let s ← step s .endUpdate
    step s .endUpdate) = some s ∧ s.overlay.cursor.visible = true ∧
      s.overlay.cursor.backingWidth = 1 ∧ s.overlay.screen 15 16 = 0 ∧
      s.written 15 16 = 9 ∧ s.overlay.restore.screen = s.written := by
  have hstart : Start smallShared := 
    ⟨⟨⟨smallShared.overlay.fb, .zero, fun _ _ => 7⟩, rfl, rfl, rfl⟩, rfl⟩
  refine ⟨_, rfl, by decide, by decide, by decide, rfl, ?_⟩
  refine (@run_overlay _ _ [.beginUpdate, .beginUpdate, .write ⟨15, 16, 9⟩, .move 100 0,
    .endUpdate, .endUpdate] hstart ?_).2.1
  exact .cons trivial rfl (.cons trivial rfl (.cons (Nat.succ_pos 1) rfl (.cons trivial rfl
    (.cons (Nat.succ_pos 1) rfl (.cons (Nat.succ_pos 0) rfl .nil)))))

end Shared

end MeatySkeleton.Device
