import MeatySkeleton.Gui.Stacking
import MeatySkeleton.Gui.WindowFocus

/-!
# Terminals are shown without drawing the scene again

`Scene.picture` is what `gui_desktop_render` makes of a pixel: the desktop, then the windows from
the bottom to the top. It does not depend on what was on the screen, so a scene is up to date
(`Scene.Current`) when each pixel is its picture. Compositing the window of a terminal alone
gives this picture where no other window has a pixel above it; the pixels of a terminal are
opaque, so nothing below it matters. Where a window above has a pixel, it is painted over.
-/

namespace MeatySkeleton.Gui

open Function List Device Lib

namespace Scene

variable {W : Type} [DecidableEq W] {fb : Framebuffer} {s s' s0 : Scene W} {x y : Int}

/-- The windows of the scene, from the bottom to the top. -/
def windows (s : Scene W) : List Window := s.normal ++ (s.shell.topbar ++ s.shell.taskbar)

/-- What `gui_desktop_render` makes of a pixel. -/
def picture (s : Scene W) (x y : Int) (color : Color) : Color :=
  overAll s.windows x y (inked (inks (s.desktop.background s.compositor.screenRect) x y) color)

/-- What every scene is: terminals have live normal windows, and drawing cannot get stuck. -/
structure Valid (s : Scene W) : Prop where
  desktop : s.desktop.initialized = true
  ready : s.compositor.Ready
  registry : s.registry.Listed
  live : ∀ i, (s.sessions i).used = true → s.registry.LiveNormal (s.sessions i).window
  text : ∀ i, (s.sessions i).text.Sound

/-- Drawing the scene again would change nothing. -/
def Current (s : Scene W) (fb : Framebuffer) : Prop :=
  ∃ s', s.desktopRender fb = some s' ∧ ∀ x y, s.compositor.screenRect.Has x y →
    s'.compositor.backbuffer.pixels x y = s.compositor.backbuffer.pixels x y

/-- The windows above this one. -/
def above (s : Scene W) (window : W) : List Window :=
  (s.registry.normalWindows.drop (s.registry.normalWindows.idxOf window + 1)).map
      s.registry.windows ++
    (s.shell.topbar ++ s.shell.taskbar)

/-- If the window of the terminal is visible, the font has the glyphs of its text, and no window
above has a pixel over it. -/
def Unhindered (s : Scene W) (session : Fin 4) (font : Option Font) : Prop :=
  ∀ surface font', (s.sessions session).used = true → font = some font' →
    (s.registry.windows (s.sessions session).window).surface = some surface →
    (s.registry.windows (s.sessions session).window).visible = true →
      (s.sessions session).text.Drawable font' ∧
        ∀ x y, s.compositor.screenRect.Has x y →
          (s.registry.windows (s.sessions session).window).bounds.Has x y →
            ∀ window ∈ s.above (s.sessions session).window, ¬window.Covers x y

/-- A terminal that is presented is unhindered. -/
def Uncovered (s : Scene W) : Op W → Prop
  | .write session buffer font => buffer ≠ [] →
      ∀ text, (s.sessions session).text.write buffer = some text →
        (s.setText session text).Unhindered session font
  | .key key font => ∀ session, s.activeSession = some session →
      (key.scroll (s.sessions session).text).scrollOffset ≠ (s.sessions session).text.scrollOffset →
        (s.setText session (key.scroll (s.sessions session).text)).Unhindered session font
  | _ => True

omit [DecidableEq W] in
theorem picture_settled (h : s.compositor.screenRect.Has x y) (color color' : Color) :
    s.picture x y color = s.picture x y color' := by
  obtain ⟨c, hc⟩ := fillVerticalGradient_put s.desktop.gradientTop s.desktop.gradientBottom h h
  unfold picture Desktop.background
  rw [inks_append, inked_append, inked_append, inked_put hc color color']

/-! ## Drawing the scene again -/

/-- Only the screen has changed, and each pixel is `f` of what it was. -/
structure Repainted (s s' : Scene W) (f : Int → Int → Color → Color) : Prop where
  registry : s'.registry = s.registry
  sessions : s'.sessions = s.sessions
  desktop : s'.desktop = s.desktop
  shell : s'.shell = s.shell
  became : s.compositor.Became s'.compositor f

variable {f : Int → Int → Color → Color}

omit [DecidableEq W] in
theorem present_repainted {c : Compositor} (h : s.compositor.Became c f) :
    s.Repainted (s.present fb c) f := by
  refine ⟨rfl, rfl, rfl, rfl, ?_⟩
  have hpresent : (s.present fb c).compositor = { c with fullDamage := false, damage := [] } := by
    show (c.present fb s.screen).1 = _
    unfold Compositor.present
    rw [h.ready.initialized]
    rfl
  rw [hpresent]
  exact ⟨⟨h.ready.initialized, .empty rfl, h.ready.width, h.ready.height⟩, h.screen, h.pixels⟩

omit [DecidableEq W] in
theorem desktopRender_repainted (h : s.Valid) (fb : Framebuffer) :
    ∃ s', s.desktopRender fb = some s' ∧ s.Repainted s' s.picture := by
  have hbackground :=
    Compositor.draw_became h.ready (s.desktop.background s.compositor.screenRect)
  obtain ⟨c1, hc1, h1⟩ := Compositor.compositeAll_became hbackground.ready s.normal
  obtain ⟨c2, hc2, h2⟩ := Compositor.compositeAll_became h1.ready s.shell.topbar
  obtain ⟨c3, hc3, h3⟩ := Compositor.compositeAll_became h2.ready s.shell.taskbar
  have hall : c3.damageAll = { c3 with fullDamage := true, damage := [] } :=
    if_neg (by rw [h3.ready.initialized]; exact Bool.false_ne_true)
  have hbecame : s.compositor.Became c3.damageAll s.picture := by
    have hthree := ((hbackground.trans h1).trans h2).trans h3
    rw [hall]
    refine ⟨⟨h3.ready.initialized, .empty rfl, h3.ready.width, h3.ready.height⟩, hthree.screen,
      fun x y hscreen => (hthree.pixels x y hscreen).trans ?_⟩
    unfold picture windows
    rw [overAll_append, overAll_append]
  refine ⟨s.present fb c3.damageAll, ?_, present_repainted hbecame⟩
  unfold desktopRender
  rw [h.desktop, h.ready.initialized]
  show (Compositor.compositeAll _ _).bind _ = _
  rw [hc1]
  show (Compositor.compositeAll _ _).bind _ = _
  rw [hc2]
  show (Compositor.compositeAll _ _).bind _ = _
  rw [hc3]
  rfl

omit [DecidableEq W] in
theorem Repainted.valid (h : s.Valid) (hs : s.Repainted s' f) : s'.Valid where
  desktop := hs.desktop ▸ h.desktop
  ready := hs.became.ready
  registry := hs.registry ▸ h.registry
  live := by
    rw [hs.registry, hs.sessions]
    exact h.live
  text := hs.sessions ▸ h.text

omit [DecidableEq W] in
theorem Repainted.picture (hs : s.Repainted s' f) : s'.picture = s.picture := by
  unfold Scene.picture windows normal
  rw [hs.registry, hs.shell, hs.desktop, hs.became.screen]

omit [DecidableEq W] in
/-- A scene is up to date when each pixel is its picture. -/
theorem current_iff (h : s.Valid) (fb : Framebuffer) : s.Current fb ↔
    ∀ x y, s.compositor.screenRect.Has x y → ∀ color,
      s.compositor.backbuffer.pixels x y = s.picture x y color := by
  obtain ⟨s', hs', hpainted⟩ := desktopRender_repainted h fb
  constructor
  · rintro ⟨t, ht, hsame⟩ x y hscreen color
    obtain rfl := Option.some.inj (hs'.symm.trans ht)
    rw [← hsame x y hscreen, hpainted.became.pixels x y hscreen]
    exact picture_settled hscreen ..
  · intro hpicture
    refine ⟨s', hs', fun x y hscreen => ?_⟩
    rw [hpainted.became.pixels x y hscreen]
    exact (hpicture x y hscreen _).symm

omit [DecidableEq W] in
theorem Repainted.current (h : s.Valid) (hs : s.Repainted s' s.picture) (fb : Framebuffer) :
    s'.Current fb := by
  rw [current_iff (hs.valid h)]
  intro x y hscreen color
  rw [hs.became.screen] at hscreen
  rw [hs.became.pixels x y hscreen, hs.picture]
  exact picture_settled hscreen ..

/-! ## Presenting a terminal -/

variable {window : W}

theorem liveNormal_setSurface (surface : Surface)
    (h : (s.registry.windows window).surface ≠ none) (v : W) :
    (s.setSurface window surface).registry.LiveNormal v ↔ s.registry.LiveNormal v := by
  by_cases hv : v = window
  · subst hv
    unfold setSurface Registry.LiveNormal
    dsimp only
    rw [Registry.put_self]
    exact ⟨fun hlive => ⟨h, hlive.2⟩, fun hlive => ⟨nofun, hlive.2⟩⟩
  · exact Registry.liveNormal_put_ne _ hv

theorem visible_setSurface (window : W) (surface : Surface) (v : W) :
    ((s.setSurface window surface).registry.windows v).visible =
      (s.registry.windows v).visible := by
  by_cases hv : v = window
  · subst hv
    unfold setSurface
    dsimp only
    rw [Registry.put_self]
  · exact congrArg Window.visible (Registry.put_ne _ _ hv)

theorem Valid.setSurface (h : s.Valid) (surface : Surface)
    (hwindow : (s.registry.windows window).surface ≠ none) :
    (s.setSurface window surface).Valid :=
  { h with
    registry := by
      refine ⟨⟨fun v => ?_, h.registry.nodup, h.registry.count⟩, fun v hv => ?_⟩
      · exact (h.registry.entries v).trans (liveNormal_setSurface surface hwindow v).symm
      · obtain ⟨hlive, hvisible⟩ := h.registry.active v hv
        exact ⟨(liveNormal_setSurface surface hwindow v).mpr hlive,
          (visible_setSurface window surface v).trans hvisible⟩
    live := fun i hi => (liveNormal_setSurface surface hwindow _).mpr (h.live i hi) }

omit [DecidableEq W] in
theorem Valid.setText (h : s.Valid) (session : Fin 4) {text : Session} (htext : text.Sound) :
    (s.setText session text).Valid where
  desktop := h.desktop
  ready := h.ready
  registry := h.registry
  live := by
    intro i hi
    unfold Scene.setText at hi ⊢
    dsimp only at hi ⊢
    by_cases he : i = session
    · subst he
      rw [update_self] at hi ⊢
      exact h.live i hi
    · rw [update_of_ne he] at hi ⊢
      exact h.live i hi
  text := by
    intro i
    unfold Scene.setText
    dsimp only
    by_cases he : i = session
    · subst he
      rw [update_self]
      exact htext
    · rw [update_of_ne he]
      exact h.text i

/-- The windows below a normal window, itself, and those above it. -/
theorem windows_split (h : s.Valid) (hw : window ∈ s.registry.normalWindows) :
    ∃ below : List Window, s.windows = below ++ s.registry.windows window :: s.above window ∧
      ∀ surface, (s.setSurface window surface).windows = below ++
        { s.registry.windows window with surface := some surface } :: s.above window := by
  obtain ⟨l, l', hl⟩ : ∃ l l', l = s.registry.normalWindows.take
      (s.registry.normalWindows.idxOf window) ∧ l' = s.registry.normalWindows.drop
      (s.registry.normalWindows.idxOf window + 1) := ⟨_, _, rfl, rfl⟩
  have hlt := idxOf_lt_length_of_mem hw
  have hsplit : s.registry.normalWindows = l ++ window :: l' := by
    rw [hl.1, hl.2]
    conv_lhs => rw [← take_append_drop (s.registry.normalWindows.idxOf window)
      s.registry.normalWindows, drop_eq_getElem_cons hlt, getElem_idxOf hlt]
  have hnodup := hsplit ▸ h.registry.nodup
  have hfirst : window ∉ l := fun hmem =>
    (nodup_append.mp hnodup).2.2 window hmem window mem_cons_self rfl
  have hlast : window ∉ l' := (nodup_cons.mp (nodup_append.mp hnodup).2.1).1
  have hkept (surface : Surface) (v : W) (hv : v ≠ window) :
      (s.setSurface window surface).registry.windows v = s.registry.windows v :=
    Registry.put_ne _ _ hv
  refine ⟨l.map s.registry.windows, ?_, fun surface => ?_⟩
  · unfold windows normal above
    rw [← hl.2, hsplit, map_append, map_cons, append_assoc, cons_append]
  · have hself : (s.setSurface window surface).registry.windows window =
        { s.registry.windows window with surface := some surface } := Registry.put_self ..
    unfold windows normal above
    rw [← hl.2, show (s.setSurface window surface).registry.normalWindows = _ from hsplit,
      map_append, map_cons, hself, append_assoc, cons_append]
    congr 1
    · refine map_congr_left fun v hv => hkept surface v fun he => hfirst (he ▸ hv)
    · congr 2
      refine map_congr_left fun v hv => hkept surface v fun he => hlast (he ▸ hv)

/-- Compositing a window whose surface has changed brings the screen up to date, if its pixels are
opaque and not covered. -/
theorem over_current (h : s.Valid) (hw : window ∈ s.registry.normalWindows)
    {surface surface' : Surface} (hsurface : (s.registry.windows window).surface = some surface)
    (hrect : surface'.rect = surface.rect) (hfull : surface'.Solid) (hcurrent : s.Current fb)
    (hfree : (s.registry.windows window).visible = true → ∀ x y, s.compositor.screenRect.Has x y →
      (s.registry.windows window).bounds.Has x y → ∀ v ∈ s.above window, ¬v.Covers x y)
    (hscreen : s.compositor.screenRect.Has x y) (color : Color) :
    ((s.setSurface window surface').registry.windows window).laidOver x y
        (s.compositor.backbuffer.pixels x y) = (s.setSurface window surface').picture x y color := by
  obtain ⟨below, hbefore, hafter⟩ := windows_split h hw
  have hself : (s.setSurface window surface').registry.windows window =
      { s.registry.windows window with surface := some surface' } := Registry.put_self ..
  obtain ⟨v, hv⟩ : ∃ v, v = { s.registry.windows window with surface := some surface' } := ⟨_, rfl⟩
  have hbounds : v.bounds = (s.registry.windows window).bounds :=
    hv ▸ Window.bounds_withSurface hsurface hrect
  have hvisible : v.visible = (s.registry.windows window).visible := hv ▸ rfl
  have hdesktop : (s.setSurface window surface').desktop = s.desktop := rfl
  have hcompositor : (s.setSurface window surface').compositor = s.compositor := rfl
  rw [(current_iff h fb).mp hcurrent x y hscreen color]
  unfold picture
  rw [hself, hafter surface', hdesktop, hcompositor, hbefore, ← hv, overAll_append, overAll_append,
    overAll_cons, overAll_cons]
  by_cases hhas : v.visible = true ∧ v.bounds.Has x y
  · have hshown := Window.over_solid (hv ▸ rfl : v.surface = some surface') hfull hhas.1 hhas.2
    rw [hshown, hshown, overAll_of_not_covers]
    exact hfree (hvisible ▸ hhas.1) x y hscreen (hbounds ▸ hhas.2)
  · have hold : ¬(s.registry.windows window).Covers x y := fun hcovers =>
      hhas ⟨hvisible ▸ hcovers.1, hbounds ▸ hcovers.2.1⟩
    have hnew : ¬v.Covers x y := fun hcovers => hhas ⟨hcovers.1, hcovers.2.1⟩
    rw [Window.over_of_not_covers hnew, Window.over_of_not_covers hold,
      Window.over_of_not_covers hnew]

/-- A terminal whose text can be drawn is rendered and its window is composited. -/
theorem terminalPresent_repainted (h : s.Valid) (fb : Framebuffer) {session : Fin 4} {font : Font}
    {surface : Surface} (hused : (s.sessions session).used = true)
    (hsurface : (s.registry.windows (s.sessions session).window).surface = some surface)
    (hcomplete : (terminalRender font surface (s.sessions session).text).1 = true) :
    let t := s.rendered session (terminalRender font surface (s.sessions session).text)
    ∃ s', s.terminalPresent fb session (some font) = some s' ∧ t.Valid ∧
      t.Repainted s' (t.registry.windows (s.sessions session).window).laidOver := by
  intro t
  have hvalid : t.Valid :=
    (h.setSurface _ (hsurface ▸ nofun)).setText session (h.text session).render
  obtain ⟨c, hc, hbecame⟩ := Compositor.composite_became hvalid.ready
    (t.registry.windows (s.sessions session).window)
  refine ⟨t.present fb c, ?_, hvalid, present_repainted hbecame⟩
  unfold terminalPresent
  dsimp only
  rw [hused, hsurface]
  dsimp only
  rw [hcomplete]
  show (Compositor.composite _ _).bind _ = _
  rw [hc]
  rfl

theorem terminalPresent_spec (h : s.Valid) (fb : Framebuffer) (session : Fin 4)
    (font : Option Font) : ∃ s', s.terminalPresent fb session font = some s' ∧ s'.Valid ∧
      (s.Current fb → s.Unhindered session font → s'.Current fb) := by
  by_cases hused : (s.sessions session).used = true
  case neg =>
    refine ⟨s, ?_, h, fun hcurrent _ => hcurrent⟩
    unfold terminalPresent
    rw [Bool.not_eq_true] at hused
    rw [hused]
    rfl
  obtain ⟨surface, hsurface⟩ := Option.ne_none_iff_exists'.mp (h.live session hused).1
  have hw := (h.registry.entries _).mpr (h.live session hused)
  cases font with
  | none =>
    refine ⟨s, ?_, h, fun hcurrent _ => hcurrent⟩
    unfold terminalPresent
    dsimp only
    rw [hused, hsurface]
    rfl
  | some font =>
    have hrect := @rect_terminalRender font surface (s.sessions session).text
    have hfull := @terminalRender_solid font surface (s.sessions session).text
    by_cases hcomplete : (terminalRender font surface (s.sessions session).text).1 = true
    · obtain ⟨s', hs', hvalid, hpainted⟩ :=
        terminalPresent_repainted h fb hused hsurface hcomplete
      refine ⟨s', hs', hpainted.valid hvalid, fun hcurrent hfree => ?_⟩
      refine (current_iff (hpainted.valid hvalid) fb).mpr fun x y hscreen color => ?_
      rw [hpainted.became.screen] at hscreen
      rw [hpainted.became.pixels x y hscreen, hpainted.picture]
      exact over_current h hw hsurface hrect hfull hcurrent
        (fun hvisible => (hfree surface font hused rfl hsurface hvisible).2) hscreen color
    · have hvalid : (s.rendered session
          (terminalRender font surface (s.sessions session).text)).Valid :=
        (h.setSurface _ (hsurface ▸ nofun)).setText session (h.text session).render
      refine ⟨_, ?_, hvalid, fun hcurrent hfree => ?_⟩
      · unfold terminalPresent
        rw [Bool.not_eq_true] at hcomplete
        dsimp only
        rw [hused, hsurface]
        dsimp only
        rw [hcomplete]
        rfl
      · -- the drawing of the text may only fail in a window that is not visible
        have hhidden : (s.registry.windows (s.sessions session).window).visible ≠ true :=
          fun hvisible => hcomplete ((hfree surface font hused rfl hsurface hvisible).1.render _)
        refine (current_iff hvalid fb).mpr fun x y hscreen color => ?_
        refine Eq.trans ?_ (over_current h hw hsurface hrect hfull hcurrent
          (fun hvisible => absurd hvisible hhidden) hscreen color)
        refine (Window.over_of_not_covers fun hcovers => hhidden ?_).symm
        exact (visible_setSurface ..).symm.trans hcovers.1

/-! ## Operations -/

omit [DecidableEq W] in
theorem Current.setText (h : s.Valid) (hcurrent : s.Current fb) (session : Fin 4) {text : Session}
    (htext : text.Sound) : (s.setText session text).Current fb := by
  rw [current_iff (h.setText session htext)]
  exact (current_iff h fb).mp hcurrent

omit [DecidableEq W] in
theorem Valid.refocused (h : s.Valid) {registry : Registry W}
    (hr : Registry.Refocused s.registry registry) : { s with registry }.Valid :=
  { h with
    registry := h.registry.refocused hr
    live := by
      intro i hi
      obtain rfl | ⟨w, l, -, -, -, rfl⟩ := hr
      · exact h.live i hi
      · exact h.live i hi }

omit [DecidableEq W] in
theorem refocus_spec (h : s.Valid) (fb : Framebuffer) {r : Bool × Registry W}
    (hr : Registry.Refocused s.registry r.2) (hunchanged : r.1 = false → r.2 = s.registry) :
    ∃ s', s.refocus fb r = some s' ∧ s'.Valid ∧ (s.Current fb → s'.Current fb) := by
  have hvalid := h.refocused hr
  unfold refocus
  split
  next =>
    obtain ⟨s', hs', hpainted⟩ := desktopRender_repainted hvalid fb
    exact ⟨s', hs', hpainted.valid hvalid, fun _ => hpainted.current hvalid fb⟩
  next hfalse =>
    rw [Bool.not_eq_true] at hfalse
    refine ⟨_, rfl, hvalid, fun hcurrent => ?_⟩
    rw [hunchanged hfalse]
    exact hcurrent

/-- An operation returns; the screen stays up to date if it presents no terminal that is covered. -/
theorem step_spec (h : s.Valid) (fb : Framebuffer) (op : Op W) :
    ∃ s', step fb s op = some s' ∧ s'.Valid ∧
      (s.Current fb → s.Uncovered op → s'.Current fb) := by
  cases op with
  | write session buffer font =>
    show ∃ s', s.sessionWrite fb session buffer font = some s' ∧ _
    unfold sessionWrite
    split
    next => exact ⟨s, rfl, h, fun hcurrent _ => hcurrent⟩
    next hbuffer =>
      obtain ⟨text, hwrite, htext⟩ := (h.text session).write buffer
      obtain ⟨s', hs', hvalid, hcurrent'⟩ :=
        terminalPresent_spec (h.setText session htext) fb session font
      refine ⟨s', ?_, hvalid, fun hcurrent hfree => ?_⟩
      · rw [hwrite]
        exact hs'
      · exact hcurrent' (hcurrent.setText h session htext) (hfree hbuffer text hwrite)
  | key key font =>
    show ∃ s', s.handleKeyboard fb key font = some s' ∧ _
    unfold handleKeyboard
    split
    next => exact ⟨s, rfl, h, fun hcurrent _ => hcurrent⟩
    next session hactive =>
      have htext := (h.text session).scroll key
      dsimp only
      split
      next hmoved =>
        obtain ⟨s', hs', hvalid, hcurrent'⟩ :=
          terminalPresent_spec (h.setText session htext) fb session font
        refine ⟨s', hs', hvalid, fun hcurrent hfree => ?_⟩
        exact hcurrent' (hcurrent.setText h session htext) (hfree session hactive hmoved)
      next => exact ⟨_, rfl, h.setText session htext, fun hcurrent _ => hcurrent.setText h session htext⟩
  | focusNext =>
    obtain ⟨s', hs', hvalid, hcurrent⟩ := refocus_spec h fb
      (Registry.focusCandidate_refocused _ _) Registry.focusCandidate_unchanged
    exact ⟨s', hs', hvalid, fun h _ => hcurrent h⟩
  | focusPrevious =>
    obtain ⟨s', hs', hvalid, hcurrent⟩ := refocus_spec h fb
      (Registry.focusCandidate_refocused _ _) Registry.focusCandidate_unchanged
    exact ⟨s', hs', hvalid, fun h _ => hcurrent h⟩
  | press x y =>
    obtain ⟨s', hs', hvalid, hcurrent⟩ := refocus_spec h fb
      (Registry.focusIndexLocked_refocused _ _) Registry.focusIndexLocked_unchanged
    exact ⟨s', hs', hvalid, fun h _ => hcurrent h⟩
  | launch window =>
    have hvalid := h.refocused (Registry.focus_refocused s.registry window)
    obtain ⟨s', hs', hpainted⟩ := desktopRender_repainted hvalid fb
    exact ⟨s', hs', hpainted.valid hvalid, fun _ _ => hpainted.current hvalid fb⟩

/-! ## Runs -/

variable {ops : List (Op W)}

/-- After the scene has been drawn, any sequence of output, scrolling and focus changes in which
only terminals that are not covered are presented leaves what drawing the scene again would
give, and no operation gets stuck. -/
theorem run_repainted (h : s0.Valid) (h0 : s0.desktopRender fb = some s)
    (hr : RunWhere (step fb) Uncovered s ops s') :
    s'.Current fb ∧ ∀ op, ∃ t, step fb s' op = some t := by
  have hinv : s'.Valid ∧ s'.Current fb := by
    refine hr.invariant (I := fun s => s.Valid ∧ s.Current fb) ?_ fun t op u ht hok hstep => ?_
    · obtain ⟨t, ht, hpainted⟩ := desktopRender_repainted h fb
      obtain rfl := Option.some.inj (h0.symm.trans ht)
      exact ⟨hpainted.valid h, hpainted.current h fb⟩
    · obtain ⟨u', hu', hvalid, hcurrent⟩ := step_spec ht.1 fb op
      obtain rfl := Option.some.inj (hstep.symm.trans hu')
      exact ⟨hvalid, hcurrent ht.2 hok⟩
  refine ⟨hinv.2, fun op => ?_⟩
  obtain ⟨t, ht, -⟩ := step_spec hinv.1 fb op
  exact ⟨t, ht⟩

/-! ## A terminal and another window -/

/-- A font whose glyphs have no pixels. -/
def blankFont : Font := ⟨fun _ => some ⟨12, 15⟩, fun _ _ => some ⟨0, 0, 0, 0, 8, none⟩⟩

theorem drawText_blank (x y : Int) (text : List UInt8) (color : Color) :
    drawText blankFont x y 15 text color = (true, []) := by
  have hloop : ∀ penX baselineY,
      drawTextFrom blankFont 15 x 15 8 color text penX baselineY = (true, []) := by
    induction text with
    | nil => exact fun _ _ => rfl
    | cons character text ih =>
      intro penX baselineY
      have hglyph (codepoint height : Nat) :
          blankFont.glyph codepoint height = some ⟨0, 0, 0, 0, 8, none⟩ := rfl
      unfold drawTextFrom
      simp only [hglyph, ih, blendGlyph, append_nil, ite_self]
  exact hloop x _

theorem terminalRender_blank (surface : Surface) (text : Session) :
    (terminalRender blankFont surface text).1 = true ∧
      (terminalRender blankFont surface text).2.1 = surface.draw (terminalFrame surface.rect) := by
  have htitle : terminalTitle blankFont = (true, []) := drawText_blank ..
  have hview (text : Session) : terminalView blankFont text = (true, []) := by
    unfold terminalView
    generalize List.range text.visibleCount = rows
    induction rows with
    | nil => rfl
    | cons row rows ih =>
      rw [filterMap_cons]
      split
      next => exact ih
      next texts htexts =>
        rw [Option.ite_none_left_eq_some, drawText_blank] at htexts
        obtain rfl := Option.some.inj htexts.2
        show ((drawAll _).1, [] ++ (drawAll _).2) = (true, [])
        rw [ih]
        rfl
  unfold terminalRender
  rw [htitle]
  dsimp only
  rw [hview, append_nil]
  exact ⟨rfl, rfl⟩

/-- A terminal, before it is rendered. -/
def terminalWindow : Window := ⟨120, 90, .normal, true, some ⟨700, 440, fun _ _ => 0⟩⟩

/-- A window of one colour. -/
def plainWindow : Window := ⟨180, 130, .normal, true, some ⟨400, 300, fun _ _ => 0xFF204060⟩⟩

theorem plainWindow_over (color : Color) : plainWindow.laidOver 200 200 color = 0xFF204060 :=
  have halpha : Color.alpha 0xFF204060 = 255 := by decide
  @Window.over_solid plainWindow ⟨400, 300, fun _ _ => 0xFF204060⟩ 200 200 rfl
    (fun _ _ _ => halpha) rfl (by decide) color

/-- The two windows, from the bottom to the top in this order. -/
def twoWindows (order : List (Fin 2)) : Scene (Fin 2) :=
  let closed : Window := .zero
  { registry := ⟨fun w => if w.val = 0 then terminalWindow else plainWindow, order, order.getLast?⟩
    sessions := fun i =>
      if i.val = 0 then ⟨true, ⟨0, Nat.zero_lt_two⟩, .fresh⟩
      else ⟨false, ⟨0, Nat.zero_lt_two⟩, ⟨fun _ _ => 0, 0, 0, 0, 0⟩⟩
    desktop := ⟨true, 0xFF7FA8D8, 0xFF3B6FB0, none, .fill⟩
    shell := ⟨false, closed, closed, closed, .none, false, closed⟩
    compositor := ⟨true, ⟨1024, 768, fun _ _ => 0xFF000000⟩, [], false⟩
    screen := fun _ _ => 0 }

theorem twoWindows_valid {order : List (Fin 2)} (h : order.Perm [0, 1]) :
    (twoWindows order).Valid where
  desktop := rfl
  ready := ⟨rfl, .empty rfl, (by decide : 1024 < 2 ^ 32), (by decide : 768 < 2 ^ 32)⟩
  registry := by
    have hlive : ∀ w, (twoWindows order).registry.Visible w :=
      Fin.forall_fin_two.mpr
        ⟨⟨⟨fun h => (by cases h), rfl⟩, rfl⟩, ⟨⟨fun h => (by cases h), rfl⟩, rfl⟩⟩
    have hmem : ∀ w : Fin 2, w ∈ [0, 1] := by decide
    refine ⟨⟨fun w => iff_of_true (h.mem_iff.mpr (hmem w)) (hlive w).1, ?_, ?_⟩, fun w _ => hlive w⟩
    · exact h.nodup_iff.mpr (by decide)
    · exact h.length_eq.le.trans (by decide)
  live := by
    intro i hi
    by_cases he : i = 0
    · subst he
      exact ⟨fun h => (by cases h), rfl⟩
    · have hunused : (twoWindows order).sessions i = _ := if_neg fun hv => he (Fin.ext hv)
      rw [hunused] at hi
      cases hi
  text := by
    intro i
    by_cases he : i = 0
    · subst he
      exact .inr ⟨_, fresh_shows⟩
    · have hunused : (twoWindows order).sessions i = _ := if_neg fun hv => he (Fin.ext hv)
      rw [hunused]
      exact .inl rfl

/-- Output of a terminal below another window is drawn over the window. -/
theorem run_repainted_below : (twoWindows [0, 1]).Valid ∧ ∃ s s' : Scene (Fin 2),
    (twoWindows [0, 1]).desktopRender .zero = some s ∧
    step .zero s (.write 0 [0x61] (some blankFont)) = some s' ∧ ¬s'.Current .zero := by
  have hstart := @twoWindows_valid [0, 1] (.refl _)
  obtain ⟨s, hs, hpainted⟩ := desktopRender_repainted hstart .zero
  have hvalid := hpainted.valid hstart
  obtain ⟨text, hwrite, htext⟩ := (hvalid.text 0).write [0x61]
  obtain ⟨u, hu⟩ : ∃ u, u = s.setText 0 text := ⟨_, rfl⟩
  have huvalid : u.Valid := hu ▸ hvalid.setText 0 htext
  have hregistry : u.registry = (twoWindows [0, 1]).registry := hu ▸ hpainted.registry
  have hshell : u.shell = (twoWindows [0, 1]).shell := hu ▸ hpainted.shell
  have hscreen : u.compositor.screenRect = ⟨0, 0, 1024, 768⟩ := hu ▸ hpainted.became.screen
  have hsession : (u.sessions 0).used = true ∧ (u.sessions 0).window = 0 := by
    rw [hu, setText, hpainted.sessions]
    exact ⟨rfl, rfl⟩
  obtain ⟨hused, hwindow⟩ := hsession
  have hself : u.registry.windows (u.sessions 0).window = terminalWindow := by
    rw [hwindow, hregistry]
    rfl
  obtain ⟨hcomplete, hrender⟩ := terminalRender_blank ⟨700, 440, fun _ _ => 0⟩ (u.sessions 0).text
  obtain ⟨s', hs', hrendered, hcomposited⟩ :=
    terminalPresent_repainted huvalid .zero hused (congrArg Window.surface hself) hcomplete
  refine ⟨hstart, s, s', hs, ?_, fun hcurrent => ?_⟩
  · show s.sessionWrite .zero 0 [0x61] (some blankFont) = some s'
    unfold sessionWrite
    rw [if_neg (by decide), hwrite]
    show (s.setText 0 text).terminalPresent .zero 0 (some blankFont) = some s'
    rw [← hu]
    exact hs'
  have hhas : u.compositor.screenRect.Has 200 200 := by
    rw [hscreen]
    decide
  have hpixel := (current_iff (hcomposited.valid hrendered) _).mp hcurrent 200 200
    (hcomposited.became.screen ▸ hhas) 0
  rw [hcomposited.became.pixels 200 200 hhas, hcomposited.picture] at hpixel
  -- the screen shows the background of the terminal
  have hterminal (color : Color) : ((u.rendered 0 (terminalRender blankFont
      ⟨700, 440, fun _ _ => 0⟩ (u.sessions 0).text)).registry.windows (u.sessions 0).window).laidOver
        200 200 color = .rgb 248 250 253 := by
    rw [show (u.rendered 0 _).registry.windows _ = _ from Registry.put_self .., hself]
    refine (Window.over_solid rfl terminalRender_solid rfl ?_ color).trans ?_
    · rw [Window.bounds_withSurface rfl rect_terminalRender]
      decide
    · rw [hrender, Surface.pixels_draw _ (by decide)]
      unfold terminalFrame
      rw [inks_append, inks_append, inks_fillRect, inks_fillRect, inks_fillRect,
        if_pos (by decide), if_neg (by decide), if_neg (by decide)]
      rfl
  -- the scene has the other window there
  have hscene : (u.rendered 0 (terminalRender blankFont ⟨700, 440, fun _ _ => 0⟩
      (u.sessions 0).text)).picture 200 200 0 = 0xFF204060 := by
    have habove : u.above (u.sessions 0).window = [plainWindow] := by
      unfold above
      rw [hwindow, hregistry, hshell]
      rfl
    have hlisted : (u.sessions 0).window ∈ u.registry.normalWindows := by
      rw [hwindow, hregistry]
      decide
    obtain ⟨below, -, hafter⟩ := windows_split huvalid hlisted
    unfold picture
    rw [show (u.rendered 0 _).windows = _ from hafter _, habove, overAll_append, overAll_cons,
      overAll_cons, plainWindow_over]
    rfl
  rw [hterminal, hscene] at hpixel
  exact absurd hpixel (by decide)

/-- Above it, the output is shown as it should be. -/
theorem run_repainted_above : ∃ s s' : Scene (Fin 2),
    (twoWindows [1, 0]).desktopRender .zero = some s ∧
    step .zero s (.write 0 [0x61] (some blankFont)) = some s' ∧ s'.Current .zero := by
  have hstart := @twoWindows_valid [1, 0] (by decide)
  obtain ⟨s, hs, hpainted⟩ := desktopRender_repainted hstart .zero
  obtain ⟨s', hs', -⟩ := step_spec (hpainted.valid hstart) .zero (.write 0 [0x61] (some blankFont))
  have hfree : s.Uncovered (.write 0 [0x61] (some blankFont)) := by
    rintro - text - surface font hused hfont hsurface hvisible
    obtain rfl := Option.some.inj hfont
    have hblank (characters : List UInt8) : blankFont.Has characters :=
      ⟨rfl, rfl, fun _ _ => .inr (.inr rfl)⟩
    refine ⟨⟨hblank _, fun _ _ => hblank _⟩, fun x y _ _ window hwindow => ?_⟩
    have habove : (s.setText 0 text).above ((s.setText 0 text).sessions 0).window = [] := by
      unfold above setText
      rw [hpainted.registry, hpainted.shell, hpainted.sessions]
      rfl
    rw [habove] at hwindow
    exact absurd hwindow List.not_mem_nil
  have hrun : RunWhere (step .zero) Uncovered s [.write 0 [0x61] (some blankFont)] s' :=
    .cons hfree hs' .nil
  exact ⟨s, s', hs, hs', (run_repainted hstart hs hrun).1⟩

end Scene

end MeatySkeleton.Gui
