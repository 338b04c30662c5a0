import MeatySkeleton.Device.Screen
import MeatySkeleton.Lib.Run

/-!
# Every pixel written is a mapped one

The pages that are counted as mapped hold the capacity and, while the framebuffer is
available, the whole of the picture with the sub-page offset it starts at. A call that fails
half way has only added pages, and a failed initialization leaves nothing available. So a
drawing function, which clips to the picture, writes into mapped pages only.
-/

namespace MeatySkeleton.Device

open Function List Lib

namespace Video

/-- What holds of the state and the pages mapped for it. -/
structure Inv (v : Video) : Prop where
  /-- The pages counted are mapped, to the frames of the video memory. -/
  mapped : ∀ i < v.fb.mappedPages,
    v.pages i = some ((v.fb.physicalPageBase + i * framebufferPageSize) % 2 ^ 32)
  /-- They lie in the window. -/
  window : v.fb.mappedPages * framebufferPageSize ≤ framebufferVirtualLimit - framebufferVirtualBase
  capacity : v.fb.mappedCapacity ≠ 0 →
    v.fb.physicalOffset + v.fb.mappedCapacity ≤ v.fb.mappedPages * framebufferPageSize
  /-- The picture lies in them. -/
  picture : v.fb.available = true →
    v.fb.pixels = framebufferVirtualBase + v.fb.physicalOffset ∧ v.fb.width * 4 ≤ v.fb.pitch ∧
    v.fb.physicalOffset + v.fb.pitch * v.fb.height ≤ v.fb.mappedPages * framebufferPageSize

/-- Only pages have been added. -/
structure Extended (v v' : Video) (pages : Nat) : Prop where
  fb : v'.fb = { v.fb with mappedPages := pages }
  grown : v.fb.mappedPages ≤ pages
  mapped : ∀ i < pages,
    v'.pages i = some ((v.fb.physicalPageBase + i * framebufferPageSize) % 2 ^ 32)

variable {v v' : Video} {paging : Paging}

/-- The loop adds pages one after the other, all that are asked for unless it fails. -/
theorem mapPages_extended (paging : Paging) (count : Nat) : ∀ {index : Nat} {v : Video},
    (∀ i < index, v.pages i = some ((v.fb.physicalPageBase + i * framebufferPageSize) % 2 ^ 32)) →
    v.fb.mappedPages = index →
    ∃ pages ≤ index + count, Extended v (mapPages paging index count v).2 pages ∧
      ((mapPages paging index count v).1 = true → pages = index + count) := by
  induction count with
  | zero =>
    intro index v hmapped hindex
    exact ⟨index, Nat.le_refl _, ⟨hindex ▸ rfl, Nat.le_of_eq hindex, hmapped⟩, fun _ => rfl⟩
  | succ count ih =>
    intro index v hmapped hindex
    have hstay : Extended v v index := ⟨hindex ▸ rfl, Nat.le_of_eq hindex, hmapped⟩
    unfold mapPages
    split
    next => exact ⟨index, Nat.le_add_right .., hstay, nofun⟩
    next =>
      split
      next => exact ⟨index, Nat.le_add_right .., hstay, nofun⟩
      next =>
        have hadded : ∀ i < index + 1, update v.pages index
            (some ((v.fb.physicalPageBase + index * framebufferPageSize) % 2 ^ 32)) i =
              some ((v.fb.physicalPageBase + i * framebufferPageSize) % 2 ^ 32) := by
          intro i hi
          by_cases hne : i = index
          · rw [hne, update_self]
          · rw [update_of_ne hne]
            exact hmapped i (by omega)
        obtain ⟨pages, hle, hext, hall⟩ :=
          @ih (index + 1) ⟨{ v.fb with mappedPages := index + 1 }, _⟩ hadded rfl
        refine ⟨pages, by omega, ⟨hext.fb, ?_, hext.mapped⟩, fun hdone => ?_⟩
        · have := hext.grown
          dsimp only at this
          omega
        · have := hall hdone
          omega

/-- A capacity that fits the window takes whole pages of it. -/
theorem requiredPages_spec {required : Nat}
    (h : required ≤ framebufferVirtualLimit - framebufferVirtualBase) :
    let rounded := (required + (framebufferPageSize - 1)) % 2 ^ 64
    required ≤ rounded / framebufferPageSize * framebufferPageSize ∧
    rounded / framebufferPageSize * framebufferPageSize ≤
      framebufferVirtualLimit - framebufferVirtualBase := by
  unfold framebufferVirtualLimit framebufferVirtualBase at *
  unfold framebufferPageSize
  dsimp only
  omega

/-- What `framebuffer_map_capacity` does: it adds pages, and if it succeeds they hold the
capacity. -/
theorem mapCapacity_cases (h : v.Inv) (paging : Paging) (capacityBytes : Nat) :
    ∃ u pages, Extended v u pages ∧
      pages * framebufferPageSize ≤ framebufferVirtualLimit - framebufferVirtualBase ∧
      (v.mapCapacity paging capacityBytes = (false, u) ∨
        v.fb.physicalOffset + capacityBytes ≤ pages * framebufferPageSize ∧
        v.mapCapacity paging capacityBytes = (true, { u with fb := { u.fb with
          pixels := framebufferVirtualBase + v.fb.physicalOffset
          mappedCapacity := capacityBytes } })) := by
  have hstay : Extended v v v.fb.mappedPages := ⟨rfl, Nat.le_refl _, h.mapped⟩
  unfold mapCapacity
  split
  next => exact ⟨v, _, hstay, h.window, .inl rfl⟩
  next =>
    dsimp only
    split
    next => exact ⟨v, _, hstay, h.window, .inl rfl⟩
    next hfits =>
      obtain ⟨hroom, hwindow⟩ := requiredPages_spec (Nat.le_of_not_lt hfits)
      generalize (v.fb.physicalOffset + capacityBytes + (framebufferPageSize - 1)) % 2 ^ 64 =
        rounded at *
      split
      next => exact ⟨v, _, hstay, h.window, .inl rfl⟩
      next =>
        obtain ⟨pages, hle, hext, hall⟩ := mapPages_extended paging
          (rounded / framebufferPageSize - v.fb.mappedPages) h.mapped rfl
        have hpages : pages * framebufferPageSize ≤
            framebufferVirtualLimit - framebufferVirtualBase := by
          obtain hmore | hless := Nat.le_total v.fb.mappedPages (rounded / framebufferPageSize)
          · refine Nat.le_trans (Nat.mul_le_mul_right _ (?_ : pages ≤ _)) hwindow
            omega
          · refine Nat.le_trans (Nat.mul_le_mul_right _ (?_ : pages ≤ _)) h.window
            omega
        refine ⟨_, pages, hext, hpages, ?_⟩
        split
        next => exact .inl rfl
        next hdone =>
          rw [Bool.not_eq_true, Bool.not_eq_false'] at hdone
          have hcount := hall hdone
          refine .inr ⟨Nat.le_trans hroom (Nat.mul_le_mul_right _ (by omega)), ?_⟩
          rw [hext.fb]

theorem Inv.extended {pages : Nat} (h : v.Inv) (he : Extended v v' pages)
    (hpages : pages * framebufferPageSize ≤ framebufferVirtualLimit - framebufferVirtualBase) :
    v'.Inv := by
  have hmore : v.fb.mappedPages * framebufferPageSize ≤ pages * framebufferPageSize :=
    Nat.mul_le_mul_right _ he.grown
  refine ⟨?_, ?_, fun hcapacity => ?_, fun havailable => ?_⟩
  all_goals rw [he.fb] at *
  · exact he.mapped
  · exact hpages
  · exact Nat.le_trans (h.capacity hcapacity) hmore
  · obtain ⟨hpixels, hpitch, hbytes⟩ := h.picture havailable
    exact ⟨hpixels, hpitch, Nat.le_trans hbytes hmore⟩

theorem mapCapacity_inv (h : v.Inv) (capacityBytes : Nat) :
    (v.mapCapacity paging capacityBytes).2.Inv := by
  obtain ⟨u, pages, hext, hpages, he | ⟨hcapacity, he⟩⟩ := mapCapacity_cases h paging capacityBytes
  · rw [he]
    exact h.extended hext hpages
  · have hu := h.extended hext hpages
    rw [he]
    refine ⟨hu.mapped, hu.window, fun _ => ?_, fun havailable => ?_⟩
    · show u.fb.physicalOffset + capacityBytes ≤ u.fb.mappedPages * framebufferPageSize
      rw [hext.fb]
      exact hcapacity
    · obtain ⟨-, hpitch, hbytes⟩ := hu.picture havailable
      refine ⟨?_, hpitch, hbytes⟩
      show framebufferVirtualBase + v.fb.physicalOffset = _ + u.fb.physicalOffset
      rw [hext.fb]

/-- An unavailable framebuffer without pages. -/
theorem inv_empty {fb : Framebuffer} (havailable : fb.available = false) (hpages : fb.mappedPages = 0)
    (hcapacity : fb.mappedCapacity = 0) (v : Video) : Inv { v with fb } := by
  refine ⟨fun i hi => ?_, ?_, fun h => absurd hcapacity h, fun h => ?_⟩
  · exact absurd (hpages ▸ hi) (Nat.not_lt_zero i)
  · rw [hpages, Nat.zero_mul]
    exact Nat.zero_le _
  · exact absurd (havailable.symm.trans h) nofun

theorem accepts_pitch {info : FramebufferBootInfo} (h : accepts info = true) :
    info.width * 4 ≤ info.pitch := by
  simp only [accepts, Bool.and_eq_true, decide_eq_true_eq] at h
  exact h.1.2

theorem initialize_inv (paging : Paging) (info : Option FramebufferBootInfo) (v : Video) :
    (v.framebufferInitialize paging info).2.Inv := by
  cases info with
  | none => exact inv_empty rfl rfl rfl v
  | some info =>
    unfold framebufferInitialize
    dsimp only
    split
    next => exact inv_empty rfl rfl rfl v
    next hchecks =>
      rw [Bool.not_eq_true, Bool.not_eq_false'] at hchecks
      have hboot : Inv { v with fb := bootState info } := inv_empty rfl rfl rfl v
      obtain ⟨u, pages, hext, hpages, he | ⟨hcapacity, he⟩⟩ :=
        mapCapacity_cases hboot paging (info.pitch * info.height)
      all_goals rw [he]
      · exact inv_empty rfl rfl rfl u
      · have hu := hboot.extended hext hpages
        refine ⟨hu.mapped, hu.window, fun _ => ?_, fun _ => ⟨?_, ?_, ?_⟩⟩
        all_goals dsimp only [Bool.not_true, Bool.false_eq_true, if_false]
        all_goals rw [hext.fb]
        · exact hcapacity
        · rfl
        · exact accepts_pitch hchecks
        · exact hcapacity

theorem setGeometry_inv (h : v.Inv) (width height pitch bpp : Nat) :
    (v.setGeometry width height pitch bpp).2.Inv := by
  unfold setGeometry
  split
  next => exact h
  next havailable =>
    split
    next => exact h
    next =>
      split
      next => exact h
      next hsizes =>
        split
        next => exact h
        next hpitch =>
          split
          next => exact h
          next hbytes =>
            rw [Bool.not_eq_true, Bool.not_eq_false'] at havailable
            have hpositive : 0 < pitch * height :=
              Nat.mul_pos (Nat.pos_of_ne_zero fun e => hsizes (.inr (.inr e)))
                (Nat.pos_of_ne_zero fun e => hsizes (.inr (.inl e)))
            have hle : pitch * height ≤ v.fb.mappedCapacity := Nat.le_of_not_lt hbytes
            have hcapacity := h.capacity (Nat.ne_of_gt (Nat.lt_of_lt_of_le hpositive hle))
            refine ⟨h.mapped, h.window, h.capacity, fun _ => ?_⟩
            refine ⟨(h.picture havailable).1, Nat.le_of_not_lt hpitch, ?_⟩
            exact Nat.le_trans (Nat.add_le_add_left hle _) hcapacity

theorem step_inv {op : Op} (h : v.Inv) (hs : v.step op = some v') : v'.Inv := by
  cases op with
  | framebufferInitialize paging info =>
    obtain rfl := Option.some.inj hs
    exact initialize_inv paging info v
  | mapCapacity paging capacityBytes =>
    obtain rfl := Option.some.inj hs
    exact mapCapacity_inv h capacityBytes
  | setGeometry width height pitch bpp =>
    obtain rfl := Option.some.inj hs
    exact setGeometry_inv h width height pitch bpp

end Video

/-! ## Drawing -/

namespace Framebuffer

variable {fb : Framebuffer} {p : PixelWrite}

/-- A pixel of the picture. -/
def Visible (fb : Framebuffer) (p : PixelWrite) : Prop := p.x < fb.width ∧ p.y < fb.height

theorem block_visible {x y width height : Nat} {value : Nat → Nat → UInt32}
    (hx : x + width ≤ fb.width) (hy : y + height ≤ fb.height)
    (hp : p ∈ block x y width height value) : fb.Visible p := by
  obtain ⟨row, hrow, column, hcolumn, rfl⟩ := mem_block.mp hp
  constructor <;> dsimp only <;> omega

/-- What a test lets through when it fails. -/
theorem available_of_not (h : ¬(!fb.available) = true) : fb.available = true := by
  rwa [Bool.not_eq_true, Bool.not_eq_false'] at h

variable {rgb : UInt32}

theorem putPixel_visible {x y : Nat} (hp : p ∈ fb.putPixel x y rgb) :
    fb.available = true ∧ fb.Visible p := by
  obtain ⟨havailable, hp⟩ := mem_ite_nil_left.mp hp
  obtain ⟨hinside, hp⟩ := mem_ite_nil_left.mp hp
  obtain rfl := mem_singleton.mp hp
  refine ⟨available_of_not havailable, ?_, ?_⟩ <;> dsimp only <;> omega

theorem clear_visible (hp : p ∈ fb.clear rgb) :
    fb.available = true ∧ fb.Visible p := by
  obtain ⟨havailable, hp⟩ := mem_ite_nil_left.mp hp
  exact ⟨available_of_not havailable, block_visible (by omega) (by omega) hp⟩

theorem fillRect_visible {x y width height : Nat}
    (hp : p ∈ fb.fillRect x y width height rgb) : fb.available = true ∧ fb.Visible p := by
  obtain ⟨havailable, hp⟩ := mem_ite_nil_left.mp hp
  obtain ⟨-, hp⟩ := mem_ite_nil_left.mp hp
  obtain ⟨hinside, hp⟩ := mem_ite_nil_left.mp hp
  -- the end is cut off at the edge of the picture
  exact ⟨available_of_not havailable, block_visible (by omega) (by omega) hp⟩

theorem drawCharacter_visible {x y scale : Nat} {character : Char}
    (hp : p ∈ fb.drawCharacter x y character rgb scale) :
    fb.available = true ∧ fb.Visible p := by
  obtain ⟨-, hp⟩ := mem_ite_nil_left.mp hp
  split at hp
  next => exact absurd hp not_mem_nil
  next glyph _ =>
    obtain ⟨row, -, hp⟩ := mem_flatMap.mp hp
    obtain ⟨column, -, hp⟩ := mem_flatMap.mp hp
    exact fillRect_visible (mem_ite_nil_left.mp hp).2

theorem drawCharacters_visible {y scale : Nat} {text : List Char} :
    ∀ {cursorX : Nat}, p ∈ fb.drawCharacters y rgb scale cursorX text →
      fb.available = true ∧ fb.Visible p := by
  induction text with
  | nil => exact fun hp => absurd hp not_mem_nil
  | cons character text ih =>
    intro cursorX hp
    obtain hp | hp := mem_append.mp hp
    · exact drawCharacter_visible hp
    · exact ih hp

theorem blitRgb32_visible {x y width height pitch : Nat} {source : Option (Nat → UInt32)}
    (hp : p ∈ fb.blitRgb32 x y width height source pitch) :
    fb.available = true ∧ fb.Visible p := by
  unfold blitRgb32 at hp
  split at hp
  next => exact absurd hp not_mem_nil
  next source =>
    obtain ⟨havailable, hp⟩ := mem_ite_nil_left.mp hp
    obtain ⟨-, hp⟩ := mem_ite_nil_left.mp hp
    obtain ⟨-, hp⟩ := mem_ite_nil_left.mp hp
    obtain ⟨hinside, hp⟩ := mem_ite_nil_left.mp hp
    obtain ⟨-, hp⟩ := mem_ite_nil_left.mp hp
    exact ⟨available_of_not havailable, block_visible (by omega) (by omega) hp⟩

theorem draw_visible {d : Draw} (hp : p ∈ fb.draw d) : fb.available = true ∧ fb.Visible p := by
  cases d with
  | putPixel => exact putPixel_visible hp
  | clear => exact clear_visible hp
  | fillRect => exact fillRect_visible hp
  | drawString x y text rgb scale =>
    change p ∈ fb.drawString x y text rgb scale at hp
    unfold drawString at hp
    split at hp
    next => exact absurd hp not_mem_nil
    next => exact drawCharacters_visible (mem_ite_nil_left.mp hp).2
  | blitRgb32 => exact blitRgb32_visible hp

/-- A pixel lies in its row, and the row in the picture. -/
theorem pixel_offset (hpitch : fb.width * 4 ≤ fb.pitch) (hp : fb.Visible p) :
    p.y * fb.pitch + p.x * 4 + 4 ≤ fb.pitch * fb.height := by
  obtain ⟨hx, hy⟩ := hp
  calc
    p.y * fb.pitch + p.x * 4 + 4 ≤ p.y * fb.pitch + fb.pitch := by omega
    _ = fb.pitch * (p.y + 1) := by rw [Nat.mul_succ, Nat.mul_comm]
    _ ≤ fb.pitch * fb.height := Nat.mul_le_mul_left _ hy

end Framebuffer

namespace Video

variable {v : Video}

/-- The byte at this address lies in a page that was mapped for the framebuffer. -/
def Maps (v : Video) (address : Nat) : Prop :=
  framebufferVirtualBase ≤ address ∧
  (v.pages ((address - framebufferVirtualBase) / framebufferPageSize)).isSome

/-- The four bytes of each pixel that a drawing function writes. -/
theorem Inv.maps (h : v.Inv) {d : Framebuffer.Draw} {p : PixelWrite} (hp : p ∈ v.fb.draw d) :
    v.fb.Visible p ∧ ∀ byte < 4, v.Maps (v.fb.pixelAddress p.x p.y + byte) := by
  obtain ⟨havailable, hvisible⟩ := Framebuffer.draw_visible hp
  obtain ⟨hpixels, hpitch, hbytes⟩ := h.picture havailable
  have hoffset := Framebuffer.pixel_offset hpitch hvisible
  have hwindow := h.window
  have haddress : v.fb.pixelAddress p.x p.y =
      framebufferVirtualBase + (v.fb.physicalOffset + (p.y * v.fb.pitch + p.x * 4)) := by
    unfold Framebuffer.pixelAddress
    rw [hpixels]
    unfold framebufferVirtualLimit framebufferVirtualBase at *
    omega
  refine ⟨hvisible, fun byte hbyte => ⟨?_, ?_⟩⟩
  · rw [haddress]
    omega
  · have hpage : (v.fb.pixelAddress p.x p.y + byte - framebufferVirtualBase) / framebufferPageSize <
        v.fb.mappedPages := by
      rw [haddress]
      unfold framebufferPageSize at *
      omega
    rw [h.mapped _ hpage]
    rfl

/-- Before the first call. -/
def start : Video := ⟨.zero, fun _ => none⟩

/-- After every sequence of calls, each pixel that is drawn is a visible one and lies in pages
that were mapped for the framebuffer. -/
theorem run_maps {ops : List Op} (hr : Run step start ops v) (d : Framebuffer.Draw) :
    ∀ p ∈ v.fb.draw d,
      v.fb.Visible p ∧ ∀ byte < 4, v.Maps (v.fb.pixelAddress p.x p.y + byte) := by
  intro p hp
  have hinv : v.Inv := by
    refine hr.invariant (inv_empty rfl rfl rfl start) fun t op u ht _ hu => ?_
    exact step_inv ht hu
  exact hinv.maps hp

/-- A mode of 16 by 32 pixels, half a page into a page. -/
def smallMode : FramebufferBootInfo :=
  ⟨0xFD000800, 64, 16, 32, 32, framebufferTypeRgb, 16, 8, 8, 8, 0, 8⟩

/-- The mode fills its page; a larger one is then refused. -/
theorem run_maps_small_mode :
    let v := (start.framebufferInitialize ⟨fun _ => false, fun _ => true⟩ (some smallMode)).2
    v.setGeometry 16 33 64 32 = (false, v) ∧
    ∀ p ∈ v.fb.draw (.fillRect 8 30 100 100 0xFFFFFF),
      v.fb.Visible p ∧ ∀ byte < 4, v.Maps (v.fb.pixelAddress p.x p.y + byte) := by
  have hr : Run step start
      [.framebufferInitialize ⟨fun _ => false, fun _ => true⟩ (some smallMode)]
      (start.framebufferInitialize ⟨fun _ => false, fun _ => true⟩ (some smallMode)).2 :=
    .cons trivial rfl .nil
  exact ⟨rfl, run_maps hr _⟩

end Video

end MeatySkeleton.Device
