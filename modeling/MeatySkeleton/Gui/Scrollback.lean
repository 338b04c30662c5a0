import MeatySkeleton.Gui.Terminal

/-!
# The ring is the end of the unbounded terminal

One lemma for each primitive edit (a character, a new line, the form feed) says that
`Shows` is kept and what happens to the view; a byte is one or two of them, a tab up
to four characters. The view is followed by line numbers: an edit keeps every line in
view that is still in the ring, and keeps it in its row as long as no line of the view
was dropped.
-/

namespace MeatySkeleton.Gui

open Function Lib

/-- The session is the unbounded terminal, seen through its ring. -/
structure Shows (s : Session) (t : Terminal) : Prop where
  ring : RingHolds terminalHistoryLines s.history s.historyStart s.historyCount t.lines
  column : s.column = t.column
  column_lt : s.column < terminalColumns
  offset : s.scrollOffset ≤ s.maxScrollOffset

variable {s s' s'' : Session} {t t' t'' : Terminal}

theorem Shows.count (h : Shows s t) : s.historyCount = min 1024 (t.above.length + 1) :=
  h.ring.count_eq

theorem Shows.count_pos (h : Shows s t) : 0 < s.historyCount := by
  rw [h.count]
  omega

theorem maxScrollOffset_eq (s : Session) : s.maxScrollOffset = s.historyCount - 24 := by
  unfold Session.maxScrollOffset terminalRows
  split <;> omega

theorem clampScrollOffset_eq (s : Session) :
    s.clampScrollOffset = { s with scrollOffset := min s.scrollOffset (s.historyCount - 24) } := by
  rw [Session.clampScrollOffset, maxScrollOffset_eq]
  split
  next hlt => rw [Nat.min_eq_right (Nat.le_of_lt hlt)]
  next hle => rw [Nat.min_eq_left (Nat.le_of_not_lt hle)]

theorem logicalToPhysical_eq {logical : Nat} (h : logical < s.historyCount) :
    s.logicalToPhysical logical = ringSlot terminalHistoryLines s.historyStart logical :=
  if_neg (Nat.not_le_of_lt h)

theorem activeLine_eq (h : 0 < s.historyCount) :
    s.activeLine = ringSlot terminalHistoryLines s.historyStart (s.historyCount - 1) := by
  rw [Session.activeLine, if_neg (Nat.ne_of_gt h), logicalToPhysical_eq (by omega)]

theorem clearPhysicalLine_ringSlot (s : Session) (start i : Nat) :
    s.clearPhysicalLine (ringSlot terminalHistoryLines start i) =
      s.setLine (ringSlot terminalHistoryLines start i) blankLine :=
  if_neg (Nat.not_le_of_lt (Nat.mod_lt _ (by decide)))

/-! ## Line numbers and the view -/

/-- The number of the oldest line the ring can still hold. -/
def Terminal.oldest (t : Terminal) : Nat := t.base + (t.lines.length - terminalHistoryLines)

/-- The number of the line in a row of the view. -/
def lineNumber (s : Session) (t : Terminal) (row : Nat) : Nat :=
  t.base + (t.lines.length - s.historyCount) + (s.firstLogical + row)

/-- A view that was scrolled back keeps its lines, except those that left the ring. -/
structure ViewKept (s : Session) (t : Terminal) (s' : Session) (t' : Terminal) : Prop where
  oldest : t.oldest ≤ t'.oldest
  kept : s.scrollOffset ≠ 0 → ∀ row < s.visibleCount, t'.oldest ≤ lineNumber s t row →
    s'.scrollOffset ≠ 0 ∧ ∃ row' < s'.visibleCount, lineNumber s' t' row' = lineNumber s t row ∧
      s'.visible row' = s.visible row ∧ (t'.oldest ≤ lineNumber s t 0 → row' = row)

theorem ViewKept.refl (s : Session) (t : Terminal) : ViewKept s t s t :=
  ⟨Nat.le_refl _, fun hoff row hrow _ => ⟨hoff, row, hrow, rfl, rfl, fun _ => rfl⟩⟩

theorem lineNumber_row (s : Session) (t : Terminal) (row : Nat) :
    lineNumber s t row = lineNumber s t 0 + row := by
  unfold lineNumber
  omega

theorem ViewKept.trans (h : ViewKept s t s' t') (h' : ViewKept s' t' s'' t'') :
    ViewKept s t s'' t'' where
  oldest := Nat.le_trans h.oldest h'.oldest
  kept := by
    intro hoff row hrow hretained
    obtain ⟨hoff', row', hrow', hnumber, hvisible, hsame⟩ :=
      h.kept hoff row hrow (Nat.le_trans h'.oldest hretained)
    obtain ⟨hoff'', row'', hrow'', hnumber', hvisible', hsame'⟩ :=
      h'.kept hoff' row' hrow' (hnumber ▸ hretained)
    refine ⟨hoff'', row'', hrow'', hnumber'.trans hnumber, hvisible'.trans hvisible, fun hfirst => ?_⟩
    have hrow_eq := hsame (Nat.le_trans h'.oldest hfirst)
    have hfirst' : lineNumber s' t' 0 = lineNumber s t 0 := by
      rw [lineNumber_row s', lineNumber_row s, hrow_eq] at hnumber
      omega
    exact (hsame' (hfirst' ▸ hfirst)).trans hrow_eq

/-- A row of the view, counted from the newest line. -/
theorem Shows.visible (h : Shows s t) (row : Nat) (hrow : row < s.visibleCount) :
    s.firstLogical + row < s.historyCount ∧
      t.lines[s.historyCount - 1 - (s.firstLogical + row)]? = some (s.visible row) := by
  have hoffset := h.offset
  rw [maxScrollOffset_eq] at hoffset
  have hlt : s.firstLogical + row < s.historyCount := by
    unfold Session.visibleCount at hrow
    unfold Session.firstLogical
    rw [terminalRows] at *
    split at hrow <;> split <;> omega
  have hslot := h.ring.slot (s.historyCount - 1 - (s.firstLogical + row)) (by omega)
  have hindex : s.historyCount - 1 - (s.historyCount - 1 - (s.firstLogical + row)) =
      s.firstLogical + row := by omega
  rw [hindex, ← logicalToPhysical_eq hlt] at hslot
  exact ⟨hlt, hslot⟩

/-- The numbers of a view that is scrolled back. -/
theorem Shows.scrolled (h : Shows s t) (hoff : s.scrollOffset ≠ 0) :
    s.visibleCount = 24 ∧ s.scrollOffset + 24 ≤ s.historyCount ∧ s.historyCount ≤ t.lines.length ∧
      s.firstLogical + s.scrollOffset + 24 = s.historyCount ∧
      ∀ row, lineNumber s t row + s.scrollOffset + 24 = t.base + t.lines.length + row := by
  have hcount : s.historyCount = min 1024 t.lines.length := h.ring.count_eq
  have hle : s.historyCount ≤ t.lines.length := hcount ▸ Nat.min_le_right ..
  have hoffset := h.offset
  rw [maxScrollOffset_eq] at hoffset
  clear hcount
  have hfirst : s.firstLogical + s.scrollOffset + 24 = s.historyCount := by
    rw [Session.firstLogical, terminalRows, if_pos (by omega)]
    omega
  refine ⟨?_, by omega, hle, hfirst, fun row => ?_⟩
  · rw [Session.visibleCount, terminalRows, if_neg (by omega)]
  · rw [lineNumber]
    omega

/-- Edits that add `n` new lines, at most one, below lines that stay what they are. -/
theorem ViewKept.of_shows {n : Nat} (hs : Shows s t) (hs' : Shows s' t') (hn : n ≤ 1)
    (hbase : t'.base = t.base) (hlength : t'.lines.length = t.lines.length + n)
    (hlines : ∀ k, t'.lines[k + 1 + n]? = t.lines[k + 1]?)
    (hoffset : s.scrollOffset ≠ 0 →
      s'.scrollOffset = min (s.scrollOffset + n) (s'.historyCount - 24)) :
    ViewKept s t s' t' := by
  refine ⟨?_, fun hoff row hrow hretained => ?_⟩
  · rw [Terminal.oldest, Terminal.oldest, hbase, hlength]
    omega
  · obtain ⟨hvisible, hroom, hle, hfirst, hnumber⟩ := hs.scrolled hoff
    have hcount : s.historyCount = min 1024 t.lines.length := hs.ring.count_eq
    have hcount' : s'.historyCount = min 1024 (t.lines.length + n) := hlength ▸ hs'.ring.count_eq
    have hoffset' := hoffset hoff
    -- the offset grows with the output, except that it stays at the top of a full ring
    have hstep : s'.scrollOffset = s.scrollOffset + n ∨
        s'.scrollOffset = s.scrollOffset ∧ n = 1 ∧ s.scrollOffset = 1000 ∧
          1024 ≤ t.lines.length := by omega
    have hoff' : s'.scrollOffset ≠ 0 := by omega
    clear hoffset hoffset' hcount hcount'
    obtain ⟨hvisible', hroom', hle', hfirst', hnumber'⟩ := hs'.scrolled hoff'
    have hnum := hnumber row
    have hnum0 := hnumber 0
    rw [hvisible] at hrow
    rw [Terminal.oldest, terminalHistoryLines, hbase, hlength] at hretained ⊢
    -- the number of the row's line fixes the new row
    obtain ⟨row', hrow', hlt'⟩ : ∃ row', row' + s.scrollOffset + n = row + s'.scrollOffset ∧
        row' < 24 := ⟨row + s'.scrollOffset - (s.scrollOffset + n), by omega⟩
    have hnum' := hnumber' row'
    rw [hbase, hlength] at hnum'
    refine ⟨hoff', row', hvisible' ▸ hlt', by omega, ?_, fun _ => by omega⟩
    have hold := (hs.visible row (hvisible ▸ hrow)).2
    have hnew := (hs'.visible row' (hvisible' ▸ hlt')).2
    obtain ⟨k, hk⟩ : ∃ k, s.historyCount - 1 - (s.firstLogical + row) = k + 1 :=
      ⟨s.historyCount - 1 - (s.firstLogical + row) - 1, by omega⟩
    have hk' : s'.historyCount - 1 - (s'.firstLogical + row') = k + 1 + n := by omega
    rw [hk] at hold
    rw [hk', hlines k, hold] at hnew
    exact (Option.some.inj hnew).symm

/-! ## Edits -/

/-- What an operation has to establish. -/
structure Follows (s : Session) (t : Terminal) (s' : Session) (t' : Terminal) : Prop where
  shows : Shows s' t'
  view : ViewKept s t s' t'

theorem Follows.refl (h : Shows s t) : Follows s t s t := ⟨h, .refl s t⟩

theorem Follows.trans (h : Follows s t s' t') (h' : Follows s' t' s'' t'') :
    Follows s t s'' t'' :=
  ⟨h'.shows, h.view.trans h'.view⟩

section

variable (h : Shows s t)

include h

/-- The newest line of the ring is the active line. -/
theorem Shows.active : s.history s.activeLine = t.active := by
  have hpos := h.count_pos
  have hslot := h.ring.slot 0 hpos
  rw [Nat.sub_zero, ← activeLine_eq hpos] at hslot
  exact (Option.some.inj hslot).symm

/-- Rewriting the active line and moving the column. -/
theorem Shows.edit (line : Line) (column : Nat) (hcolumn : column < terminalColumns) :
    Follows s t { s with history := update s.history s.activeLine line, column }
      { t with active := line, column } := by
  have hshows : Shows { s with history := update s.history s.activeLine line, column }
      { t with active := line, column } := by
    constructor
    case ring =>
      rw [activeLine_eq h.count_pos]
      exact h.ring.setNewest line
    case column => rfl
    case column_lt => exact hcolumn
    case offset => exact h.offset
  refine ⟨hshows, .of_shows (n := 0) h hshows (Nat.zero_le _) rfl rfl (fun k => rfl) fun _ => ?_⟩
  have hoffset := h.offset
  rw [maxScrollOffset_eq] at hoffset
  exact (Nat.min_eq_left hoffset).symm

theorem Shows.setColumn (column : Nat) (hcolumn : column < terminalColumns) :
    Follows s t { s with column } { t with column } := by
  have hedit := h.edit t.active column hcolumn
  rwa [← h.active, update_eq_self, h.active] at hedit

/-- The ring after a new line. -/
theorem Shows.pushLine :
    RingHolds terminalHistoryLines s.pushLine.history s.pushLine.historyStart
      s.pushLine.historyCount (blankLine :: t.lines) ∧
    s.pushLine.column = s.column ∧ s.pushLine.scrollOffset = s.scrollOffset := by
  have hle : s.historyCount ≤ 1024 := h.ring.le
  unfold Session.pushLine
  split
  next hroom =>
    dsimp only
    rw [← ringSlot, clearPhysicalLine_ringSlot]
    exact ⟨h.ring.push_room hroom blankLine, rfl, rfl⟩
  next hfull =>
    rw [terminalHistoryLines] at hfull
    have hcount : s.historyCount = terminalHistoryLines := by
      rw [terminalHistoryLines]
      omega
    have hring := h.ring
    rw [hcount] at hring
    have hactive : { s with historyStart := (s.historyStart + 1) % terminalHistoryLines }.activeLine =
        ringSlot terminalHistoryLines ((s.historyStart + 1) % terminalHistoryLines)
          (s.historyCount - 1) := activeLine_eq h.count_pos
    dsimp only
    rw [hactive, clearPhysicalLine_ringSlot]
    dsimp only [Session.setLine]
    rw [hcount]
    exact ⟨hring.push_full (by decide) blankLine, rfl, rfl⟩

/-- The offset follows the output, as far as there are lines above. -/
theorem Shows.appendLine_eq : s.appendLine =
    { s.pushLine with
      scrollOffset := min (if s.scrollOffset = 0 then 0 else s.scrollOffset + 1)
        (s.pushLine.historyCount - 24) } := by
  have hle : s.historyCount ≤ 1024 := h.ring.le
  have hoffset := h.offset
  rw [maxScrollOffset_eq] at hoffset
  have hsame := h.pushLine.2.2
  rw [Session.appendLine]
  dsimp only
  rw [clampScrollOffset_eq, hsame]
  by_cases hzero : s.scrollOffset = 0
  · rw [if_neg (fun hc => hc.1 hzero), if_pos hzero, hsame, hzero]
  · have hscrolled : s.scrollOffset ≠ 0 ∧ s.scrollOffset < terminalHistoryLines := by
      refine ⟨hzero, ?_⟩
      rw [terminalHistoryLines]
      omega
    rw [if_pos hscrolled, if_neg hzero]

theorem Shows.appendLine : Follows s t s.appendLine t.appendLine := by
  obtain ⟨hring, hcolumn, hoffset⟩ := h.pushLine
  have hshows : Shows s.appendLine t.appendLine := by
    rw [h.appendLine_eq]
    constructor
    case ring => exact hring
    case column => exact hcolumn.trans h.column
    case column_lt => exact hcolumn.symm ▸ h.column_lt
    case offset =>
      rw [maxScrollOffset_eq]
      exact Nat.min_le_right ..
  refine ⟨hshows, .of_shows (n := 1) h hshows (Nat.le_refl _) rfl rfl (fun k => rfl) fun hoff => ?_⟩
  rw [h.appendLine_eq, if_neg hoff]

theorem appendLine_column : s.appendLine.column = s.column := by
  rw [h.appendLine_eq]
  exact h.pushLine.2.1

theorem Shows.newline : Follows s t s.newline t.newline :=
  (h.setColumn 0 (by decide)).trans (h.setColumn 0 (by decide)).shows.appendLine

end

theorem resetHistory_shows (s : Session) (base : Nat) :
    Shows s.resetHistory ⟨base, blankLine, [], 0⟩ := by
  have hring := RingHolds.singleton terminalHistoryLines (by decide) (update s.history 0 blankLine)
  rw [update_self] at hring
  have hcolumn : 0 < terminalColumns := by decide
  exact ⟨hring, rfl, hcolumn, Nat.zero_le _⟩

/-- A form feed drops every line. -/
theorem Shows.formFeed (h : Shows s t) :
    Follows s t s.resetHistory ⟨t.base + t.lines.length, blankLine, [], 0⟩ := by
  refine ⟨resetHistory_shows s _, ?_, fun hoff row hrow hretained => ?_⟩
  · rw [Terminal.oldest, Terminal.oldest]
    exact Nat.le_add_right_of_le (Nat.add_le_add_left (Nat.sub_le ..) _)
  · obtain ⟨hlt, -⟩ := h.visible row hrow
    have hcount : s.historyCount = min 1024 t.lines.length := h.ring.count_eq
    rw [Terminal.oldest, lineNumber] at hretained
    dsimp only at hretained
    omega

/-! ## Bytes -/

/-- A printed character, with the new line behind the last column. -/
theorem Shows.print (h : Shows s t) (character : UInt8) :
    Follows s t
      (if terminalColumns ≤ s.column + 1 then
        { s.writeCell s.column character with column := s.column + 1 }.newline
      else { s.writeCell s.column character with column := s.column + 1 })
      (t.print character) := by
  have hlt := h.column_lt
  rw [Terminal.print, ← h.column, ← h.active]
  dsimp only
  by_cases hlast : terminalColumns ≤ s.column + 1
  · rw [if_pos hlast, if_neg (Nat.not_lt_of_le hlast)]
    -- the column is reset before the new line is pushed
    have hedit := h.edit (update (s.history s.activeLine) s.column character) 0 (by decide)
    exact hedit.trans hedit.shows.appendLine
  · rw [if_neg hlast, if_pos (Nat.lt_of_not_le hlast)]
    exact h.edit _ _ (Nat.lt_of_not_le hlast)

/-- Every byte but the tab. -/
theorem Shows.putcharOther (h : Shows s t) (character : UInt8) (htab : character ≠ 0x09) :
    Follows s t (s.putcharOther character) (t.feed character) := by
  have hcount : s.historyCount ≠ 0 := Nat.ne_of_gt h.count_pos
  unfold Session.putcharOther Terminal.feed
  rw [if_neg hcount, if_neg htab]
  split
  next hbell =>
    -- the bell is one of the ignored control bytes
    subst hbell
    exact .refl h
  next =>
    split
    next =>
      rw [← h.column]
      split
      next => exact .refl h
      next hpos =>
        have hlt := h.column_lt
        have hedit := h.edit (update (s.history s.activeLine) (s.column - 1) 0x20)
          (s.column - 1) (by omega)
        rw [← h.active]
        exact hedit
    next =>
      split
      next => exact h.newline
      next =>
        split
        next =>
          have happend := h.appendLine
          have hcolumn := appendLine_column h
          have hback := happend.shows.setColumn s.column h.column_lt
          have hsame : { t.appendLine with column := s.column } = t.appendLine := by
            rw [h.column]
            rfl
          rw [hsame] at hback
          exact happend.trans hback
        next =>
          split
          next => exact h.formFeed
          next =>
            split
            next => exact h.setColumn 0 (by decide)
            next =>
              split
              next => exact .refl h
              next => exact h.print _

theorem feed_space (t : Terminal) : t.feed 0x20 = t.print 0x20 := rfl

theorem putcharOther_column (h : Shows s t) :
    (s.putcharOther 0x20).column % 4 = (s.column + 1) % 4 := by
  have hfollows := h.putcharOther 0x20 (by decide)
  have hlt := h.column_lt
  rw [hfollows.shows.column, feed_space, Terminal.print, ← h.column]
  dsimp only
  rw [terminalColumns] at *
  split
  · rfl
  · show 0 % 4 = _
    omega

/-- The loop of a tab ends at the next multiple of four. -/
theorem Shows.tabLoop : ∀ (n fuel : Nat) {s : Session} {t : Terminal}, Shows s t →
    n = 4 - s.column % 4 → n ≤ fuel →
      ∃ s', s.tabLoop fuel = some s' ∧ Follows s t s' (Nat.iterate (·.print 0x20) n t)
  | 0, fuel, s, t, _, hn, _ => by omega
  | n + 1, fuel, s, t, h, hn, hfuel => by
    obtain ⟨fuel, rfl⟩ : ∃ m, fuel = m + 1 := ⟨fuel - 1, by omega⟩
    have hprint := h.putcharOther 0x20 (by decide)
    rw [feed_space] at hprint
    have hcolumn := putcharOther_column h
    rw [Session.tabLoop]
    by_cases hstop : (s.putcharOther 0x20).column % 4 = 0
    · obtain rfl : n = 0 := by omega
      rw [if_neg (not_not_intro hstop)]
      exact ⟨_, rfl, hprint⟩
    · rw [if_pos hstop]
      obtain ⟨s', hs', hfollows⟩ :=
        Shows.tabLoop n fuel hprint.shows (by omega) (by omega)
      exact ⟨s', hs', hprint.trans hfollows⟩

section

variable (h : Shows s t)

include h

/-- Every byte is processed, in at most four rounds of the tab loop. -/
theorem Shows.putchar (fuel : Nat) (character : UInt8) :
    ∃ s', s.putchar (fuel + 4) character = some s' ∧ Follows s t s' (t.feed character) := by
  unfold Session.putchar
  rw [if_neg (Nat.ne_of_gt h.count_pos)]
  split
  next htab =>
    subst htab
    rw [Terminal.feed, if_neg (by decide), if_pos rfl, ← h.column]
    exact Shows.tabLoop _ _ h rfl (by omega)
  next htab => exact ⟨_, rfl, h.putcharOther character htab⟩

/-! ## Scrolling -/

/-- Scrolling moves the offset within its bounds and touches nothing else. -/
theorem Shows.setOffset {offset : Nat} (hoffset : offset ≤ s.maxScrollOffset) :
    Shows { s with scrollOffset := offset } t :=
  ⟨h.ring, h.column, h.column_lt, hoffset⟩

theorem Shows.scrollViewUp (lines : Nat) : Shows (s.scrollViewUp lines) t := by
  unfold Session.scrollViewUp
  split
  · exact h
  · dsimp only
    split
    next hlt =>
      refine h.setOffset ?_
      split <;> omega
    next => exact h

theorem Shows.scrollViewDown (lines : Nat) : Shows (s.scrollViewDown lines) t := by
  have hoffset := h.offset
  unfold Session.scrollViewDown
  split
  · exact h
  · split
    · exact h.setOffset (Nat.zero_le _)
    · exact h.setOffset (by omega)

theorem Shows.clamp : Shows s.clampScrollOffset t := by
  rw [Session.clampScrollOffset, if_neg (Nat.not_lt_of_le h.offset)]
  exact h

theorem Shows.step (fuel : Nat) (op : Op) :
    ∃ s', s.step (fuel + 4) op = some s' ∧ Shows s' (t.step op) := by
  cases op with
  | write character =>
    obtain ⟨s', hs', hfollows⟩ := h.putchar fuel character
    exact ⟨s', hs', hfollows.shows⟩
  | scrollUp lines => exact ⟨_, rfl, h.scrollViewUp lines⟩
  | scrollDown lines => exact ⟨_, rfl, h.scrollViewDown lines⟩
  | snap => exact ⟨_, rfl, h.setOffset (Nat.zero_le _)⟩
  | render => exact ⟨_, rfl, h.clamp⟩

end

/-! ## Runs -/

theorem fresh_shows : Shows .fresh .fresh := resetHistory_shows _ 0

theorem Shows.run (fuel : Nat) : ∀ (ops : List Op) {s : Session} {t : Terminal}, Shows s t →
    ∃ s', ops.foldlM (Session.step (fuel + 4)) s = some s' ∧ Shows s' (ops.foldl Terminal.step t)
  | [], s, t, h => ⟨s, rfl, h⟩
  | op :: ops, s, t, h => by
    obtain ⟨s1, hs1, h1⟩ := h.step fuel op
    obtain ⟨s', hs', h'⟩ := Shows.run fuel ops h1
    refine ⟨s', ?_, h'⟩
    rw [List.foldlM_cons, hs1]
    exact hs'

/-- Output, byte after byte. -/
theorem Shows.output (fuel : Nat) : ∀ (bytes : List UInt8) {s : Session} {t : Terminal},
    Shows s t → ∃ s', bytes.foldlM (Session.putchar (fuel + 4)) s = some s' ∧
      Follows s t s' (bytes.foldl Terminal.feed t)
  | [], s, t, h => ⟨s, rfl, .refl h⟩
  | byte :: bytes, s, t, h => by
    obtain ⟨s1, hs1, h1⟩ := h.putchar fuel byte
    obtain ⟨s', hs', h'⟩ := Shows.output fuel bytes h1.shows
    refine ⟨s', ?_, h1.trans h'⟩
    rw [List.foldlM_cons, hs1]
    exact hs'

/-- The lines of the ring, the newest one first. -/
def Session.ringLines (s : Session) : List Line :=
  (List.range s.historyCount).map fun k =>
    s.history (s.logicalToPhysical (s.historyCount - 1 - k))

theorem Shows.ringLines (h : Shows s t) : s.ringLines = t.lines.take terminalHistoryLines := by
  rw [← h.ring.content]
  refine List.map_congr_left fun k hk => ?_
  have hlt := List.mem_range.mp hk
  rw [logicalToPhysical_eq (by omega)]

/-- Any bytes and any scrolling: no byte gets stuck, the ring is the end of the unbounded
terminal, the view reads valid lines, and output below a view that is scrolled back leaves it
its lines. -/
theorem session_refines_terminal (fuel : Nat) (ops : List Op) :
    ∃ s, ops.foldlM (Session.step (fuel + 4)) Session.fresh = some s ∧
      s.ringLines = (ops.foldl Terminal.step .fresh).lines.take terminalHistoryLines ∧
      s.column = (ops.foldl Terminal.step .fresh).column ∧
      (1 ≤ s.historyCount ∧ s.historyCount ≤ terminalHistoryLines) ∧
      s.column < terminalColumns ∧
      s.scrollOffset ≤ s.maxScrollOffset ∧
      (∀ row < s.visibleCount, s.firstLogical + row < s.historyCount) ∧
      ∀ bytes : List UInt8, ∃ s', bytes.foldlM (Session.putchar (fuel + 4)) s = some s' ∧
        ViewKept s (ops.foldl Terminal.step .fresh) s'
          (bytes.foldl Terminal.feed (ops.foldl Terminal.step .fresh)) := by
  obtain ⟨s, hs, h⟩ := Shows.run fuel ops fresh_shows
  refine ⟨s, hs, h.ringLines, h.column, ⟨h.count_pos, h.ring.le⟩, h.column_lt, h.offset,
    fun row hrow => (h.visible row hrow).1, fun bytes => ?_⟩
  obtain ⟨s', hs', hfollows⟩ := Shows.output fuel bytes h
  exact ⟨s', hs', hfollows.view⟩

end MeatySkeleton.Gui
