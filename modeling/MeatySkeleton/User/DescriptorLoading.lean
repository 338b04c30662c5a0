import MeatySkeleton.User.DescriptorGrammar

/-!
# Loading descriptors

A load should accept a file that is not empty, not too long and of the right form, unless a read
fails before its end, and it should close the file once. `loads_iff` says that it does so but for a
file of exactly the maximum: the read that shows that nothing follows is followed by a close, and
the common end closes again, which fails.
-/

namespace MeatySkeleton.User

variable {d : Device} {fileMax : Nat}

/-! ## The reads -/

/-- No read fails, from a call on, until so many bytes are read and one read more is made. -/
inductive Undisturbed (reads : Nat → Option Nat) : Nat → Nat → Prop
  | last {call : Nat} (h : reads call ≠ none) : Undisturbed reads call 0
  | more {call left limit : Nat} (h : reads call = some limit) (hleft : 0 < left)
      (hrest : Undisturbed reads (call + 1) (left - max limit 1)) : Undisturbed reads call left

variable {reads : Nat → Option Nat} {call left : Nat}

theorem not_undisturbed (h : reads call = none) : ¬ Undisturbed reads call left := by
  intro hu
  cases hu with
  | last hread => exact hread h
  | more hread => rw [h] at hread; exact Option.some_ne_none _ hread.symm

theorem undisturbed_zero {limit : Nat} (h : reads call = some limit) : Undisturbed reads call 0 :=
  .last (by rw [h]; exact Option.some_ne_none _)

theorem undisturbed_more {limit : Nat} (h : reads call = some limit) (hleft : 0 < left) :
    Undisturbed reads call left ↔ Undisturbed reads (call + 1) (left - max limit 1) := by
  constructor
  · intro hu
    cases hu with
    | last => omega
    | more hread _ hrest =>
      rw [h] at hread
      rwa [Option.some.inj hread]
  · exact .more h hleft

/-! ## The loop -/

/-- A session in which nothing was closed. -/
def Session.reading (position calls : Nat) : Session := ⟨position, calls, true, 0⟩

theorem userRead_failed {position calls count : Nat} (h : d.reads calls = none) :
    userRead d (.reading position calls) count = ((-1, []), .reading position (calls + 1)) := by
  simp [userRead, Session.reading, h]

theorem userRead_some {position calls count limit : Nat} (h : d.reads calls = some limit) :
    userRead d (.reading position calls) count =
      let bytes := (d.contents.drop position).take (min count (max limit 1))
      (((bytes.length : Int), bytes), Session.reading (position + bytes.length) (calls + 1)) := by
  simp [userRead, Session.reading, h]

theorem read_length (d : Device) (position count limit : Nat) :
    ((d.contents.drop position).take (min count (max limit 1))).length =
      min (min count (max limit 1)) (d.contents.length - position) := by
  rw [List.length_take, List.length_drop]

/-- How the loop ends: with all of a file that is not too long, closed already if it is full, or
with nothing and the file closed. -/
structure Ends (d : Device) (fileMax calls left : Nat) (r : Option (List UInt8) × Session) :
    Prop where
  whole : Undisturbed d.reads calls left → d.contents.length ≤ fileMax →
    r.1 = some d.contents ∧ r.2.isOpen = decide (d.contents.length ≠ fileMax) ∧
      r.2.closes = if d.contents.length = fileMax then 1 else 0
  refused : ¬ (Undisturbed d.reads calls left ∧ d.contents.length ≤ fileMax) →
    r.1 = none ∧ r.2.closes = 1

theorem ends_refused {calls left : Nat} {s : Session} (hs : s.closes = 0)
    (h : ¬ (Undisturbed d.reads calls left ∧ d.contents.length ≤ fileMax)) :
    Ends d fileMax calls left (none, (userClose s).2) := by
  refine ⟨fun hu hlen => absurd ⟨hu, hlen⟩ h, fun _ => ⟨rfl, ?_⟩⟩
  simp [userClose, hs]

theorem take_length {position : Nat} (h : position ≤ d.contents.length) :
    (d.contents.take position).length = position := by
  rw [List.length_take, Nat.min_eq_left h]

/-- The loop when the buffer is full: one more read tells whether the file ends here. -/
theorem readLoop_full {fuel calls : Nat} (hlen : fileMax ≤ d.contents.length) :
    Ends d fileMax calls 0
      (readLoop d fileMax (fuel + 1) (d.contents.take fileMax) (.reading fileMax calls)) := by
  rw [readLoop, take_length hlen, if_pos rfl]
  cases hread : d.reads calls with
  | none =>
    rw [userRead_failed hread]
    exact ends_refused rfl fun h => not_undisturbed hread h.1
  | some limit =>
    rw [userRead_some hread]
    dsimp only
    have hextra := read_length d fileMax 1 limit
    by_cases hover : d.contents.length ≤ fileMax
    · rw [if_neg (by omega)]
      refine ⟨fun _ _ => ⟨?_, ?_, ?_⟩, fun h => absurd ⟨undisturbed_zero hread, hover⟩ h⟩
      · rw [List.take_of_length_le hover]
      · rw [decide_eq_false (by omega)]
        rfl
      · rw [if_pos (by omega)]
        rfl
    · rw [if_pos (by omega)]
      exact ends_refused rfl fun h => hover h.2

/-- The loop at the end of a file that is not full. -/
theorem readLoop_ended {fuel calls limit : Nat} (hlen : d.contents.length < fileMax)
    (hread : d.reads calls = some limit) :
    Ends d fileMax calls 0 (readLoop d fileMax (fuel + 1) (d.contents.take d.contents.length)
      (.reading d.contents.length calls)) := by
  rw [readLoop, take_length (Nat.le_refl _), if_neg (by omega), userRead_some hread]
  dsimp only
  have hbytes := read_length d d.contents.length (fileMax - d.contents.length) limit
  rw [if_neg (by omega), if_pos (by omega), List.take_length]
  refine ⟨fun _ _ => ⟨rfl, ?_, ?_⟩, fun h => absurd ⟨undisturbed_zero hread, hlen.le⟩ h⟩
  · rw [decide_eq_true (by omega)]
    rfl
  · rw [if_neg (by omega)]
    rfl

/-- The loop with some bytes more. -/
theorem readLoop_more (fuel : Nat) {position calls limit : Nat}
    (hleft : position < min d.contents.length fileMax) (hread : d.reads calls = some limit) :
    ∃ n, n = min (max limit 1) (min d.contents.length fileMax - position) ∧
      readLoop d fileMax (fuel + 1) (d.contents.take position) (.reading position calls) =
        readLoop d fileMax fuel (d.contents.take (position + n))
          (.reading (position + n) (calls + 1)) := by
  have hbytes := read_length d position (fileMax - position) limit
  rw [readLoop, take_length (by omega), if_neg (by omega), userRead_some hread]
  dsimp only
  rw [if_neg (by omega), if_neg (by omega), if_neg (by omega)]
  have hcontents : d.contents.take position ++
      (d.contents.drop position).take (min (fileMax - position) (max limit 1)) =
      d.contents.take (position + ((d.contents.drop position).take
        (min (fileMax - position) (max limit 1))).length) := by
    rw [← List.take_add, List.take_eq_take_iff]
    omega
  rw [hcontents]
  exact ⟨_, by omega, rfl⟩

/-- The loop from the first bytes of the file on, by induction on the reads that are left. -/
theorem readLoop_ends {fuel position calls : Nat} (hfuel : fileMax - position + 1 < fuel)
    (hmax : position ≤ fileMax) (hlen : position ≤ d.contents.length) :
    Ends d fileMax calls (min d.contents.length fileMax - position)
      (readLoop d fileMax fuel (d.contents.take position) (.reading position calls)) := by
  induction fuel generalizing position calls with
  | zero => omega
  | succ fuel ih =>
    by_cases hfull : position = fileMax
    · subst hfull
      rw [Nat.min_eq_right hlen, Nat.sub_self]
      exact readLoop_full hlen
    cases hread : d.reads calls with
    | none =>
      rw [readLoop, take_length hlen, if_neg hfull, userRead_failed hread]
      exact ends_refused rfl fun h => not_undisturbed hread h.1
    | some limit =>
      by_cases hend : position = d.contents.length
      · subst hend
        rw [Nat.min_eq_left hmax, Nat.sub_self]
        exact readLoop_ended (by omega) hread
      · have hmore : position < min d.contents.length fileMax := by omega
        obtain ⟨n, hn, heq⟩ := readLoop_more fuel hmore hread
        have hrest : Ends d fileMax (calls + 1) (min d.contents.length fileMax - (position + n))
            (readLoop d fileMax fuel (d.contents.take (position + n))
              (.reading (position + n) (calls + 1))) :=
          ih (by omega) (by omega) (by omega)
        have hleft : min d.contents.length fileMax - (position + n) =
            min d.contents.length fileMax - position - max limit 1 := by omega
        have hu := undisturbed_more hread
          (show 0 < min d.contents.length fileMax - position by omega)
        rw [hleft] at hrest
        rw [heq]
        exact ⟨fun h => hrest.whole (hu.mp h),
          fun h => hrest.refused fun h' => h ⟨hu.mpr h'.1, h'.2⟩⟩

/-- The loop on a file that was just opened. -/
theorem readLoop_opened (d : Device) (fileMax : Nat) :
    Ends d fileMax 0 (min d.contents.length fileMax)
      (readLoop d fileMax (fileMax + 2) [] ⟨0, 0, true, 0⟩) :=
  readLoop_ends (by omega) (Nat.zero_le fileMax) (Nat.zero_le d.contents.length)

/-! ## The loads -/

/-- The file can be opened, and read up to its end or to the first byte that is too much. -/
def Device.Readable (d : Device) (fileMax : Nat) : Prop :=
  d.opens = true ∧ Undisturbed d.reads 0 (min d.contents.length fileMax)

/-- What a load should do; a descriptor should agree with the lines of its section. -/
structure Format.Loads {Descriptor : Type} (f : Format) (agrees : Descriptor → List Kind → Prop)
    (d : Device) (loaded : Loaded Descriptor) : Prop where
  accepted : loaded.status = 0 ↔ d.Readable f.fileMax ∧ 1 ≤ d.contents.length ∧
    d.contents.length ≤ f.fileMax ∧ f.Grammar (f.lines d.contents)
  described : loaded.status = 0 → agrees loaded.descriptor (inside false (f.lines d.contents))
  closed : loaded.closes = if d.opens then 1 else 0

/-- The file is as long as it may be, and nothing stops the load before it finds that out. -/
def Device.Full (d : Device) (fileMax : Nat) : Prop :=
  d.contents.length = fileMax ∧ d.Readable fileMax

/-- A field has the only value of each key. -/
def Format.Found (f : Format) (found : List UInt8 → Option (List UInt8)) (ks : List Kind) : Prop :=
  ∀ key ∈ f.keys, values key.name ks = [(found key.name).getD []]

/-- A load that ends early has nothing to say about the file. -/
theorem loads_refused (f : Format) {loaded : Loaded (List UInt8 → Option (List UInt8))}
    (hstatus : loaded.status = -1) (hcloses : loaded.closes = if d.opens then 1 else 0)
    (h : ¬ (d.Readable f.fileMax ∧ 1 ≤ d.contents.length ∧ d.contents.length ≤ f.fileMax ∧
      f.Grammar (f.lines d.contents))) : f.Loads f.Found d loaded := by
  have hnonzero : loaded.status ≠ 0 := by rw [hstatus]; decide
  exact ⟨iff_of_false hnonzero h, fun h => absurd h hnonzero, hcloses⟩

/-- The end of a load that has read all of a file, and has not closed it. -/
theorem finish_loads (f : Format) {s : Session} (hopens : d.opens = true)
    (hreadable : d.Readable f.fileMax) (hlen : d.contents.length ≤ f.fileMax)
    (hopen : s.isOpen = true) (hcloses : s.closes = 0) :
    f.Loads f.Found d (f.finish d.contents s) := by
  have hclosed : (1 : Nat) = if d.opens then 1 else 0 := by rw [hopens]; rfl
  unfold Format.finish userClose
  rw [hopen, hcloses, if_pos rfl]
  dsimp only
  rw [if_neg (by simp)]
  by_cases hempty : d.contents = []
  · rw [if_pos hempty]
    refine loads_refused f rfl hclosed fun h => ?_
    have hsome := h.2.1
    rw [hempty] at hsome
    exact absurd hsome (by simp)
  rw [if_neg hempty]
  have hsome : 1 ≤ d.contents.length := List.length_pos_iff.mpr hempty
  refine ⟨?_, ?_, hclosed⟩
  · rw [and_iff_right hreadable, and_iff_right hsome, and_iff_right hlen, ← Format.parse_iff]
    cases (f.parse d.contents).1 <;> simp
  · intro hstatus key hkey
    have haccepted : (f.parse d.contents).1 = true := by
      cases h : (f.parse d.contents).1 with
      | true => rfl
      | false => simp [h] at hstatus
    have hgrammar := (Format.parse_iff d.contents).mp haccepted
    obtain ⟨value, hvalue, -⟩ := hgrammar.required key hkey
    dsimp only
    rw [hvalue, Format.parse_seen hgrammar hkey hvalue]
    rfl

/-- The end of a load that has closed the file before. -/
theorem finish_closed (f : Format) (contents : List UInt8) {s : Session} (hopen : s.isOpen = false) :
    (f.finish contents s).status = -1 ∧ (f.finish contents s).closes = s.closes + 1 := by
  unfold Format.finish userClose
  rw [hopen]
  exact ⟨rfl, rfl⟩

theorem load_loads (f : Format) (hfull : ¬ d.Full f.fileMax) : f.Loads f.Found d (f.load d) := by
  unfold Format.load
  cases hopens : d.opens with
  | false =>
    refine loads_refused f rfl (by rw [hopens]; rfl) fun h => ?_
    rw [h.1.1] at hopens
    exact Bool.noConfusion hopens
  | true =>
    have hends := readLoop_opened d f.fileMax
    generalize readLoop d f.fileMax (f.fileMax + 2) [] ⟨0, 0, true, 0⟩ = r at hends
    obtain ⟨contents, s⟩ := r
    by_cases hwhole : Undisturbed d.reads 0 (min d.contents.length f.fileMax) ∧
        d.contents.length ≤ f.fileMax
    · obtain ⟨hcontents, hopen, hcloses⟩ := hends.whole hwhole.1 hwhole.2
      have hreadable : d.Readable f.fileMax := ⟨hopens, hwhole.1⟩
      have hshort : d.contents.length ≠ f.fileMax := fun h => hfull ⟨h, hreadable⟩
      dsimp only at hcontents
      subst hcontents
      exact finish_loads f hopens hreadable hwhole.2 (hopen.trans (decide_eq_true hshort))
        (hcloses.trans (if_neg hshort))
    · obtain ⟨hcontents, hcloses⟩ := hends.refused hwhole
      dsimp only at hcontents
      subst hcontents
      refine loads_refused f rfl ?_ fun h => hwhole ⟨h.1.2, h.2.2.1⟩
      rw [hopens]
      exact hcloses

/-- A full file is closed twice, and refused for it. -/
theorem load_full (f : Format) (hfull : d.Full f.fileMax) :
    (f.load d).status = -1 ∧ (f.load d).closes = 2 := by
  obtain ⟨hlen, hopens, hreads⟩ := hfull
  have hends := readLoop_opened d f.fileMax
  unfold Format.load
  rw [if_neg (by rw [hopens]; exact Bool.noConfusion)]
  generalize readLoop d f.fileMax (f.fileMax + 2) [] ⟨0, 0, true, 0⟩ = r at hends
  obtain ⟨contents, s⟩ := r
  obtain ⟨hcontents, hopen, hcloses⟩ := hends.whole hreads hlen.le
  dsimp only at hcontents hopen hcloses
  subst hcontents
  rw [decide_eq_false (not_not_intro hlen)] at hopen
  rw [if_pos hlen] at hcloses
  have hfinish := finish_closed f d.contents hopen
  rwa [hcloses] at hfinish

/-! ## The two loads -/

variable {A B : Type}

variable {agrees : A → List Kind → Prop}

theorem Format.Loads.map {f : Format} {g : A → B}
    {agrees' : B → List Kind → Prop} {loaded : Loaded A} (h : f.Loads agrees d loaded)
    (hg : ∀ a ks, agrees a ks → agrees' (g a) ks) : f.Loads agrees' d (loaded.map g) :=
  ⟨h.accepted, fun hstatus => hg _ _ (h.described hstatus), h.closed⟩

variable {g : (List UInt8 → Option (List UInt8)) → A}

theorem load_map_full (f : Format)
    (hfull : d.Full f.fileMax) :
    ((f.load d).map g).status = -1 ∧ ((f.load d).map g).closes = 2 :=
  load_full f hfull

/-- A load does what it should, but for a full file. -/
theorem load_map_iff (f : Format) (d : Device)
    (hg : ∀ found ks, f.Found found ks → agrees (g found) ks) :
    f.Loads agrees d ((f.load d).map g) ↔ ¬ d.Full f.fileMax := by
  constructor
  · intro h hfull
    have hclosed := h.closed
    rw [(load_map_full f hfull).2, hfull.2.1] at hclosed
    exact absurd hclosed (by decide)
  · intro hfull
    exact (load_loads f hfull).map hg

/-- The fields are the trimmed values of their keys. -/
def AppDescriptor.Agrees (a : AppDescriptor) (ks : List Kind) : Prop :=
  values (bytes "Name") ks = [a.name] ∧ values (bytes "Exec") ks = [a.executable] ∧
    values (bytes "Icon") ks = [a.icon]

def LinkDescriptor.Agrees (l : LinkDescriptor) (ks : List Kind) : Prop :=
  values (bytes "Application") ks = [l.application]

/-- A descriptor is loaded as its grammar says unless it fills the whole buffer. -/
theorem loads_iff (d : Device) :
    (appFormat.Loads AppDescriptor.Agrees d (appDescriptorLoad d) ↔ ¬ d.Full 1024) ∧
      (linkFormat.Loads LinkDescriptor.Agrees d (linkDescriptorLoad d) ↔ ¬ d.Full 512) := by
  constructor
  · apply load_map_iff appFormat
    intro found ks h
    exact ⟨h _ (.head _), h _ (.tail _ (.head _)), h _ (.tail _ (.tail _ (.head _)))⟩
  · apply load_map_iff linkFormat
    intro found ks h
    exact h _ (.head _)

/-- A link of 512 bytes, all of them read at once. -/
def fullLink : Device where
  opens := true
  contents := bytes "[Link]\nApplication=/apps/terminal.app\n" ++ List.replicate 474 (byte '\n')
  reads _ := some 512

theorem full_link_refused :
    fullLink.contents.length = 512 ∧ linkFormat.Grammar (linkFormat.lines fullLink.contents) ∧
      (linkDescriptorLoad fullLink).status = -1 ∧ (linkDescriptorLoad fullLink).closes = 2 := by
  have hlength : fullLink.contents.length = 512 := by
    simp only [fullLink, List.length_append, List.length_replicate]
    rfl
  have hreads : Undisturbed fullLink.reads 0 512 :=
    .more rfl (by decide) (undisturbed_zero rfl)
  have hfull : fullLink.Full linkFormat.fileMax := by
    refine ⟨hlength, rfl, ?_⟩
    rw [hlength]
    exact hreads
  have hgrammar : (linkFormat.parse fullLink.contents).1 = true := by decide +kernel
  have hload := load_map_full (g := fun found => LinkDescriptor.mk
    ((found (bytes "Application")).getD [])) linkFormat hfull
  exact ⟨hlength, (Format.parse_iff _).mp hgrammar, hload⟩

end MeatySkeleton.User
