import Mathlib.Data.List.TakeWhile
import Vuknob.Samples.SampleLevels
import Vuknob.Samples.WavSafety

/-!
# The layout of WAV files

Which files in the standard layout, where a chunk of an odd size is followed by a byte of padding,
`MemoryMappedWave` finds the first format and the first data in.
-/

namespace Vuknob

namespace WavLoader

/-! ## Files in the standard layout -/

/-- A chunk of a file. The byte of padding is there only where the size is odd. -/
structure RiffChunk where
  id : List UInt8
  payload : List UInt8
  padding : UInt8
  deriving DecidableEq

namespace RiffChunk

/-- An identifier of four characters, and a size that has 32 bits. -/
def WellFormed (c : RiffChunk) : Prop := c.id.length = 4 ∧ c.payload.length < 2 ^ 32
  deriving Decidable

/-- The bytes of a chunk. -/
def bytes (c : RiffChunk) : List UInt8 :=
  c.id ++ ((bigEndian 4 c.payload.length).reverse ++
    (c.payload ++ if c.payload.length % 2 = 1 then [c.padding] else []))

/-- Whether a chunk is one with the format. -/
def IsFormat (c : RiffChunk) : Prop := c.id = str "fmt "
  deriving Decidable

/-- Whether a chunk is one with the data. -/
def IsData (c : RiffChunk) : Prop := c.id = str "data"
  deriving Decidable

theorem WellFormed.length_bytes {c : RiffChunk} (h : c.WellFormed) :
    c.bytes.length = 8 + c.payload.length + c.payload.length % 2 := by
  have hpadding : (if c.payload.length % 2 = 1 then [c.padding] else []).length =
      c.payload.length % 2 := by
    split
    · next hodd => rw [hodd]; rfl
    · next heven => rw [List.length_nil]; omega
  rw [bytes, List.length_append, List.length_append, List.length_append, hpadding, h.1,
    List.length_reverse, length_bigEndian]
  omega

theorem length_bytes_pos (c : RiffChunk) : 0 < c.bytes.length := by
  rw [bytes, List.length_append, List.length_append, List.length_reverse, length_bigEndian]
  omega

end RiffChunk

/-- A file with its header and its chunks. The size in the header is not looked at. -/
def riffFile (size : List UInt8) (cs : List RiffChunk) : List UInt8 :=
  str "RIFF" ++ size ++ str "WAVE" ++ cs.flatMap RiffChunk.bytes

variable {mapped rest : List UInt8} {place : Nat} {c : RiffChunk}

/-- What is read of a chunk that is at a place. -/
theorem chunkAt_eq (hc : c.WellFormed) (h : mapped.drop place = c.bytes ++ rest) :
    chunkAt mapped place = ⟨c.id, c.payload.length, place + 8⟩ ∧
      (mapped.drop (place + 8)).take c.payload.length = c.payload := by
  obtain ⟨hid, hsize⟩ := hc
  have h₄ : mapped.drop (place + 4) = (bigEndian 4 c.payload.length).reverse ++
      (c.payload ++ ((if c.payload.length % 2 = 1 then [c.padding] else []) ++ rest)) := by
    rw [← List.drop_drop, h, RiffChunk.bytes, ← hid, List.append_assoc, List.drop_left]
    simp only [List.append_assoc]
  have h₈ : mapped.drop (place + 8) =
      c.payload ++ ((if c.payload.length % 2 = 1 then [c.padding] else []) ++ rest) := by
    rw [show place + 8 = place + 4 + 4 from rfl, ← List.drop_drop, h₄]
    exact List.drop_left' (by rw [List.length_reverse, length_bigEndian])
  refine ⟨?_, by rw [h₈, List.take_left]⟩
  have hlength : lengthAt mapped place = c.payload.length := by
    rw [lengthAt, number, h₄, List.take_left' (by rw [List.length_reverse, length_bigEndian])]
    have : (littleEndian (bigEndian 4 c.payload.length).reverse : Int) =
        c.payload.length % 256 ^ 4 := littleEndian_reverse _
    omega
  rw [chunkAt, hlength, h, RiffChunk.bytes, List.append_assoc, List.take_left' hid]

/-! ## Chunks that are passed -/

/-- The place of the last chunk of a kind, if there is one among these. -/
def lastPlace (kind : RiffChunk → Prop) [DecidablePred kind] :
    Nat → Option Nat → List RiffChunk → Option Nat
  | _, last, [] => last
  | place, last, c :: cs =>
    lastPlace kind (place + c.bytes.length) (if kind c then some place else last) cs

/-- A chunk is passed where the file goes on behind its descriptor. -/
theorem Passes.chunk {n : Nat} {p : Passed} (h : Passes mapped n p) (hwanting : p.Wanting)
    (hplace : p.next = place) (hc : c.WellFormed) (hdrop : mapped.drop place = c.bytes ++ rest)
    (hmore : 8 < c.bytes.length + rest.length) :
    Passes mapped (n + 1) ⟨if c.IsFormat then some place else p.format,
      if c.IsData then some place else p.data, toInt32 (place + c.payload.length + 8)⟩ := by
  obtain ⟨hchunk, -⟩ := chunkAt_eq hc hdrop
  have hlength := hc.length_bytes
  have hfile := congrArg List.length hdrop
  rw [List.length_drop, List.length_append] at hfile
  have hlengthAt : lengthAt mapped place = c.payload.length := congrArg Chunk.length hchunk
  have hpass := h.pass hwanting hplace (by omega) (by rw [hlengthAt]; omega)
  have hdata : (c.id ≠ str "fmt " ∧ c.id = str "data") ↔ c.IsData :=
    ⟨And.right, fun hd ↦ ⟨fun hf ↦ absurd (hf.symm.trans hd) (by decide), hd⟩⟩
  rw [Passed.pass, hchunk] at hpass
  simp only [hdata] at hpass
  exact hpass

/-- Chunks of even sizes in front of other bytes are passed one after another, as long as one of
the chunks that are needed is not among them. -/
theorem Passes.chunks (hsize : mapped.length < 2 ^ 31) {ps : List RiffChunk}
    (hps : ∀ c ∈ ps, c.WellFormed ∧ c.payload.length % 2 = 0) (hrest : rest ≠ []) {n : Nat}
    {p : Passed} (h : Passes mapped n p) (hplace : p.next = place)
    (hdrop : mapped.drop place = ps.flatMap RiffChunk.bytes ++ rest)
    (hmissing : (p.format = none ∧ ∀ c ∈ ps, ¬ c.IsFormat) ∨
      (p.data = none ∧ ∀ c ∈ ps, ¬ c.IsData)) :
    Passes mapped (n + ps.length) ⟨lastPlace RiffChunk.IsFormat place p.format ps,
      lastPlace RiffChunk.IsData place p.data ps,
      (place + (ps.flatMap RiffChunk.bytes).length : Nat)⟩ := by
  induction ps generalizing n p place with
  | nil =>
    obtain ⟨format, data, next⟩ := p
    cases hplace
    exact h
  | cons c ps ih =>
    obtain ⟨⟨hc, heven⟩, hps⟩ := List.forall_mem_cons.mp hps
    rw [List.flatMap_cons, List.append_assoc] at hdrop
    have hlength := hc.length_bytes
    have hfile := congrArg List.length hdrop
    have hpos := List.length_pos_of_ne_nil hrest
    rw [List.length_drop, List.length_append, List.length_append] at hfile
    have hpass := h.chunk (hmissing.imp And.left And.left) hplace hc hdrop
      (by rw [List.length_append]; omega)
    have hplace' : toInt32 (place + c.payload.length + 8) = (place + c.bytes.length : Nat) := by
      rw [toInt32_of_fits (by omega)]
      omega
    rw [hplace'] at hpass
    have hnext : mapped.drop (place + c.bytes.length) = ps.flatMap RiffChunk.bytes ++ rest := by
      rw [← List.drop_drop, hdrop, List.drop_left]
    have htail := ih hps hpass rfl hnext (hmissing.imp
      (fun ⟨hp, hm⟩ ↦ ⟨by rw [if_neg (List.forall_mem_cons.mp hm).1, hp],
        (List.forall_mem_cons.mp hm).2⟩)
      fun ⟨hp, hm⟩ ↦ ⟨by rw [if_neg (List.forall_mem_cons.mp hm).1, hp],
        (List.forall_mem_cons.mp hm).2⟩)
    rw [List.flatMap_cons, List.length_append, List.length_cons, Nat.add_comm ps.length,
      ← Nat.add_assoc n, ← Nat.add_assoc place]
    exact htail

theorem exists_lastPlace (kind : RiffChunk → Prop) [DecidablePred kind] {first : Nat}
    (h : first ≤ place) (ps : List RiffChunk) :
    ∃ q, lastPlace kind place (some first) ps = some q ∧ first ≤ q := by
  induction ps generalizing place first with
  | nil => exact ⟨first, rfl, Nat.le_refl _⟩
  | cons c ps ih =>
    rw [lastPlace]
    split
    · obtain ⟨q, hq, hle⟩ := ih (Nat.le_add_right place c.bytes.length)
      exact ⟨q, hq, h.trans hle⟩
    · exact ih (h.trans (Nat.le_add_right ..))

/-- The last place of a kind is one that was there before, exactly if no chunk is of the kind. -/
theorem lastPlace_eq_iff {kind : RiffChunk → Prop} [DecidablePred kind] {first : Nat}
    (hfirst : first < place) (ps : List RiffChunk) :
    lastPlace kind place (some first) ps = some first ↔ ∀ c ∈ ps, ¬ kind c := by
  induction ps generalizing place with
  | nil => exact iff_of_true rfl (fun _ h ↦ absurd h List.not_mem_nil)
  | cons c ps ih =>
    rw [lastPlace, List.forall_mem_cons]
    split
    · next hkind =>
      obtain ⟨q, hq, hle⟩ := exists_lastPlace kind (Nat.le_add_right place c.bytes.length) ps
      rw [hq]
      refine iff_of_false (fun he ↦ ?_) fun he ↦ he.1 hkind
      have := Option.some.inj he
      omega
    · next hkind => exact (ih (by omega)).trans (and_iff_right hkind).symm

theorem lastPlace_append (kind : RiffChunk → Prop) [DecidablePred kind] (last : Option Nat)
    (ps qs : List RiffChunk) :
    lastPlace kind place last (ps ++ qs) =
      lastPlace kind (place + (ps.flatMap RiffChunk.bytes).length)
        (lastPlace kind place last ps) qs := by
  induction ps generalizing place last with
  | nil => rfl
  | cons c ps ih =>
    rw [List.cons_append, lastPlace, lastPlace, ih, List.flatMap_cons, List.length_append,
      Nat.add_assoc]

theorem lastPlace_of_none {kind : RiffChunk → Prop} [DecidablePred kind] (last : Option Nat)
    {ps : List RiffChunk} (h : ∀ c ∈ ps, ¬ kind c) : lastPlace kind place last ps = last := by
  induction ps generalizing place with
  | nil => rfl
  | cons c ps ih =>
    obtain ⟨hc, hps⟩ := List.forall_mem_cons.mp h
    rw [lastPlace, if_neg hc, ih hps]

/-- Whatever has been passed, the loop comes to. -/
theorem Passes.readChunks (hsize : mapped.length < 2 ^ 31) {n : Nat} {p : Passed}
    (h : Passes mapped n p) (fuel : Nat) :
    WavLoader.readChunks mapped (fuel + n) none none 12 = WavLoader.readFrom mapped fuel p := by
  induction h generalizing fuel with
  | start => rfl
  | @pass n place p h hwanting hplace hdescriptor hlength ih =>
    rw [← readFrom_pass hsize hwanting hplace hdescriptor hlength, ← ih, Nat.add_right_comm,
      Nat.add_assoc]

/-! ## The first of a kind -/

section

variable {kind : RiffChunk → Prop} [DecidablePred kind] {cs : List RiffChunk}

/-- The place of the first chunk of a kind. -/
def placeOf (kind : RiffChunk → Prop) [DecidablePred kind] (cs : List RiffChunk) : Nat :=
  12 + ((cs.take (cs.findIdx (kind ·))).flatMap RiffChunk.bytes).length

theorem not_of_mem_take (h : c ∈ cs.take (cs.findIdx (kind ·))) : ¬ kind c := by
  obtain ⟨i, hi, rfl⟩ := List.getElem_of_mem h
  rw [List.length_take] at hi
  rw [List.getElem_take]
  have := List.not_of_lt_findIdx (p := (kind ·)) (i := i) (show i < cs.findIdx (kind ·) by omega)
  exact of_decide_eq_false this

/-- The last place of a kind is that of the first chunk, exactly if there is one chunk. -/
theorem lastPlace_take_iff (hfirst : cs.find? (kind ·) = some c) {m : Nat}
    (hm : cs.findIdx (kind ·) < m) :
    (∃ q, lastPlace kind 12 none (cs.take m) = some q) ∧
      (lastPlace kind 12 none (cs.take m) = some (placeOf kind cs) ↔
        (cs.take m).countP (kind ·) = 1) := by
  have hkind : kind c := of_decide_eq_true (List.find?_some (p := (kind ·)) hfirst)
  rw [List.find?_eq_getElem?_findIdx] at hfirst
  obtain ⟨hi, rfl⟩ := List.getElem?_eq_some_iff.mp hfirst
  have hsplit : cs.take m = cs.take (cs.findIdx (kind ·)) ++
      cs[cs.findIdx (kind ·)] :: (cs.take m).drop (cs.findIdx (kind ·) + 1) := by
    have hlt : cs.findIdx (kind ·) < (cs.take m).length := by
      rw [List.length_take]
      omega
    conv_lhs => rw [← List.take_append_drop (cs.findIdx (kind ·)) (cs.take m),
      List.take_take, Nat.min_eq_left hm.le, List.drop_eq_getElem_cons hlt, List.getElem_take]
  have hbefore : ∀ c ∈ cs.take (cs.findIdx (kind ·)), ¬ kind c := fun _ ↦ not_of_mem_take
  have hcount : (cs.take (cs.findIdx (kind ·))).countP (kind ·) = 0 :=
    List.countP_eq_zero.mpr fun c hc h ↦ hbefore c hc (of_decide_eq_true h)
  generalize (cs.take m).drop (cs.findIdx (kind ·) + 1) = behind at hsplit
  rw [hsplit, lastPlace_append, lastPlace_of_none none hbefore, lastPlace, if_pos hkind,
    List.countP_append, hcount, List.countP_cons_of_pos (p := (kind ·)) (decide_eq_true hkind),
    ← placeOf, Nat.zero_add, Nat.add_eq_right,
    List.countP_eq_zero]
  have hplace : placeOf kind cs < placeOf kind cs + (cs[cs.findIdx (kind ·)]).bytes.length :=
    Nat.lt_add_of_pos_right (RiffChunk.length_bytes_pos _)
  obtain ⟨q, hq, -⟩ := exists_lastPlace kind hplace.le behind
  exact ⟨⟨q, hq⟩, (lastPlace_eq_iff hplace behind).trans (by simp only [decide_eq_true_eq])⟩

end

/-! ## The chunks of a file -/

variable {size : List UInt8} {cs : List RiffChunk} {format data : RiffChunk}

theorem drop_riffFile (hsize : size.length = 4) (cs : List RiffChunk) :
    (riffFile size cs).drop 12 = cs.flatMap RiffChunk.bytes := by
  refine List.drop_left' ?_
  rw [List.length_append, List.length_append, hsize]
  rfl

theorem length_riffFile (hsize : size.length = 4) (cs : List RiffChunk) :
    (riffFile size cs).length = 12 + (cs.flatMap RiffChunk.bytes).length := by
  rw [riffFile, List.length_append, List.length_append, List.length_append, hsize]
  rfl

theorem hasHeader_riffFile (hsize : size.length = 4) (hfits : (riffFile size cs).length < 2 ^ 31) :
    HasHeader (riffFile size cs) := by
  refine ⟨by rw [length_riffFile hsize]; omega, hfits, ?_, ?_⟩
  · rw [riffFile, List.append_assoc, List.append_assoc]
    exact List.take_left' rfl
  · rw [riffFile, List.append_assoc, List.drop_left' (by rw [List.length_append, hsize]; rfl)]
    exact List.take_left' rfl

theorem drop_chunks (hsize : size.length = 4) (cs : List RiffChunk) (m : Nat) :
    (riffFile size cs).drop (12 + ((cs.take m).flatMap RiffChunk.bytes).length) =
      (cs.drop m).flatMap RiffChunk.bytes := by
  rw [← List.drop_drop, drop_riffFile hsize]
  have hsplit : cs.flatMap RiffChunk.bytes =
      (cs.take m).flatMap RiffChunk.bytes ++ (cs.drop m).flatMap RiffChunk.bytes := by
    rw [← List.flatMap_append, List.take_append_drop]
  rw [hsplit, List.drop_left]

/-- The first chunk of a kind is at its place. -/
theorem drop_placeOf {kind : RiffChunk → Prop} [DecidablePred kind] (hsize : size.length = 4)
    (hfirst : cs.find? (kind ·) = some c) :
    ∃ rest, (riffFile size cs).drop (placeOf kind cs) = c.bytes ++ rest := by
  rw [List.find?_eq_getElem?_findIdx] at hfirst
  obtain ⟨hi, rfl⟩ := List.getElem?_eq_some_iff.mp hfirst
  rw [placeOf, drop_chunks hsize, List.drop_eq_getElem_cons hi, List.flatMap_cons]
  exact ⟨_, rfl⟩

/-- The number of chunks in front of the last one that is needed. -/
def lastNeeded (cs : List RiffChunk) : Nat :=
  max (cs.findIdx (·.IsFormat)) (cs.findIdx (·.IsData))

/-- What has been passed of the chunks in front of the last one that is needed, and of the next
one if the file goes on behind its descriptor. -/
theorem passes_needed (hsize : size.length = 4) (hfits : (riffFile size cs).length < 2 ^ 31)
    (hcs : ∀ c ∈ cs, c.WellFormed) (hlast : lastNeeded cs < cs.length)
    (heven : ∀ c ∈ cs.take (lastNeeded cs), c.payload.length % 2 = 0) :
    ∃ p, Passes (riffFile size cs) (lastNeeded cs) p ∧ p.Wanting ∧
      p.next = (12 + ((cs.take (lastNeeded cs)).flatMap RiffChunk.bytes).length : Nat) ∧
      (8 < ((cs.drop (lastNeeded cs)).flatMap RiffChunk.bytes).length →
        ∃ next, Passes (riffFile size cs) (lastNeeded cs + 1)
          ⟨lastPlace RiffChunk.IsFormat 12 none (cs.take (lastNeeded cs + 1)),
            lastPlace RiffChunk.IsData 12 none (cs.take (lastNeeded cs + 1)), next⟩) := by
  have hmissing : (∀ c ∈ cs.take (lastNeeded cs), ¬ c.IsFormat) ∨
      ∀ c ∈ cs.take (lastNeeded cs), ¬ c.IsData := by
    rcases Nat.le_total (cs.findIdx (·.IsFormat)) (cs.findIdx (·.IsData)) with hle | hle
    · rw [lastNeeded, Nat.max_eq_right hle]
      exact .inr fun _ ↦ not_of_mem_take
    · rw [lastNeeded, Nat.max_eq_left hle]
      exact .inl fun _ ↦ not_of_mem_take
  generalize lastNeeded cs = m at *
  have hdrop := drop_chunks hsize cs m
  rw [List.drop_eq_getElem_cons hlast, List.flatMap_cons] at hdrop
  have hc := hcs cs[m] (List.getElem_mem hlast)
  have hlength := hc.length_bytes
  have hstart : (riffFile size cs).drop 12 =
      (cs.take m).flatMap RiffChunk.bytes ++ (cs.drop m).flatMap RiffChunk.bytes := by
    rw [drop_riffFile hsize, ← List.flatMap_append, List.take_append_drop]
  have hrest : (cs.drop m).flatMap RiffChunk.bytes ≠ [] := by
    rw [List.drop_eq_getElem_cons hlast, List.flatMap_cons]
    exact List.ne_nil_of_length_pos (by rw [List.length_append]; omega)
  have heach : ∀ c ∈ cs.take m, c.WellFormed ∧ c.payload.length % 2 = 0 :=
    fun c h ↦ ⟨hcs c (List.mem_of_mem_take h), heven c h⟩
  have hpasses := Passes.chunks hfits heach hrest .start rfl hstart
    (hmissing.imp (⟨rfl, ·⟩) (⟨rfl, ·⟩))
  rw [Nat.zero_add, List.length_take, Nat.min_eq_left hlast.le] at hpasses
  have hwanting : Passed.Wanting ⟨lastPlace RiffChunk.IsFormat 12 none (cs.take m),
      lastPlace RiffChunk.IsData 12 none (cs.take m),
      (12 + ((cs.take m).flatMap RiffChunk.bytes).length : Nat)⟩ :=
    hmissing.imp (lastPlace_of_none none ·) (lastPlace_of_none none ·)
  refine ⟨_, hpasses, hwanting, rfl, fun hmore ↦ ?_⟩
  rw [List.drop_eq_getElem_cons hlast, List.flatMap_cons, List.length_append] at hmore
  have hpass := hpasses.chunk hwanting rfl hc hdrop hmore
  rw [← List.take_append_getElem hlast, lastPlace_append, lastPlace_append]
  exact ⟨_, hpass⟩

/-! ## What is found -/

/-- The first format and the first data of the chunks are found and reported. -/
def Finds (mapped : List UInt8) (cs : List RiffChunk) (format data : RiffChunk) : Prop :=
  ∃ fuel wave, MemoryMappedWave.new fuel (some mapped) = some (.ok wave) ∧
    wave.format.data = placeOf RiffChunk.IsFormat cs + 8 ∧
    wave.data.data = placeOf RiffChunk.IsData cs + 8 ∧
    wave.channels = littleEndian ((format.payload.drop 2).take 2) ∧
    wave.sampleRate = littleEndian ((format.payload.drop 4).take 4) ∧
    wave.bitsPerSample = littleEndian ((format.payload.drop 14).take 2) ∧
    (mapped.drop (placeOf RiffChunk.IsData cs + 8)).take wave.data.length = data.payload

/-- A file that can be walked through: it is small enough for an `off_t`, there is no second format
and no second data up to the last chunk that is needed, and the file goes on behind the descriptor
of that chunk. -/
structure Tolerated (mapped : List UInt8) (cs : List RiffChunk) : Prop where
  small : mapped.length < 2 ^ 31
  format : (cs.take (lastNeeded cs + 1)).countP (·.IsFormat) = 1
  data : (cs.take (lastNeeded cs + 1)).countP (·.IsData) = 1
  more : 8 < ((cs.drop (lastNeeded cs)).flatMap RiffChunk.bytes).length

/-- A field of a chunk is part of its payload. -/
theorem number_payload {payload : List UInt8} {f length : Nat}
    (h : (mapped.drop (f + 8)).take length = payload) {k n : Nat} (hk : k + n ≤ length) :
    number mapped (f + 8 + k) n = littleEndian ((payload.drop k).take n) := by
  rw [number, ← h, List.drop_take, List.take_take, Nat.min_eq_left (by omega), List.drop_drop]

/-- The chunks of a file that is opened are those that the loop has come to. -/
theorem readChunks_of_new (h : HasHeader mapped) {fuel : Nat} {wave : MemoryMappedWave}
    (hnew : MemoryMappedWave.new fuel (some mapped) = some (.ok wave)) :
    WavLoader.readChunks mapped fuel none none 12 = some (.ok (wave.format, wave.data)) := by
  rw [new_eq h] at hnew
  obtain ⟨y, hy, hnew⟩ := Option.bind_eq_some_iff.mp hnew
  rw [hy]
  match y with
  | .error e => cases hnew
  | .ok (format, data) =>
    obtain ⟨_, _, hnew⟩ := Option.bind_eq_some_iff.mp hnew
    obtain ⟨_, _, hnew⟩ := Option.bind_eq_some_iff.mp hnew
    obtain ⟨_, _, hnew⟩ := Option.bind_eq_some_iff.mp hnew
    cases hnew
    rfl

/-- The chunks of the first places are what is to be found. -/
theorem finds_of_passes (hsize : size.length = 4) (hfits : (riffFile size cs).length < 2 ^ 31)
    (hcs : ∀ c ∈ cs, c.WellFormed) (hformat : cs.find? (·.IsFormat) = some format)
    (hlength : format.payload.length = 16) (hdata : cs.find? (·.IsData) = some data) {n : Nat}
    {next : Int}
    (h : Passes (riffFile size cs) n
      ⟨some (placeOf RiffChunk.IsFormat cs), some (placeOf RiffChunk.IsData cs), next⟩) :
    Finds (riffFile size cs) cs format data := by
  obtain ⟨restF, hdropF⟩ := drop_placeOf hsize hformat
  obtain ⟨restD, hdropD⟩ := drop_placeOf hsize hdata
  obtain ⟨-, hpayloadF⟩ := chunkAt_eq (hcs _ (List.mem_of_find?_eq_some hformat)) hdropF
  obtain ⟨hchunkD, hpayloadD⟩ := chunkAt_eq (hcs _ (List.mem_of_find?_eq_some hdata)) hdropD
  have hread := h.readChunks hfits 0
  rw [readFrom_found] at hread
  have hfields : placeOf RiffChunk.IsFormat cs + 24 ≤ (riffFile size cs).length := by
    have := congrArg List.length hpayloadF
    rw [List.length_take, List.length_drop] at this
    omega
  rw [hlength] at hpayloadF
  refine ⟨_, _, (new_found (hasHeader_riffFile hsize hfits) hread).1 hfields, rfl, rfl,
    number_payload (k := 2) (n := 2) hpayloadF (by decide),
    number_payload (k := 4) (n := 4) hpayloadF (by decide),
    number_payload (k := 14) (n := 2) hpayloadF (by decide), ?_⟩
  rw [waveAt, hchunkD]
  exact hpayloadD

/-- In a file whose chunks in front of the last one that is needed have even sizes, the first format
and the first data are found exactly if the file can be walked through. -/
theorem findsChunks_iff (hsize : size.length = 4) (hcs : ∀ c ∈ cs, c.WellFormed)
    (hformat : cs.find? (·.IsFormat) = some format) (hlength : format.payload.length = 16)
    (hdata : cs.find? (·.IsData) = some data)
    (heven : ∀ c ∈ cs.take (lastNeeded cs), c.payload.length % 2 = 0) :
    Finds (riffFile size cs) cs format data ↔ Tolerated (riffFile size cs) cs := by
  have hlast : lastNeeded cs < cs.length := by
    have hf := List.findIdx_lt_length_of_exists
      ⟨format, List.mem_of_find?_eq_some hformat, List.find?_some hformat⟩
    have hd := List.findIdx_lt_length_of_exists
      ⟨data, List.mem_of_find?_eq_some hdata, List.find?_some hdata⟩
    exact Nat.max_lt.mpr ⟨hf, hd⟩
  obtain ⟨⟨f, hf⟩, hformatIff⟩ := lastPlace_take_iff (m := lastNeeded cs + 1) hformat
    (Nat.lt_succ_of_le (Nat.le_max_left ..))
  obtain ⟨⟨d, hd⟩, hdataIff⟩ := lastPlace_take_iff (m := lastNeeded cs + 1) hdata
    (Nat.lt_succ_of_le (Nat.le_max_right ..))
  rw [hf] at hformatIff
  rw [hd] at hdataIff
  constructor
  · rintro ⟨fuel, wave, hnew, hplaceF, hplaceD, -⟩
    have hfits : (riffFile size cs).length < 2 ^ 31 := by
      by_contra hlarge
      obtain ⟨e, he⟩ := new_of_not_hasHeader (fun hheader ↦ hlarge hheader.2.1) fuel
      rw [hnew] at he
      cases he
    have hheader := hasHeader_riffFile hsize hfits
    have hread := readChunks_of_new hheader hnew
    obtain ⟨p, hp, hwanting, hnext, hneeded⟩ := passes_needed hsize hfits hcs hlast heven
    have hmore : 8 < ((cs.drop (lastNeeded cs)).flatMap RiffChunk.bytes).length := by
      -- the descriptor of the last chunk has not been refused
      obtain ⟨fuel', -, hfrom⟩ := hp.readFrom hfits hread
      cases fuel' with
      | zero => rw [readFrom_zero hwanting] at hfrom; cases hfrom
      | succ fuel' =>
        rcases (inRange_of_readFrom hheader.1 hfits hwanting hfrom).readFrom
          hfits hwanting fuel' with ⟨e, he⟩ | ⟨place, hplace, hdescriptor, -⟩
        · rw [hfrom] at he
          cases he
        · have hrest := congrArg List.length (drop_chunks hsize cs (lastNeeded cs))
          rw [List.length_drop] at hrest
          omega
    obtain ⟨next, hpasses⟩ := hneeded hmore
    rw [hf, hd] at hpasses
    obtain ⟨fuel', -, hfrom⟩ := hpasses.readFrom hfits hread
    rw [readFrom_found] at hfrom
    have hchunks := Except.ok.inj (Option.some.inj hfrom)
    have hF : (f : Int) + 8 = wave.format.data := congrArg (·.1.data) hchunks
    have hD : (d : Int) + 8 = wave.data.data := congrArg (·.2.data) hchunks
    exact ⟨hfits, hformatIff.mp (congrArg some (by omega)), hdataIff.mp (congrArg some (by omega)),
      hmore⟩
  · rintro ⟨hfits, hcountF, hcountD, hmore⟩
    obtain ⟨p, -, -, -, hneeded⟩ := passes_needed hsize hfits hcs hlast heven
    obtain ⟨next, hpasses⟩ := hneeded hmore
    rw [hf, hd, hformatIff.mpr hcountF, hdataIff.mpr hcountD] at hpasses
    exact finds_of_passes hsize hfits hcs hformat hlength hdata hpasses

/-- A stereo file with a chunk of an even size in front of the data. -/
theorem finds_stereo :
    let format : RiffChunk :=
      ⟨str "fmt ", [1, 0, 2, 0, 0x44, 0xAC, 0, 0, 0x10, 0xB1, 2, 0, 4, 0, 16, 0], 0⟩
    let data : RiffChunk := ⟨str "data", [1, 2, 3, 4], 0⟩
    let cs := [format, ⟨str "LIST", [1, 2], 0⟩, data]
    Finds (riffFile [50, 0, 0, 0] cs) cs format data ↔ Tolerated (riffFile [50, 0, 0, 0] cs) cs :=
  findsChunks_iff rfl (by decide) (by decide) rfl (by decide) (by decide)

/-- A file with a chunk of an odd size between the format and the data. -/
def oddChunk : List RiffChunk :=
  [⟨str "fmt ", [1, 0, 2, 0, 0x44, 0xAC, 0, 0, 0x10, 0xB1, 2, 0, 4, 0, 16, 0], 0⟩,
    ⟨str "LIST", [1], 0⟩, ⟨str "data", [1, 2, 3, 4], 0⟩]

theorem not_finds_oddChunk :
    ¬ ∃ format data, Finds (riffFile [50, 0, 0, 0] oddChunk) oddChunk format data := by
  rintro ⟨format, data, fuel, wave, hnew, -⟩
  have hfits : (riffFile [50, 0, 0, 0] oddChunk).length < 2 ^ 31 := by decide
  have hread := readChunks_of_new (hasHeader_riffFile rfl hfits) hnew
  have hformat : Passes _ 1 (Passed.pass (riffFile [50, 0, 0, 0] oddChunk) ⟨none, none, 12⟩ 12) :=
    Passes.start.pass (.inl rfl) rfl (by decide) (by decide)
  rw [show Passed.pass _ ⟨none, none, 12⟩ 12 = ⟨some 12, none, 36⟩ by decide] at hformat
  have hlist : Passes _ 2 (Passed.pass (riffFile [50, 0, 0, 0] oddChunk) ⟨some 12, none, 36⟩ 36) :=
    hformat.pass (.inr rfl) rfl (by decide) (by decide)
  rw [show Passed.pass _ ⟨some 12, none, 36⟩ 36 = ⟨some 12, none, 45⟩ by decide] at hlist
  -- the next descriptor is looked for at the byte of padding
  obtain ⟨fuel', -, hfrom⟩ := hlist.readFrom hfits hread
  cases fuel' with
  | zero => cases hfrom
  | succ fuel' =>
    rcases (inRange_of_readFrom (by decide) hfits (.inr rfl) hfrom).readFrom hfits (.inr rfl)
      fuel' with ⟨e, he⟩ | ⟨place, hplace, -, hlength⟩
    · rw [hfrom] at he
      cases he
    · cases Int.ofNat.inj hplace
      exact absurd hlength (by decide)

end WavLoader

end Vuknob
