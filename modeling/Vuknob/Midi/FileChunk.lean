import Mathlib.Algebra.Order.Ring.Int
import Mathlib.Data.List.Basic

/-!
# Chunks of a MIDI file

`MidiExport::Chunk`, `src_jni/midi_export.cc:44–185`. The bytes of a chunk are in a block of memory
that is doubled, at most once for each push, when they would come near its end.
-/

namespace Vuknob

/-- Why there is no file: an exception because of memory, a write behind the end of a block, or
arithmetic or a pointer for which the source is undefined. -/
inductive ExportFailure
  | outOfMemory
  | outOfBounds
  | undefined
  deriving DecidableEq

/-- `MidiExport::Chunk`, `src_jni/midi_export.hh:37–50`. `data` is what is behind the first eight
bytes of the block, so that `current_offset` is eight more than its length. -/
structure Chunk where
  header : List UInt8
  wasDropped : Bool
  allocatedLength : Nat
  data : List UInt8

namespace Chunk

/-- The index of the next byte. -/
def currentOffset (c : Chunk) : Nat := 8 + c.data.length

section Memory

-- which sizes of blocks are granted
variable (memory : Nat → Bool)

/-- The constructor, `src_jni/midi_export.cc:44–55`. -/
def new (header : List UInt8) : Except ExportFailure Chunk :=
  if memory 128 then .ok ⟨header, false, 128, []⟩ else .error .outOfMemory

/-- `verify_fit`, `src_jni/midi_export.cc:80–90`. `realloc` gives no block for the size zero. -/
def verifyFit (length : Nat) (c : Chunk) : Except ExportFailure Chunk :=
  if c.allocatedLength ≤ (c.currentOffset + length) % 2 ^ 32 then
    let size := c.allocatedLength * 2 % 2 ^ 32
    if size ≠ 0 ∧ memory size = true then .ok { c with allocatedLength := size }
    else .error .outOfMemory
  else .ok c

/-- `data[current_offset++] = byte`. -/
def put (c : Chunk) (byte : UInt8) : Except ExportFailure Chunk :=
  if c.currentOffset < c.allocatedLength then .ok { c with data := c.data ++ [byte] }
  else .error .outOfBounds

/-- `push_u8b_word`, `src_jni/midi_export.cc:105–108`. -/
def pushU8bWord (c : Chunk) (word : UInt8) : Except ExportFailure Chunk := do
  let c ← c.verifyFit memory 1
  c.put word

/-- `push_u16b_word`, `src_jni/midi_export.cc:110–114`. -/
def pushU16bWord (c : Chunk) (word : UInt16) : Except ExportFailure Chunk := do
  let c ← c.verifyFit memory 2
  let c ← c.put ((word &&& 0xff00) >>> 8).toUInt8
  c.put (word &&& 0x00ff).toUInt8

/-- The bytes of `push_u32b_word_var_len`, `src_jni/midi_export.cc:135–180`; `result` is carried
from one to the next. -/
def varLen (word : UInt32) : List UInt8 :=
  let word := word &&& 0x0fffffff
  let first := word &&& 0x0fc00000 ≠ 0
  let result : UInt32 :=
    if first then ((0x80000000 : UInt32) ||| ((0x0fe00000 &&& word) <<< 3)) >>> 24 else 0
  let second := first ∨ word &&& 0x001fc000 ≠ 0
  let result' :=
    if second then (result ||| ((0x00800000 : UInt32) ||| ((0x001fc0000 &&& word) <<< 2))) >>> 16
    else result
  let third := second ∨ word &&& 0x00003f80 ≠ 0
  let result'' := (result' ||| ((0x00008000 : UInt32) ||| ((0x3f80 &&& word) <<< 1))) >>> 8
  (if first then [result.toUInt8] else []) ++ (if second then [result'.toUInt8] else []) ++
    (if third then [result''.toUInt8] else []) ++ [(word &&& 0x0000007f).toUInt8]

/-- `push_u32b_word_var_len`, `src_jni/midi_export.cc:132–181`. -/
def pushU32bWordVarLen (c : Chunk) (word : UInt32) : Except ExportFailure Chunk := do
  let c ← c.verifyFit memory 4
  (varLen word).foldlM put c

/-- `tn_strlen`, `src_jni/midi_export.cc:97–98`. -/
def tnStrlen (str : List UInt8) : Int := ((str.takeWhile (· ≠ 0)).length : Int).bmod (2 ^ 32)

/-- `push_string`, `src_jni/midi_export.cc:96–103`. -/
def pushString (c : Chunk) (str : List UInt8) : Except ExportFailure Chunk := do
  let c ← c.pushU32bWordVarLen memory (UInt32.ofInt (tnStrlen str))
  (str.take (tnStrlen str).toNat).foldlM (pushU8bWord memory) c

end Memory

/-- `drop`, `src_jni/midi_export.cc:92–94`. -/
def drop (c : Chunk) : Chunk := { c with wasDropped := true }

/-- The length of a chunk in its first bytes, `src_jni/midi_export.cc:68–71`. -/
def sizeBytes (size : UInt32) : List UInt8 :=
  [((size &&& 0xff000000) >>> 24).toUInt8, ((size &&& 0x00ff0000) >>> 16).toUInt8,
    ((size &&& 0x0000ff00) >>> 8).toUInt8, (size &&& 0x000000ff).toUInt8]

/-- What `finalize` writes, `src_jni/midi_export.cc:61–76`. -/
def finalize (c : Chunk) : List UInt8 :=
  let finalSize := UInt32.ofNat (c.currentOffset - 8)
  if c.wasDropped ∨ finalSize = 0 then [] else c.header ++ sizeBytes finalSize ++ c.data

end Chunk

/-! ### Calls on a chunk -/

/-- A call on a chunk. -/
inductive Push
  | u8bWord (word : UInt8)
  | u16bWord (word : UInt16)
  | u32bWordVarLen (word : UInt32)
  | string (str : List UInt8)

/-- The bytes of a call. -/
def Push.bytes : Push → List UInt8
  | u8bWord word => [word]
  | u16bWord word => [((word &&& 0xff00) >>> 8).toUInt8, (word &&& 0x00ff).toUInt8]
  | u32bWordVarLen word => Chunk.varLen word
  | string str =>
    Chunk.varLen (UInt32.ofInt (Chunk.tnStrlen str)) ++ str.take (Chunk.tnStrlen str).toNat

namespace Chunk

/-- Carry out a call. -/
def push (memory : Nat → Bool) (c : Chunk) : Push → Except ExportFailure Chunk
  | .u8bWord word => c.pushU8bWord memory word
  | .u16bWord word => c.pushU16bWord memory word
  | .u32bWordVarLen word => c.pushU32bWordVarLen memory word
  | .string str => c.pushString memory str

/-- The bytes fit in the block, which is of a size that doubling from the first one gives. -/
structure Fits (c : Chunk) : Prop where
  inside : c.currentOffset < c.allocatedLength
  doubled : ∃ k ≤ 24, c.allocatedLength = 128 * 2 ^ k

/-- What comes of pushing bytes: they are pushed, or there is no memory for them. -/
def Pushed (memory : Nat → Bool) (c : Chunk) (bytes : List UInt8)
    (result : Except ExportFailure Chunk) : Prop :=
  (result = .error .outOfMemory ∧
      ((∃ size, memory size = false) ∨ 2 ^ 31 ≤ c.currentOffset + bytes.length + 4)) ∨
    ∃ size, result = .ok { c with allocatedLength := size, data := c.data ++ bytes } ∧
      Fits { c with allocatedLength := size, data := c.data ++ bytes }

variable {memory : Nat → Bool}

theorem pushed_nil {c : Chunk} (h : c.Fits) : c.Pushed memory [] (.ok c) := by
  refine .inr ⟨c.allocatedLength, ?_, ?_⟩
  · rw [List.append_nil]
  · rw [List.append_nil]
    exact h

/-- One after the other. -/
theorem Pushed.bind {c : Chunk} {first second : List UInt8} {result : Except ExportFailure Chunk}
    {next : Chunk → Except ExportFailure Chunk} (h : c.Pushed memory first result)
    (hnext : ∀ size, Fits { c with allocatedLength := size, data := c.data ++ first } →
      Pushed memory { c with allocatedLength := size, data := c.data ++ first } second
        (next { c with allocatedLength := size, data := c.data ++ first })) :
    c.Pushed memory (first ++ second) (result >>= next) := by
  rcases h with ⟨rfl, hmemory⟩ | ⟨size, rfl, hfits⟩
  · refine .inl ⟨rfl, hmemory.imp_right fun hsize ↦ ?_⟩
    rw [List.length_append]
    omega
  · rcases hnext size hfits with ⟨hfail, hmemory⟩ | ⟨size', hok, hfits'⟩
    · refine .inl ⟨hfail, hmemory.imp_right fun hsize ↦ ?_⟩
      simp only [currentOffset, List.length_append] at hsize ⊢
      omega
    · refine .inr ⟨size', ?_, ?_⟩
      · rw [← List.append_assoc]
        exact hok
      · rw [← List.append_assoc]
        exact hfits'

theorem foldlM_put {c : Chunk} {bytes : List UInt8}
    (h : c.currentOffset + bytes.length ≤ c.allocatedLength) :
    bytes.foldlM put c = .ok { c with data := c.data ++ bytes } := by
  induction bytes generalizing c with
  | nil =>
    rw [List.append_nil]
    rfl
  | cons byte bytes ih =>
    rw [List.length_cons] at h
    have hput : c.put byte = .ok { c with data := c.data ++ [byte] } := if_pos (by omega)
    rw [List.foldlM_cons, hput]
    have hrest := ih (c := { c with data := c.data ++ [byte] }) (by
      simp only [currentOffset, List.length_append, List.length_singleton] at h ⊢
      omega)
    rw [List.append_assoc] at hrest
    exact hrest

/-- What `verify_fit` does: there is room for the bytes that it is called for. -/
theorem verifyFit_spec {c : Chunk} (h : c.Fits) {length : Nat} (hlength : length ≤ 4) :
    (c.verifyFit memory length = .error .outOfMemory ∧
        ((∃ size, memory size = false) ∨ 2 ^ 31 ≤ c.currentOffset + 4)) ∨
      ∃ k ≤ 24, c.verifyFit memory length = .ok { c with allocatedLength := 128 * 2 ^ k } ∧
        c.currentOffset + length < 128 * 2 ^ k := by
  obtain ⟨hinside, k, hk, hsize⟩ := h
  have hpow : 2 ^ k ≤ 2 ^ 24 := Nat.pow_le_pow_right (by decide) hk
  have hone : 1 ≤ 2 ^ k := Nat.one_le_two_pow
  rw [verifyFit, hsize, Nat.mod_eq_of_lt (by omega)]
  split
  · next hlow =>
    rcases Nat.lt_or_ge k 24 with hlt | hge
    · have hnext : 2 ^ (k + 1) ≤ 2 ^ 24 := Nat.pow_le_pow_right (by decide) hlt
      have hdouble : 128 * 2 ^ k * 2 % 2 ^ 32 = 128 * 2 ^ (k + 1) := by
        rw [Nat.pow_succ] at hnext ⊢
        omega
      simp only [hdouble]
      split
      · refine .inr ⟨k + 1, hlt, rfl, ?_⟩
        rw [Nat.pow_succ]
        omega
      · next hno =>
        refine .inl ⟨rfl, .inl ⟨_, Bool.eq_false_iff.mpr fun hyes ↦ hno ⟨?_, hyes⟩⟩⟩
        have := Nat.one_le_two_pow (n := k + 1)
        omega
    · obtain rfl : k = 24 := by omega
      exact .inl ⟨rfl, .inr (by omega)⟩
  · next hroom =>
    refine .inr ⟨k, hk, ?_, by omega⟩
    rw [← hsize]

/-- `verify_fit` and the bytes after it. -/
theorem pushed_verifyFit {c : Chunk} (h : c.Fits) {length : Nat} (hlength : length ≤ 4)
    {bytes : List UInt8} (hbytes : bytes.length ≤ length) :
    c.Pushed memory bytes (c.verifyFit memory length >>= fun c ↦ bytes.foldlM put c) := by
  rcases @verifyFit_spec memory c h length hlength with ⟨hfail, hmemory⟩ | ⟨k, hk, hok, hroom⟩
  · rw [hfail]
    exact .inl ⟨rfl, hmemory.imp_right fun hsize ↦ by omega⟩
  · rw [hok]
    refine .inr ⟨128 * 2 ^ k, ?_, ?_, k, hk, rfl⟩
    · exact foldlM_put (c := { c with allocatedLength := 128 * 2 ^ k }) (by
        show c.currentOffset + bytes.length ≤ 128 * 2 ^ k
        omega)
    · show 8 + (c.data ++ bytes).length < 128 * 2 ^ k
      rw [List.length_append]
      simp only [currentOffset] at hroom
      omega

theorem length_varLen (word : UInt32) : (varLen word).length ≤ 4 := by
  simp only [varLen]
  split <;> split <;> split <;> simp

theorem pushed_pushU8bWord {c : Chunk} (h : c.Fits) (word : UInt8) :
    c.Pushed memory [word] (c.pushU8bWord memory word) := by
  have hpushed : c.Pushed memory [word]
      (c.verifyFit memory 1 >>= fun c ↦ [word].foldlM put c) :=
    pushed_verifyFit h (by decide) (Nat.le_refl _)
  simp only [List.foldlM_cons, List.foldlM_nil, bind_pure] at hpushed
  exact hpushed

theorem pushed_foldlM {c : Chunk} (h : c.Fits) (bytes : List UInt8) :
    c.Pushed memory bytes (bytes.foldlM (pushU8bWord memory) c) := by
  induction bytes generalizing c with
  | nil => exact pushed_nil h
  | cons byte bytes ih =>
    rw [List.foldlM_cons, ← List.singleton_append]
    exact (pushed_pushU8bWord h byte).bind fun size hfits ↦ ih hfits

theorem pushed_push {c : Chunk} (h : c.Fits) (push : Push) :
    c.Pushed memory push.bytes (c.push memory push) := by
  cases push with
  | u8bWord word => exact pushed_pushU8bWord h word
  | u16bWord word =>
    have hpushed : c.Pushed memory (Push.u16bWord word).bytes (c.verifyFit memory 2 >>=
        fun c ↦ (Push.u16bWord word).bytes.foldlM put c) :=
      pushed_verifyFit h (by decide) (Nat.le_refl _)
    simp only [Push.bytes, List.foldlM_cons, List.foldlM_nil, bind_pure] at hpushed
    exact hpushed
  | u32bWordVarLen word => exact pushed_verifyFit h (by decide) (length_varLen word)
  | string str =>
    have hlength : c.Pushed memory (varLen (UInt32.ofInt (tnStrlen str)))
        (c.pushU32bWordVarLen memory (UInt32.ofInt (tnStrlen str))) :=
      pushed_verifyFit h (by decide) (length_varLen _)
    exact hlength.bind fun size hfits ↦ pushed_foldlM hfits _

/-- Calls one after the other. -/
theorem pushed_pushAll {c : Chunk} (h : c.Fits) (pushes : List Push) :
    c.Pushed memory (pushes.flatMap Push.bytes) (pushes.foldlM (push memory) c) := by
  induction pushes generalizing c with
  | nil => exact pushed_nil h
  | cons call pushes ih =>
    rw [List.foldlM_cons, List.flatMap_cons]
    exact (pushed_push h call).bind fun size hfits ↦ ih hfits

/-- A new chunk. -/
theorem new_spec (header : List UInt8) :
    (new memory header = .error .outOfMemory ∧ ∃ size, memory size = false) ∨
      new memory header = .ok ⟨header, false, 128, []⟩ ∧ Fits ⟨header, false, 128, []⟩ := by
  rw [new]
  split
  · refine .inr ⟨rfl, ?_, 0, Nat.zero_le _, rfl⟩
    show 8 + 0 < 128
    decide
  · next hno => exact .inl ⟨rfl, 128, Bool.eq_false_iff.mpr hno⟩

/-! ### Chunks in a file -/

/-- The number that some bytes are, the highest first. -/
def bigEndian (bytes : List UInt8) : Nat := bytes.foldl (fun n byte ↦ 256 * n + byte.toNat) 0

/-- The bytes are a chunk: its header, the number of the bytes of its payload, and the payload. -/
def IsChunk (header payload bytes : List UInt8) : Prop :=
  ∃ size, size.length = 4 ∧ bigEndian size = payload.length ∧ bytes = header ++ size ++ payload

/-- A byte that is masked out and shifted down. -/
theorem byte_eq (n k : Nat) : (n &&& 0xff <<< k) >>> k % 256 = n / 2 ^ k % 256 := by
  rw [Nat.shiftRight_and_distrib, Nat.shiftLeft_shiftRight, Nat.and_two_pow_sub_one_eq_mod _ 8,
    Nat.shiftRight_eq_div_pow, Nat.mod_mod]

theorem bigEndian_sizeBytes (size : UInt32) : bigEndian (sizeBytes size) = size.toNat := by
  have hlt := size.toNat_lt
  simp only [bigEndian, sizeBytes, List.foldl_cons, List.foldl_nil, UInt32.toNat_toUInt8,
    UInt32.toNat_shiftRight, UInt32.toNat_and]
  generalize size.toNat = n at hlt ⊢
  show 256 * (256 * (256 * (256 * 0 + (n &&& 0xff <<< 24) >>> 24 % 256) +
    (n &&& 0xff <<< 16) >>> 16 % 256) + (n &&& 0xff <<< 8) >>> 8 % 256) +
      (n &&& 0xff <<< 0) >>> 0 % 256 = n
  rw [byte_eq, byte_eq, byte_eq, byte_eq]
  omega

theorem bigEndian_u16bWord (word : UInt16) : bigEndian (Push.u16bWord word).bytes = word.toNat := by
  have hlt := word.toNat_lt
  simp only [bigEndian, Push.bytes, List.foldl_cons, List.foldl_nil, UInt16.toNat_toUInt8,
    UInt16.toNat_shiftRight, UInt16.toNat_and]
  generalize word.toNat = n at hlt ⊢
  show 256 * (256 * 0 + (n &&& 0xff <<< 8) >>> 8 % 256) + (n &&& 0xff <<< 0) >>> 0 % 256 = n
  rw [byte_eq, byte_eq]
  omega

/-- A chunk that is not dropped and not empty is written with the length of its data. -/
theorem isChunk_finalize {c : Chunk} (h : c.Fits) (hdropped : c.wasDropped = false)
    (hdata : c.data ≠ []) : IsChunk c.header c.data c.finalize := by
  obtain ⟨hinside, k, hk, hsize⟩ := h
  have hpow : 2 ^ k ≤ 2 ^ 24 := Nat.pow_le_pow_right (by decide) hk
  have hoffset : c.currentOffset - 8 = c.data.length := Nat.add_sub_cancel_left ..
  have hlength : (UInt32.ofNat c.data.length).toNat = c.data.length := by
    rw [UInt32.toNat_ofNat_of_lt']
    rw [currentOffset] at hinside
    show c.data.length < 2 ^ 32
    omega
  have hpos : UInt32.ofNat c.data.length ≠ 0 := by
    intro hzero
    rw [hzero] at hlength
    exact hdata (List.length_eq_zero_iff.mp hlength.symm)
  refine ⟨sizeBytes (UInt32.ofNat c.data.length), rfl, ?_, ?_⟩
  · rw [bigEndian_sizeBytes, hlength]
  · rw [finalize, hoffset, hdropped]
    simp only [Bool.false_eq_true, hpos, or_self, if_false]

end Chunk

end Vuknob
