import Vuknob.Playback.Recordings
import Vuknob.Samples.WavLayout

/-!
# Loading what has been recorded

A recording is a file in the layout that `WavLoader` looks for, with two channels of 16 bits. Where
it is not too long to be loaded, each sample comes back with its upper bits, at half of its level.
-/

namespace Vuknob

open Library

/-! ## The samples of the file -/

/-- What the sink writes to its file for a sample, in the build with fixed-point numbers,
`src_jni/dynlib/liveout.c:2145–2161`. -/
def fileOutput (x : Int) : Int :=
  let x := if x < -2 ^ 24 then -2 ^ 24 else x
  let x := if x ≥ 0x01000000 then 0x00ffffff else x
  let out : BitVec 32 := BitVec.ofInt 32 (x * 2 ^ 7)
  let out := (out &&& 0xffff0000) >>> 16
  (out.truncate 16).toInt

/-- A sample between -1 and 1. -/
def clip (x : Int) : Int := max (-2 ^ 24) (min x 0x00ffffff)

theorem clip_fits (x : Int) : -2 ^ 24 ≤ clip x ∧ clip x < 2 ^ 24 := by
  rw [clip]
  omega

theorem mask_upper (v : BitVec 32) : (v &&& 0xffff0000) >>> 16 = v >>> 16 := by
  have hones : ∀ j < 16, (0xffff0000#32).getLsbD (16 + j) = true := by decide
  refine BitVec.eq_of_getLsbD_eq fun i hi ↦ ?_
  rw [BitVec.getLsbD_ushiftRight, BitVec.getLsbD_ushiftRight, BitVec.getLsbD_and]
  by_cases hlt : i < 16
  · rw [BitVec.ofNat_eq_ofNat, hones i hlt, Bool.and_true]
  · rw [BitVec.getLsbD_of_ge v _ (by omega), Bool.false_and]

theorem upper_toInt {w : Int} (hw : -2 ^ 31 ≤ w ∧ w < 2 ^ 31) :
    (((BitVec.ofInt 32 w) >>> 16).truncate 16).toInt = w / 2 ^ 16 := by
  have hlt : (w % ((2 ^ 32 : Nat) : Int)).toNat / 2 ^ 16 < 2 ^ 16 := by
    push_cast
    omega
  rw [BitVec.toInt_eq_toNat_bmod, BitVec.toNat_setWidth, BitVec.toNat_ushiftRight,
    BitVec.toNat_ofInt, Nat.shiftRight_eq_div_pow, Nat.mod_eq_of_lt hlt,
    Int.bmod_eq_iff (by decide)]
  push_cast
  omega

/-- The upper 16 bits of the 25 that a sample has. -/
theorem fileOutput_eq (x : Int) : fileOutput x = clip x / 512 := by
  have hclip : (if (if x < -2 ^ 24 then -2 ^ 24 else x) ≥ 0x01000000 then 0x00ffffff
      else if x < -2 ^ 24 then -2 ^ 24 else x) = clip x := by
    rw [clip]
    split <;> split <;> omega
  have hfits : -2 ^ 31 ≤ clip x * 2 ^ 7 ∧ clip x * 2 ^ 7 < 2 ^ 31 := by
    have := clip_fits x
    omega
  show ((((BitVec.ofInt 32 (_ * 2 ^ 7)) &&& 0xffff0000) >>> 16).truncate 16).toInt = _
  rw [hclip, mask_upper, upper_toInt hfits]
  omega

/-- The bytes of a period in the file. -/
def outputBytes (output : List Int) : List UInt8 :=
  output.flatMap fun x ↦ (bigEndian 2 (fileOutput x)).reverse

theorem length_outputBytes (output : List Int) :
    (outputBytes output).length = 2 * output.length := by
  rw [outputBytes, List.length_flatMap]
  simp only [List.length_reverse, length_bigEndian]
  rw [List.map_const', List.sum_replicate_nat, Nat.mul_comm]

/-! ## The layout of the file -/

/-- A byte that is masked and then shifted down. -/
theorem masked_byte {v w m : UInt32} {k : Nat} (hm : m.toNat = 255 * 2 ^ k)
    (hw : w.toNat = (v.toNat &&& m.toNat) >>> k) :
    w.toUInt8 = UInt8.ofInt ((v.toNat : Int) >>> k) := by
  rw [Nat.shiftRight_and_distrib, hm, Nat.shiftRight_eq_div_pow (255 * 2 ^ k),
    Nat.mul_div_cancel _ (Nat.two_pow_pos k), Nat.shiftRight_eq_div_pow] at hw
  have hmod : w.toNat = v.toNat / 2 ^ k % 256 := hw.trans (Nat.and_two_pow_sub_one_eq_mod _ 8)
  have hbyte := toNat_ofInt ((v.toNat : Int) >>> k)
  rw [Int.shiftRight_eq_div_pow] at hbyte ⊢
  rw [← UInt8.toNat_inj, UInt32.toNat_toUInt8, hmod]
  refine Int.ofNat_inj.mp (Eq.trans ?_ hbyte.symm)
  push_cast
  exact Int.emod_emod_of_dvd _ (by decide)

theorem headerBytes_eq (v : UInt32) : headerBytes v = (bigEndian 4 v.toNat).reverse := by
  have h₀ : (v &&& 0x000000ff).toUInt8 = UInt8.ofInt ((v.toNat : Int) >>> 0) := by
    refine masked_byte (k := 0) (m := 0x000000ff) rfl ?_
    rw [UInt32.toNat_and]
    rfl
  have h₁ : ((v &&& 0x0000ff00) >>> 8).toUInt8 = UInt8.ofInt ((v.toNat : Int) >>> 8) := by
    refine masked_byte (k := 8) (m := 0x0000ff00) rfl ?_
    rw [UInt32.toNat_shiftRight, UInt32.toNat_and]
    rfl
  have h₂ : ((v &&& 0x00ff0000) >>> 16).toUInt8 = UInt8.ofInt ((v.toNat : Int) >>> 16) := by
    refine masked_byte (k := 16) (m := 0x00ff0000) rfl ?_
    rw [UInt32.toNat_shiftRight, UInt32.toNat_and]
    rfl
  have h₃ : ((v &&& 0xff000000) >>> 24).toUInt8 = UInt8.ofInt ((v.toNat : Int) >>> 24) := by
    refine masked_byte (k := 24) (m := 0xff000000) rfl ?_
    rw [UInt32.toNat_shiftRight, UInt32.toNat_and]
    rfl
  rw [headerBytes, h₀, h₁, h₂, h₃]
  rfl

namespace WavLoader

/-- The format that the sink writes. -/
def sinkFormat (rate : UInt32) : RiffChunk :=
  ⟨str "fmt ", [0x01, 0x00] ++ [0x02, 0x00] ++ headerBytes rate ++ headerBytes (rate * 2 * 2) ++
    [0x04, 0x00] ++ [0x10, 0x00], 0⟩

theorem length_sinkFormat (rate : UInt32) : (sinkFormat rate).payload.length = 16 := rfl

/-- The data that the sink writes. -/
def sinkData (data : List UInt8) : RiffChunk := ⟨str "data", data, 0⟩

theorem isFormat_sinkFormat (rate : UInt32) : (sinkFormat rate).IsFormat := rfl

theorem not_isData_sinkFormat (rate : UInt32) : ¬ (sinkFormat rate).IsData := by
  show ¬ str "fmt " = str "data"
  decide

theorem isData_sinkData (data : List UInt8) : (sinkData data).IsData := rfl

theorem not_isFormat_sinkData (data : List UInt8) : ¬ (sinkData data).IsFormat := by
  show ¬ str "data" = str "fmt "
  decide

variable (rate : UInt32) {data : List UInt8}

theorem waveFile_eq (heven : data.length % 2 = 0) (hsmall : data.length < 2 ^ 32) :
    waveFile rate data =
      riffFile (headerBytes (UInt32.ofNat data.length + 36)) [sinkFormat rate, sinkData data] := by
  have hsize : (UInt32.ofNat data.length).toNat = data.length := UInt32.toNat_ofNat_of_lt hsmall
  have hpadding : (if data.length % 2 = 1 then [(0 : UInt8)] else []) = [] :=
    if_neg (by omega)
  have hdata : (sinkData data).bytes = str "data" ++
      (headerBytes (UInt32.ofNat data.length) ++ data) := by
    rw [RiffChunk.bytes, sinkData, hpadding, List.append_nil, headerBytes_eq, hsize]
  have hformat : (sinkFormat rate).bytes = str "fmt " ++ [0x10, 0x00, 0x00, 0x00] ++
      (sinkFormat rate).payload := by
    rw [RiffChunk.bytes, length_sinkFormat, if_neg (by decide), List.append_nil, List.append_assoc]
    rfl
  rw [waveFile, riffFile, List.flatMap_cons, List.flatMap_singleton, hdata, hformat]
  simp only [RiffWaveHeader.bytes, sinkFormat, List.append_assoc]

theorem wellFormed_sinkFormat (rate : UInt32) : (sinkFormat rate).WellFormed :=
  ⟨rfl, by rw [length_sinkFormat]; decide⟩

theorem wellFormed_sinkData (hsmall : data.length < 2 ^ 32) : (sinkData data).WellFormed :=
  ⟨rfl, hsmall⟩

theorem length_waveFile (rate : UInt32) (data : List UInt8) :
    (waveFile rate data).length = 44 + data.length := by
  rw [waveFile, List.length_append, RiffWaveHeader.length_bytes]

/-- The two chunks, one behind the other. -/
theorem drop_waveFile (heven : data.length % 2 = 0) (hsmall : data.length < 2 ^ 32) :
    (waveFile rate data).drop 12 = (sinkFormat rate).bytes ++ (sinkData data).bytes ∧
      (waveFile rate data).drop 36 = (sinkData data).bytes ++ [] := by
  have hdrop : (waveFile rate data).drop 12 = (sinkFormat rate).bytes ++ (sinkData data).bytes := by
    rw [waveFile_eq rate heven hsmall, drop_riffFile rfl, List.flatMap_cons, List.flatMap_singleton]
  refine ⟨hdrop, ?_⟩
  rw [List.append_nil, show 36 = 12 + 24 from rfl, ← List.drop_drop, hdrop]
  exact List.drop_left' (by rw [(wellFormed_sinkFormat rate).length_bytes, length_sinkFormat])

/-- The loop comes to both chunks. -/
theorem passes_waveFile (heven : data.length % 2 = 0) (hsmall : data.length + 44 < 2 ^ 31)
    (hne : data ≠ []) :
    ∃ next, Passes (waveFile rate data) 2 ⟨some 12, some 36, next⟩ := by
  have hformat := wellFormed_sinkFormat rate
  have hdata : (sinkData data).WellFormed := wellFormed_sinkData (by omega)
  have hpos := List.length_pos_of_ne_nil hne
  obtain ⟨hdrop₁₂, hdrop₃₆⟩ := drop_waveFile rate heven (by omega)
  have hlength : (sinkData data).bytes.length = 8 + data.length := by
    rw [hdata.length_bytes]
    show 8 + data.length + data.length % 2 = _
    omega
  have hplace : toInt32 ((12 : Nat) + ((sinkFormat rate).payload.length : Nat) + 8) = (36 : Nat) := by
    rw [length_sinkFormat]
    decide
  have hpasses := (show Passes (waveFile rate data) _ _ from .start).chunk (.inl rfl) rfl hformat hdrop₁₂
    (by rw [hformat.length_bytes, length_sinkFormat]; omega)
  rw [if_pos (isFormat_sinkFormat rate), if_neg (not_isData_sinkFormat rate), hplace] at hpasses
  have hpasses := hpasses.chunk (.inr rfl) rfl hdata hdrop₃₆ (by rw [hlength]; omega)
  rw [if_neg (not_isFormat_sinkData data), if_pos (isData_sinkData data)] at hpasses
  exact ⟨_, hpasses⟩

/-- The fields of a wave are those in the payload of its format. -/
theorem waveAt_fields {mapped payload : List UInt8} {f : Nat} (d : Nat)
    (h : (mapped.drop (f + 8)).take 16 = payload) :
    (waveAt mapped f d).channels = littleEndian ((payload.drop 2).take 2) ∧
      (waveAt mapped f d).sampleRate = littleEndian ((payload.drop 4).take 4) ∧
      (waveAt mapped f d).bitsPerSample = littleEndian ((payload.drop 14).take 2) :=
  ⟨number_payload (k := 2) (n := 2) h (by decide), number_payload (k := 4) (n := 4) h (by decide),
    number_payload (k := 14) (n := 2) h (by decide)⟩

/-- The fields of the format. -/
theorem fields_sinkFormat (rate : UInt32) :
    ((sinkFormat rate).payload.drop 2).take 2 = [0x02, 0x00] ∧
      ((sinkFormat rate).payload.drop 4).take 4 = headerBytes rate ∧
      ((sinkFormat rate).payload.drop 14).take 2 = [0x10, 0x00] := ⟨rfl, rfl, rfl⟩

/-- What is found in a file that the sink has written. -/
theorem new_waveFile (heven : data.length % 2 = 0) (hsmall : data.length + 44 < 2 ^ 31)
    (hne : data ≠ []) {fuel : Nat} (hfuel : 2 ≤ fuel) :
    ∃ wave, MemoryMappedWave.new fuel (some (waveFile rate data)) = some (.ok wave) ∧
      wave.channels = 2 ∧ wave.sampleRate = rate.toNat ∧ wave.bitsPerSample = 16 ∧
      wave.data.length = data.length ∧ wave.data.data = 44 := by
  have hfile := length_waveFile rate data
  have hfields : 12 + 24 ≤ (waveFile rate data).length := by omega
  obtain ⟨next, hpasses⟩ := passes_waveFile rate heven hsmall hne
  have hread := hpasses.readChunks (by omega) (fuel - 2)
  rw [Nat.sub_add_cancel hfuel, readFrom_found] at hread
  have hheader : HasHeader (waveFile rate data) := by
    have hriff := waveFile_eq rate heven (by omega)
    rw [hriff]
    refine hasHeader_riffFile rfl ?_
    rw [← hriff]
    omega
  obtain ⟨hdrop₁₂, hdrop₃₆⟩ := drop_waveFile rate heven (by omega)
  obtain ⟨-, hpayload⟩ := chunkAt_eq (wellFormed_sinkFormat rate) hdrop₁₂
  obtain ⟨hchunk, -⟩ := chunkAt_eq (wellFormed_sinkData (by omega)) hdrop₃₆
  rw [length_sinkFormat] at hpayload
  have hrate : littleEndian (headerBytes rate) = rate.toNat := by
    rw [headerBytes_eq]
    have hread : (littleEndian (bigEndian 4 rate.toNat).reverse : Int) = rate.toNat % 256 ^ 4 :=
      littleEndian_reverse rate.toNat
    have := rate.toNat_lt
    omega
  obtain ⟨hchannels, hsampleRate, hbits⟩ := waveAt_fields 36 hpayload
  obtain ⟨hfield₂, hfield₄, hfield₁₄⟩ := fields_sinkFormat rate
  rw [hfield₂] at hchannels
  rw [hfield₄, hrate] at hsampleRate
  rw [hfield₁₄] at hbits
  exact ⟨_, (new_found hheader hread).1 hfields, hchannels, hsampleRate, hbits,
    congrArg Chunk.length hchunk, congrArg Chunk.data hchunk⟩

/-! ## The samples that are loaded -/

/-- The bytes of a sample behind the header. -/
theorem readBytes_waveFile {output : List Int} (hsmall : 2 * output.length < 2 ^ 31) {i : Nat}
    (hi : i < output.length) :
    readBytes (fun k ↦ fetch (waveFile rate (outputBytes output)) (44 + k)) (2 * i : Nat) 2 =
      some (bigEndian 2 (fileOutput (output.getD i 0))).reverse := by
  have hlength := length_outputBytes output
  have hbyte : ∀ k < (outputBytes output).length,
      fetch (waveFile rate (outputBytes output)) (44 + (k : Int)) = (outputBytes output)[k]? := by
    intro k _
    have hplace : (44 + k : Int) = (44 + k : Nat) := rfl
    rw [hplace, fetch_natCast, waveFile, ← RiffWaveHeader.length_bytes,
      List.getElem?_append_right (Nat.le_add_right _ _), Nat.add_sub_cancel_left]
  rw [readBytes_eq hbyte (by omega) (by omega), outputBytes,
    StaticSignal.drop_flatMap fun x ↦ by rw [List.length_reverse, length_bigEndian]]
  rw [List.drop_eq_getElem_cons hi, List.flatMap_cons, List.getD_eq_getElem?_getD,
    List.getElem?_eq_getElem hi]
  exact congrArg some (List.take_left' (by rw [List.length_reverse, length_bigEndian]))

/-- A sample is loaded with the bits that it has in the file. -/
theorem ramValue_fileOutput (x : Int) :
    ramValue (bigEndian 2 (fileOutput x)).reverse = clip x / 512 * 256 := by
  have hfits := clip_fits x
  rw [ramValue_eq (.inr (.inl rfl)) (by rw [fileOutput_eq]; omega), fileOutput_eq]
  omega

/-- The signal that is made of a recording. -/
def recordedSignal (rate : UInt32) (output : List Int) (fname : StdString) : StaticSignal :=
  ⟨.zeroD, .fx8p24bit, 2, (output.length / 2 : Nat), toInt32 rate.toNat, fname, basename fname,
    output.map fun x ↦ clip x / 512 * 256⟩

/-- A recording in stereo that is short enough to be loaded. -/
theorem loadStaticSignal_waveFile {output : List Int} (hstereo : output.length % 2 = 0)
    (hne : output ≠ []) (hshort : output.length ≤ staticSignalRamSizeLimit) {fuel : Nat}
    (hfuel : 2 ≤ fuel) {malloc : Nat → Option (Nat → Int)} {garbage : Nat → Int}
    (hmalloc : malloc (4 * output.length) = some garbage) (fname : StdString)
    (staticIndex : Int) :
    ∃ wave, loadStaticSignal fuel malloc (some (waveFile rate (outputBytes output))) fname false
        staticIndex =
      some (.ok (wave, some (.replaceSignal staticIndex (recordedSignal rate output fname)))) := by
  have hlimit : staticSignalRamSizeLimit = 5292000 := rfl
  have hlength := length_outputBytes output
  obtain ⟨n, hn⟩ : ∃ n, output.length = 2 * n := ⟨output.length / 2, by omega⟩
  have hbytes : outputBytes output ≠ [] := by
    have := List.length_pos_of_ne_nil hne
    exact List.ne_nil_of_length_pos (by omega)
  obtain ⟨wave, hnew, hchannels, hrate, hbits, hdata, hplace⟩ :=
    new_waveFile rate (by omega) (by omega) hbytes hfuel
  have hsamples : wave.getLengthInSamples = some n := by
    rw [getLengthInSamples_eq, hchannels, hbits, hdata, if_pos (by decide)]
    exact congrArg some (by omega)
  have hram : 16 * n % 2 ^ 32 / 8 = 2 * n := by omega
  have hsize : n * 2 % 2 ^ 32 * 4 % 2 ^ 32 = 4 * output.length := by omega
  refine ⟨wave, ?_⟩
  rw [loadStaticSignal, hnew, Option.bind_eq_bind, Option.bind_some]
  show (wave.getLengthInSamples).bind _ = _
  rw [hsamples, Option.bind_some]
  have hnot : ¬ staticSignalRamSizeLimit < 2 * n := by omega
  let ram := (List.range (4 * output.length / 4)).map garbage
  have hloaded : loadToRam (fun i ↦ fetch (waveFile rate (outputBytes output)) (44 + i)) (2 : Nat)
      (n : Nat) (8 * 2 : Nat) ram =
      some ⟨true, output.map fun x ↦ clip x / 512 * 256⟩ := by
    have hrows : ram.length = n * 2 := by
      rw [List.length_map, List.length_range]
      omega
    rw [loadToRam_eq (fun i ↦ (bigEndian 2 (fileOutput (output.getD i 0))).reverse) (.inr (.inl rfl))
      hrows (by omega) fun i hi ↦ readBytes_waveFile rate (by omega) (by omega)]
    refine congrArg (some ∘ RamState.mk true) (List.ext_getElem ?_ fun i h₁ h₂ ↦ ?_)
    · rw [List.length_map, List.length_map, List.length_range]
      omega
    · rw [List.length_map] at h₂
      rw [List.getElem_map, List.getElem_map, List.getElem_range, ramValue_fileOutput,
        List.getD_eq_getElem?_getD, List.getElem?_eq_getElem h₂, Option.getD_some]
  have hn' : toInt32 n = n := toInt32_of_fits (by omega)
  have hhalf : output.length / 2 = n := by omega
  simp only [hchannels, hbits, hrate, hplace, hram, if_neg hnot, hsize, hmalloc, hn']
  show (loadToRam (fun i ↦ fetch (waveFile rate (outputBytes output)) (44 + i)) _ _ (8 * 2 : Nat)
    ram).bind _ = _
  rw [hloaded, Option.bind_some, recordedSignal, hhalf]
  rfl

end WavLoader

namespace Recorder

open WavLoader (loadStaticSignal recordedSignal staticSignalRamSizeLimit)

end Recorder

end Vuknob
