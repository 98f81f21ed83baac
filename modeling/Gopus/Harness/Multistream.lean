import Gopus.Harness.Loop

/-!
# `libopus_refdecode_multistream.c`

The multistream harness reads `"GMSI"`, a header of `u32`s (version `1`, `family`,
`channels`, `streams`, `coupled`, `frame_size`, `packet_count`, `mapping_len`,
`demix_len`), the mapping and demixing blobs, and `packet_count` length-prefixed packets
from `stdin`. It decodes them with a projection decoder when `family == 3` and with a
multistream decoder otherwise; the two branches run the same loop. It writes `"GMSO"`, the
number of floats decoded as a `u32`, and the floats.

`opus_multistream_decoder_create` reads `mapping[i]` for each of the `channels` outputs,
while the harness passes it a block of `mapping_len` bytes, `NULL` when `mapping_len` is
`0`: a mapping shorter than `channels` makes the creation read past its block. The
decoder's code is not part of this repository, so every creation on such a mapping is
taken as undefined behaviour, whatever the decoder would answer.

`refdecodeMultistream_ok` says what a run that returns `0` read and wrote, in either branch;
`refdecodeMultistream_undefined`, `refdecodeMultistream_undefined_of_total`,
`refdecodeMultistream_complete`, `refdecodeMultistream_complete_or_appendFailed`,
`refdecodeMultistream_truncated` and `refdecodeMultistream_error_stdout` are the
counterparts of the single-stream harness's results. The one difference in what reaches
`stdout`: this harness checks `decoded_len > UINT32_MAX` before it writes its magic.
-/

namespace Gopus

variable {α : Type}

/-- `GMSI_MAGIC`. -/
def gmsiMagic : List UInt8 := [0x47, 0x4D, 0x53, 0x49]

/-- `GMSO_MAGIC`. -/
def gmsoMagic : List UInt8 := [0x47, 0x4D, 0x53, 0x4F]

/-- The decoder of the branch `family` selects: the projection decoder `proj` when
`family == 3`, the multistream decoder `ms` otherwise. -/
def branchDecoder (family : UInt32) (proj ms : Decoder α) : Decoder α :=
  if family.toNat = 3 then proj else ms

/-- The end of `main` after the packet loop of either branch: the error of the loop,
`decoded output too large` past `UINT32_MAX` floats, or `write_exact(GMSO_MAGIC, 4) ||
write_u32((uint32_t)decoded_len) || (decoded_len > 0 && write_exact(decoded, decoded_len *
sizeof(float)))`, each write putting on `stdout` what `fwrite` writes. -/
def finishMultistream (w : ℕ) (fwrite : ℕ → ℕ → ℕ) (enc : α → List UInt8) :
    LoopOutcome α → HarnessOutcome
  | .error e => .error e []
  | .undefined => .undefined
  | .done v _ =>
    if v.outLen > 0xFFFFFFFF then .error .outputTooLarge []
    else writeThen fwrite [] gmsoMagic fun out =>
      writeThen fwrite out (u32Bytes (UInt32.ofNat v.outLen)) fun out =>
        if v.outLen > 0 then
          match writeDecoded w enc v with
          | none => .undefined
          | some bs => writeThen fwrite out bs .ok
        else .ok out

/-- `main` of `libopus_refdecode_multistream.c` on `stdin` `input`, with a `w`-bit
`size_t`, the C library answering as `libc` says, and the floats' bytes on `stdout` given
by `enc`. The demixing matrix and `coupled` only reach the decoders' creation, which `proj`
and `ms` stand for; the mapping reaches it too, read `channels` bytes far in the
multistream branch. -/
def refdecodeMultistreamWith (w : ℕ) (libc : Libc) (enc : α → List UInt8)
    (proj ms : Decoder α) (input : List UInt8) : HarnessOutcome :=
  match readExact 4 input with
  | none => .error .invalidMagic []
  | some (magic, input) =>
    if magic ≠ gmsiMagic then .error .invalidMagic []
    else match readHeader 8 input with
    | some ([family, channels, streams, _, frameSize, packetCount, mappingLen, demixLen],
        input) =>
      if channels.toNat = 0 ∨ streams.toNat = 0 ∨ frameSize.toNat = 0 then
        .error .invalidDimensions []
      else match readBlob libc.malloc mappingLen.toNat input with
      | none => .error .readMapping []
      | some (mapping, input) =>
        match readBlob libc.malloc demixLen.toNat input with
        | none => .error .readDemixing []
        | some (_, input) =>
          if channels.toNat > sizeMax w / frameSize.toNat ∨
              channels.toNat * frameSize.toNat % 2 ^ w > sizeMax w / 4 then
            .error .frameOverflow []
          else if !libc.malloc (channels.toNat * frameSize.toNat * 4 % 2 ^ w) then
            .error .allocFrame []
          else if family.toNat ≠ 3 ∧ mapping.length < channels.toNat then .undefined
          else if !(branchDecoder family proj ms).created then .error .createFailed []
          else
            finishMultistream w libc.fwrite enc (decodePackets w libc
              (branchDecoder family proj ms) channels.toNat frameSize.toNat packetCount.toNat
              [] .empty input)
    | _ => .error .readHeader []

/-- `main` of `libopus_refdecode_multistream.c` where `malloc` and the writes succeed and
`realloc` succeeds where `fits` says. -/
def refdecodeMultistream (w : ℕ) (fits : ℕ → Bool) (enc : α → List UInt8)
    (proj ms : Decoder α) (input : List UInt8) : HarnessOutcome :=
  refdecodeMultistreamWith w (.reliable fits) enc proj ms input

/-- No floats decoded, no floats written. -/
theorem flatMap_flatFloats_of_total_zero {calls : List ((ℕ → α) × ℕ)}
    (enc : α → List UInt8) (h : decodedTotal calls = 0) :
    (flatFloats calls).flatMap enc = [] := by
  rw [List.eq_nil_of_length_eq_zero ((length_flatFloats calls).trans h), List.flatMap_nil]

/-- An empty `decoded` array is written as no bytes. -/
theorem writeDecoded_of_outLen_eq_zero {w : ℕ} (enc : α → List UInt8) {v : FloatVec α}
    (h : v.outLen = 0) : writeDecoded w enc v = some [] := by
  rw [writeDecoded, h, Nat.zero_mul, Nat.zero_mod, Nat.zero_div]
  rfl

theorem readExact_gmsiMagic (input : List UInt8) :
    readExact 4 (gmsiMagic ++ input) = some (gmsiMagic, input) :=
  readExact_append gmsiMagic input

/-- The version and the eight fields of the header, read back. -/
theorem readHeader_multistream (family channels streams coupled frameSize packetCount
    mappingLen demixLen : UInt32) (input : List UInt8) :
    readHeader 8 (u32Bytes 1 ++ (u32Bytes family ++ (u32Bytes channels ++ (u32Bytes streams ++
      (u32Bytes coupled ++ (u32Bytes frameSize ++ (u32Bytes packetCount ++
      (u32Bytes mappingLen ++ (u32Bytes demixLen ++ input))))))))) =
      some ([family, channels, streams, coupled, frameSize, packetCount, mappingLen, demixLen],
        input) := by
  simpa only [List.map_cons, List.map_nil, List.flatten_cons, List.flatten_nil,
    List.append_nil, List.length_cons, List.length_nil, List.append_assoc] using
    readHeader_u32Bytes [family, channels, streams, coupled, frameSize, packetCount,
      mappingLen, demixLen] input

/-- A stream with the magic, a header that passes the checks and both blobs allocates the
frame buffer and comes to the creation of the decoder of the branch `family` selects. -/
theorem refdecodeMultistream_of_header {w : ℕ} {fits : ℕ → Bool} {enc : α → List UInt8}
    {proj ms : Decoder α} {input input1 input2 rest mapping demixing : List UInt8}
    {family channels streams coupled frameSize packetCount mappingLen demixLen : UInt32}
    (hhead : readHeader 8 input = some ([family, channels, streams, coupled, frameSize,
      packetCount, mappingLen, demixLen], input1))
    (hdim : ¬(channels.toNat = 0 ∨ streams.toNat = 0 ∨ frameSize.toNat = 0))
    (hmap : readBlob (Libc.reliable fits).malloc mappingLen.toNat input1 =
      some (mapping, input2))
    (hdemix : readBlob (Libc.reliable fits).malloc demixLen.toNat input2 =
      some (demixing, rest))
    (hover : ¬(channels.toNat > sizeMax w / frameSize.toNat ∨
      channels.toNat * frameSize.toNat % 2 ^ w > sizeMax w / 4)) :
    refdecodeMultistream w fits enc proj ms (gmsiMagic ++ input) =
      if family.toNat ≠ 3 ∧ mapping.length < channels.toNat then .undefined
      else if !(branchDecoder family proj ms).created then .error .createFailed []
      else finishMultistream w (fun _ n => n) enc (decodePackets w (.reliable fits)
        (branchDecoder family proj ms) channels.toNat frameSize.toNat packetCount.toNat []
        .empty rest) := by
  rw [refdecodeMultistream, refdecodeMultistreamWith, readExact_gmsiMagic]
  dsimp only
  rw [if_neg (not_not.2 rfl), hhead]
  dsimp only
  rw [if_neg hdim, hmap]
  dsimp only
  rw [hdemix]
  dsimp only
  rw [if_neg hover, Libc.reliable_malloc, Libc.reliable_fwrite]
  rfl

/-- A stream with the magic, version `1`, a header that passes the checks and both blobs
comes to the creation of the decoder of the branch `family` selects, before the packet loop
on the rest of `stdin`. -/
theorem refdecodeMultistream_of_stream {w : ℕ} {fits : ℕ → Bool} {enc : α → List UInt8}
    {proj ms : Decoder α} {family channels streams coupled frameSize packetCount : UInt32}
    (hdim : 0 < channels.toNat ∧ 0 < streams.toNat ∧ 0 < frameSize.toNat)
    (hframe : channels.toNat * frameSize.toNat ≤ sizeMax w / 4)
    {mapping demixing : List UInt8} (hmaplen : mapping.length < 2 ^ 32)
    (hdemixlen : demixing.length < 2 ^ 32) (input : List UInt8) :
    refdecodeMultistream w fits enc proj ms
        (gmsiMagic ++ u32Bytes 1 ++ u32Bytes family ++ u32Bytes channels ++
          u32Bytes streams ++ u32Bytes coupled ++ u32Bytes frameSize ++ u32Bytes packetCount ++
          u32Bytes (UInt32.ofNat mapping.length) ++ u32Bytes (UInt32.ofNat demixing.length) ++
          mapping ++ demixing ++ input) =
      if family.toNat ≠ 3 ∧ mapping.length < channels.toNat then .undefined
      else if !(branchDecoder family proj ms).created then .error .createFailed []
      else finishMultistream w (fun _ n => n) enc (decodePackets w (.reliable fits)
        (branchDecoder family proj ms) channels.toNat frameSize.toNat packetCount.toNat []
        .empty input) := by
  have hmap := readBlob_append mapping (demixing ++ input) (Libc.reliable_malloc fits _)
  have hdemix := readBlob_append demixing input (Libc.reliable_malloc fits _)
  rw [← UInt32.toNat_ofNat_of_lt hmaplen] at hmap
  rw [← UInt32.toNat_ofNat_of_lt hdemixlen] at hdemix
  simp only [List.append_assoc]
  exact refdecodeMultistream_of_header (readHeader_multistream _ _ _ _ _ _ _ _ _) (by omega)
    hmap hdemix (frameCheck_of_le (by omega) hframe)

/-- A valid stream's header and blobs, with a mapping of at least `channels` bytes in the
multistream branch, read in the branch `family` selects by a decoder that is created: the
run goes on as that branch's packet loop on the rest of `stdin`. -/
theorem refdecodeMultistream_of_stream_mapped {w : ℕ} {fits : ℕ → Bool}
    {enc : α → List UInt8} {proj ms : Decoder α}
    {family channels streams coupled frameSize packetCount : UInt32}
    (hcreated : (branchDecoder family proj ms).created = true)
    (hdim : 0 < channels.toNat ∧ 0 < streams.toNat ∧ 0 < frameSize.toNat)
    (hframe : channels.toNat * frameSize.toNat ≤ sizeMax w / 4)
    {mapping demixing : List UInt8} (hmaplen : mapping.length < 2 ^ 32)
    (hdemixlen : demixing.length < 2 ^ 32)
    (hmapped : family.toNat = 3 ∨ channels.toNat ≤ mapping.length) (input : List UInt8) :
    refdecodeMultistream w fits enc proj ms
        (gmsiMagic ++ u32Bytes 1 ++ u32Bytes family ++ u32Bytes channels ++
          u32Bytes streams ++ u32Bytes coupled ++ u32Bytes frameSize ++ u32Bytes packetCount ++
          u32Bytes (UInt32.ofNat mapping.length) ++ u32Bytes (UInt32.ofNat demixing.length) ++
          mapping ++ demixing ++ input) =
      finishMultistream w (fun _ n => n) enc (decodePackets w (.reliable fits)
        (branchDecoder family proj ms) channels.toNat frameSize.toNat packetCount.toNat []
        .empty input) := by
  rw [refdecodeMultistream_of_stream hdim hframe hmaplen hdemixlen, if_neg (by omega),
    hcreated]
  rfl

/-- Every run of the multistream harness, whatever the C library answers, either reports an
error before the packet loop, with nothing on `stdout`, or read `"GMSI"`, a header that
passes the checks and both blobs and allocated the frame buffer; then it reaches undefined
behaviour at the creation of a multistream decoder on a mapping shorter than `channels`, or
created the decoder of its branch and goes on as that branch's packet loop on the rest of
`stdin` ends. -/
theorem refdecodeMultistream_cases (w : ℕ) (libc : Libc) (enc : α → List UInt8)
    (proj ms : Decoder α) (input : List UInt8) :
    (∃ e, refdecodeMultistreamWith w libc enc proj ms input = .error e []) ∨
    ∃ (family channels streams coupled frameSize packetCount : UInt32)
      (mapping demixing rest : List UInt8),
      input = gmsiMagic ++ u32Bytes 1 ++ u32Bytes family ++ u32Bytes channels ++
        u32Bytes streams ++ u32Bytes coupled ++ u32Bytes frameSize ++ u32Bytes packetCount ++
        u32Bytes (UInt32.ofNat mapping.length) ++ u32Bytes (UInt32.ofNat demixing.length) ++
        mapping ++ demixing ++ rest ∧
      mapping.length < 2 ^ 32 ∧ demixing.length < 2 ^ 32 ∧
      0 < channels.toNat ∧ 0 < streams.toNat ∧ 0 < frameSize.toNat ∧
      channels.toNat * frameSize.toNat ≤ sizeMax w / 4 ∧
      (family.toNat ≠ 3 ∧ mapping.length < channels.toNat ∧
          refdecodeMultistreamWith w libc enc proj ms input = .undefined ∨
        (branchDecoder family proj ms).created = true ∧
          refdecodeMultistreamWith w libc enc proj ms input = finishMultistream w libc.fwrite enc
            (decodePackets w libc (branchDecoder family proj ms) channels.toNat frameSize.toNat
              packetCount.toNat [] .empty rest)) := by
  unfold refdecodeMultistreamWith
  rcases hmagic : readExact 4 input with _ | ⟨magic, input1⟩
  · exact .inl ⟨_, rfl⟩
  dsimp only
  by_cases hm : magic = gmsiMagic
  swap
  · rw [if_pos hm]
    exact .inl ⟨_, rfl⟩
  subst hm
  rw [if_neg (not_not.2 rfl)]
  rcases hhead : readHeader 8 input1 with _ | ⟨fields, input2⟩
  · exact .inl ⟨_, rfl⟩
  obtain ⟨hinput1, hlen8⟩ := readHeader_eq_some hhead
  obtain ⟨family, channels, streams, coupled, frameSize, packetCount, mappingLen, demixLen,
      rfl⟩ : ∃ a b c d e f g k, fields = [a, b, c, d, e, f, g, k] := by
    match fields, hlen8 with
    | [a, b, c, d, e, f, g, k], _ => exact ⟨a, b, c, d, e, f, g, k, rfl⟩
  dsimp only
  by_cases hdim : channels.toNat = 0 ∨ streams.toNat = 0 ∨ frameSize.toNat = 0
  · rw [if_pos hdim]
    exact .inl ⟨_, rfl⟩
  rw [if_neg hdim]
  rcases hmap : readBlob libc.malloc mappingLen.toNat input2 with _ | ⟨mapping, input3⟩
  · exact .inl ⟨_, rfl⟩
  dsimp only
  rcases hdemix : readBlob libc.malloc demixLen.toNat input3 with _ | ⟨demixing, input4⟩
  · exact .inl ⟨_, rfl⟩
  dsimp only
  by_cases hover : channels.toNat > sizeMax w / frameSize.toNat ∨
      channels.toNat * frameSize.toNat % 2 ^ w > sizeMax w / 4
  · rw [if_pos hover]
    exact .inl ⟨_, rfl⟩
  rw [if_neg hover]
  by_cases hframe : libc.malloc (channels.toNat * frameSize.toNat * 4 % 2 ^ w) = true
  swap
  · rw [if_pos (by simpa using hframe)]
    exact .inl ⟨_, rfl⟩
  rw [if_neg (by simpa using hframe)]
  obtain ⟨hinput2, hmaplen⟩ := readBlob_eq_some hmap
  obtain ⟨hinput3, hdemixlen⟩ := readBlob_eq_some hdemix
  have hinput : gmsiMagic ++ input1 = gmsiMagic ++ u32Bytes 1 ++ u32Bytes family ++
      u32Bytes channels ++ u32Bytes streams ++ u32Bytes coupled ++ u32Bytes frameSize ++
      u32Bytes packetCount ++ u32Bytes (UInt32.ofNat mapping.length) ++
      u32Bytes (UInt32.ofNat demixing.length) ++ mapping ++ demixing ++ input4 := by
    rw [hinput1, hinput2, hinput3, hmaplen, hdemixlen, uint32_ofNat_toNat, uint32_ofNat_toNat]
    simp only [List.map_cons, List.map_nil, List.flatten_cons, List.flatten_nil,
      List.append_nil, List.append_assoc]
  rw [(readExact_eq_some hmagic).1]
  by_cases hshort : family.toNat ≠ 3 ∧ mapping.length < channels.toNat
  · rw [if_pos hshort]
    exact .inr ⟨family, channels, streams, coupled, frameSize, packetCount, mapping, demixing,
      input4, hinput, hmaplen ▸ mappingLen.toNat_lt_size, hdemixlen ▸ demixLen.toNat_lt_size,
      by omega, by omega, by omega, frameCheck_le (by omega) hover, .inl ⟨hshort.1, hshort.2, rfl⟩⟩
  rw [if_neg hshort]
  by_cases hcreated : (branchDecoder family proj ms).created = true
  swap
  · rw [if_pos (by simpa using hcreated)]
    exact .inl ⟨_, rfl⟩
  rw [if_neg (by simpa using hcreated)]
  exact .inr ⟨family, channels, streams, coupled, frameSize, packetCount, mapping, demixing,
    input4, hinput, hmaplen ▸ mappingLen.toNat_lt_size, hdemixlen ▸ demixLen.toNat_lt_size,
    by omega, by omega, by omega, frameCheck_le (by omega) hover, .inr ⟨hcreated, rfl⟩⟩

/-- The contract of both decoders is the contract of the branch's. -/
theorem branchDecoder_decode_le {proj ms : Decoder α} (family : UInt32)
    (hproj : ∀ fs ps, (proj.decode fs ps).1 ≤ fs) (hms : ∀ fs ps, (ms.decode fs ps).1 ≤ fs)
    (fs : ℕ) (ps : List (List UInt8)) :
    ((branchDecoder family proj ms).decode fs ps).1 ≤ fs := by
  unfold branchDecoder
  split
  exacts [hproj fs ps, hms fs ps]

/-- What the end of the multistream harness returns `0` with: at most `UINT32_MAX` floats,
all its writes whole, and on `stdout` `"GMSO"`, their number and their bytes. -/
theorem finishMultistream_eq_ok {w : ℕ} {fwrite : ℕ → ℕ → ℕ} {enc : α → List UInt8}
    {o : LoopOutcome α} {out : List UInt8} (h : finishMultistream w fwrite enc o = .ok out) :
    ∃ v rest, o = .done v rest ∧ v.outLen ≤ 0xFFFFFFFF ∧ ∃ bs, writeDecoded w enc v = some bs ∧
      out = gmsoMagic ++ u32Bytes (UInt32.ofNat v.outLen) ++ bs := by
  cases o with
  | error e => cases h
  | undefined => cases h
  | done v rest =>
    rw [finishMultistream] at h
    split_ifs at h with hbig hpos <;> have h2 := writeThen_eq_ok (writeThen_eq_ok h)
    · split at h2
      · cases h2
      rename_i bs hbs
      cases writeThen_eq_ok h2
      exact ⟨v, rest, rfl, by omega, bs, hbs, rfl⟩
    · cases h2
      exact ⟨v, rest, rfl, by omega, [], writeDecoded_of_outLen_eq_zero enc (by omega),
        (List.append_nil _).symm⟩

/-- A run of the multistream harness that returns `0`, in either branch, whatever the C
library answers, with decoders that return at most `frame_size` from each call: `stdin`
begins with `"GMSI"`, version `1`, the header with nonzero `channels`, `streams` and
`frame_size`, the mapping and demixing blobs of the declared lengths, and `packet_count`
length-prefixed packets; every decode call of the branch's decoder returned at least `0`;
and `stdout` is `"GMSO"`, the number `T` of floats decoded as a `u32`, `T ≤ UINT32_MAX`, and
the first `decoded_samples * channels` floats of each frame in packet order. -/
theorem refdecodeMultistream_ok {w : ℕ} (hw : 4096 < 2 ^ w) (libc : Libc)
    (enc : α → List UInt8) {proj ms : Decoder α}
    (hproj : ∀ fs ps, (proj.decode fs ps).1 ≤ fs) (hms : ∀ fs ps, (ms.decode fs ps).1 ≤ fs)
    {input out : List UInt8}
    (h : refdecodeMultistreamWith w libc enc proj ms input = .ok out) :
    ∃ (family channels streams coupled frameSize packetCount : UInt32)
      (mapping demixing : List UInt8) (packets : List (List UInt8)) (rest : List UInt8),
      input = gmsiMagic ++ u32Bytes 1 ++ u32Bytes family ++ u32Bytes channels ++
        u32Bytes streams ++ u32Bytes coupled ++ u32Bytes frameSize ++ u32Bytes packetCount ++
        u32Bytes (UInt32.ofNat mapping.length) ++ u32Bytes (UInt32.ofNat demixing.length) ++
        mapping ++ demixing ++ (packets.map packetBytes).flatten ++ rest ∧
      mapping.length < 2 ^ 32 ∧ demixing.length < 2 ^ 32 ∧
      0 < channels.toNat ∧ 0 < streams.toNat ∧ 0 < frameSize.toNat ∧
      packets.length = packetCount.toNat ∧ (∀ p ∈ packets, p.length < 2 ^ 32) ∧
      (∀ k < packets.length,
        0 ≤ ((branchDecoder family proj ms).decode frameSize.toNat (packets.take (k + 1))).1) ∧
      decodedTotal (decodedCalls (branchDecoder family proj ms) channels.toNat frameSize.toNat
        packets) ≤ 0xFFFFFFFF ∧
      out = decodedOutput gmsoMagic enc
        (decodedCalls (branchDecoder family proj ms) channels.toNat frameSize.toNat packets) := by
  rcases refdecodeMultistream_cases w libc enc proj ms input with ⟨e, he⟩ |
    ⟨family, channels, streams, coupled, frameSize, packetCount, mapping, demixing, input4,
      hinput, hmaplen, hdemixlen, hc0, hs0, hf0, hframe, ⟨-, -, heq⟩ | ⟨-, heq⟩⟩
  · rw [he] at h
    cases h
  · rw [heq] at h
    cases h
  rw [heq] at h
  obtain ⟨v, rest, hloop, hbig, bs, hbs, rfl⟩ := finishMultistream_eq_ok h
  obtain ⟨packets, hcount, hshort, hrest, hok, hlen, hout⟩ := decodePackets_empty_done hw
    (branchDecoder_decode_le family hproj hms _) hframe enc hloop
  rw [hout] at hbs
  cases hbs
  refine ⟨family, channels, streams, coupled, frameSize, packetCount, mapping, demixing,
    packets, rest, ?_, hmaplen, hdemixlen, hc0, hs0, hf0, hcount, hshort,
    fun k hk => hok k (hcount ▸ hk), by omega, by rw [decodedOutput, ← hlen]⟩
  rw [hinput, hrest]
  simp only [List.append_assoc]

/-- A run of the multistream harness ends in undefined behaviour, in either branch, with
decoders that return at most `frame_size` from each call, only on a stream that begins with
`"GMSI"`, a header that passes the checks and both blobs, and then has a mapping shorter
than `channels` in the multistream branch, or packets whose floats number more than
`2 ^ w / 8`. -/
theorem refdecodeMultistream_undefined {w : ℕ} (hw : 4096 < 2 ^ w) (fits : ℕ → Bool)
    (enc : α → List UInt8) {proj ms : Decoder α}
    (hproj : ∀ fs ps, (proj.decode fs ps).1 ≤ fs) (hms : ∀ fs ps, (ms.decode fs ps).1 ≤ fs)
    {input : List UInt8} (h : refdecodeMultistream w fits enc proj ms input = .undefined) :
    ∃ (family channels streams coupled frameSize packetCount : UInt32)
      (mapping demixing rest : List UInt8),
      input = gmsiMagic ++ u32Bytes 1 ++ u32Bytes family ++ u32Bytes channels ++
        u32Bytes streams ++ u32Bytes coupled ++ u32Bytes frameSize ++ u32Bytes packetCount ++
        u32Bytes (UInt32.ofNat mapping.length) ++ u32Bytes (UInt32.ofNat demixing.length) ++
        mapping ++ demixing ++ rest ∧
      0 < channels.toNat ∧ 0 < streams.toNat ∧ 0 < frameSize.toNat ∧
      (family.toNat ≠ 3 ∧ mapping.length < channels.toNat ∨
        ∃ (packets : List (List UInt8)) (rest' : List UInt8),
          rest = (packets.map packetBytes).flatten ++ rest' ∧
          packets.length ≤ packetCount.toNat ∧
          (∀ k < packets.length, 0 ≤
            ((branchDecoder family proj ms).decode frameSize.toNat (packets.take (k + 1))).1) ∧
          2 ^ w < 8 * decodedTotal (decodedCalls (branchDecoder family proj ms) channels.toNat
            frameSize.toNat packets)) := by
  rw [refdecodeMultistream] at h
  rcases refdecodeMultistream_cases w (.reliable fits) enc proj ms input with ⟨e, he⟩ |
    ⟨family, channels, streams, coupled, frameSize, packetCount, mapping, demixing, input4,
      hinput, -, -, hc0, hs0, hf0, hframe, ⟨hfam, hshort, -⟩ | ⟨-, heq⟩⟩
  · rw [he] at h
    cases h
  · exact ⟨family, channels, streams, coupled, frameSize, packetCount, mapping, demixing,
      input4, hinput, hc0, hs0, hf0, .inl ⟨hfam, hshort⟩⟩
  rw [heq, Libc.reliable_fwrite] at h
  have hdec := branchDecoder_decode_le family hproj hms
  rcases hloop : decodePackets w (.reliable fits) (branchDecoder family proj ms) channels.toNat
    frameSize.toNat packetCount.toNat [] .empty input4 with ⟨v, rest⟩ | e | _ <;>
    rw [hloop] at h
  · obtain ⟨_, -, -, -, -, -, hout⟩ := decodePackets_empty_done hw (hdec _) hframe enc hloop
    simp only [finishMultistream, writeThen_all, hout] at h
    split_ifs at h
  · cases h
  · obtain ⟨packets, hcount, -, ⟨rest, hrest⟩, hok, hbig⟩ :=
      decodePackets_undefined hw (hdec _) hframe (holds_empty_decodedCalls _ _ _) hloop
    exact ⟨family, channels, streams, coupled, frameSize, packetCount, mapping, demixing,
      input4, hinput, hc0, hs0, hf0, .inr ⟨packets, rest, hrest, hcount, by simpa using hok,
        by simpa using hbig⟩⟩

theorem refdecodeMultistream_undefined_at_2pow29_frame :
    4096 < 2 ^ 32 ∧ (∀ fs ps, ((fullDecoder fun i : ℕ => i).decode fs ps).1 ≤ fs) ∧
    refdecodeMultistream 32 (fun _ => true) (fun x => [x.toUInt8]) (fullDecoder fun i => i)
        (fullDecoder fun i => i)
        (gmsiMagic ++ u32Bytes 1 ++ u32Bytes 0 ++ u32Bytes 1 ++ u32Bytes 1 ++ u32Bytes 0 ++
          u32Bytes 536870913 ++ u32Bytes 1 ++ u32Bytes (UInt32.ofNat [(0 : UInt8)].length) ++
          u32Bytes (UInt32.ofNat ([] : List UInt8).length) ++ [0] ++ [] ++
          ([([] : List UInt8)].map packetBytes).flatten ++ []) = .undefined ∧
    ∃ (family channels streams coupled frameSize packetCount : UInt32)
      (mapping demixing rest : List UInt8),
      gmsiMagic ++ u32Bytes 1 ++ u32Bytes 0 ++ u32Bytes 1 ++ u32Bytes 1 ++ u32Bytes 0 ++
          u32Bytes 536870913 ++ u32Bytes 1 ++ u32Bytes (UInt32.ofNat [(0 : UInt8)].length) ++
          u32Bytes (UInt32.ofNat ([] : List UInt8).length) ++ [0] ++ [] ++
          ([([] : List UInt8)].map packetBytes).flatten ++ [] =
        gmsiMagic ++ u32Bytes 1 ++ u32Bytes family ++ u32Bytes channels ++
        u32Bytes streams ++ u32Bytes coupled ++ u32Bytes frameSize ++ u32Bytes packetCount ++
        u32Bytes (UInt32.ofNat mapping.length) ++ u32Bytes (UInt32.ofNat demixing.length) ++
        mapping ++ demixing ++ rest ∧
      0 < channels.toNat ∧ 0 < streams.toNat ∧ 0 < frameSize.toNat ∧
      (family.toNat ≠ 3 ∧ mapping.length < channels.toNat ∨
        ∃ (packets : List (List UInt8)) (rest' : List UInt8),
          rest = (packets.map packetBytes).flatten ++ rest' ∧
          packets.length ≤ packetCount.toNat ∧
          (∀ k < packets.length, 0 ≤ ((branchDecoder family (fullDecoder fun i : ℕ => i)
            (fullDecoder fun i => i)).decode frameSize.toNat (packets.take (k + 1))).1) ∧
          2 ^ 32 < 8 * decodedTotal (decodedCalls (branchDecoder family
            (fullDecoder fun i : ℕ => i) (fullDecoder fun i => i)) channels.toNat
            frameSize.toNat packets)) := by
  have hloop : decodePackets 32 (.reliable fun _ => true)
      (branchDecoder 0 (fullDecoder fun i : ℕ => i) (fullDecoder fun i => i))
      (1 : UInt32).toNat (536870913 : UInt32).toNat (1 : UInt32).toNat [] .empty
      (([([] : List UInt8)].map packetBytes).flatten ++ []) = .undefined :=
    decodePackets_undefined_of_total (by decide) (fun _ => le_rfl) (by decide) [[]] []
      (holds_empty_decodedCalls _ _ _) (.inl rfl) (by decide) (by decide) (by decide)
      (by decide)
  have h : refdecodeMultistream 32 (fun _ => true) (fun x => [x.toUInt8])
      (fullDecoder fun i : ℕ => i) (fullDecoder fun i => i)
      (gmsiMagic ++ u32Bytes 1 ++ u32Bytes 0 ++ u32Bytes 1 ++ u32Bytes 1 ++ u32Bytes 0 ++
        u32Bytes 536870913 ++ u32Bytes 1 ++ u32Bytes (UInt32.ofNat [(0 : UInt8)].length) ++
        u32Bytes (UInt32.ofNat ([] : List UInt8).length) ++ [0] ++ [] ++
        ([([] : List UInt8)].map packetBytes).flatten ++ []) = .undefined := by
    rw [List.append_assoc _ _ [], refdecodeMultistream_of_stream_mapped (by rfl) (by decide)
      (by decide) (by decide) (by decide) (.inr (by decide)), hloop]
    rfl
  exact ⟨by decide, fun _ _ => le_rfl, h,
    refdecodeMultistream_undefined (by decide) _ _ (fun _ _ => le_rfl) (fun _ _ => le_rfl) h⟩

/-- What the end of the multistream harness leaves on `stdout` at an error: nothing after
an error of the loop or past `UINT32_MAX` floats, and at `failed to write output` after a
complete loop of at most `UINT32_MAX` floats, a prefix of `"GMSO"`, the number of floats
and their bytes. -/
theorem finishMultistream_error {w : ℕ} {fwrite : ℕ → ℕ → ℕ} {enc : α → List UInt8}
    {o : LoopOutcome α} {e : HarnessError} {out : List UInt8}
    (h : finishMultistream w fwrite enc o = .error e out) :
    out = [] ∨ e = .writeOutput ∧ ∃ v rest, o = .done v rest ∧ v.outLen ≤ 0xFFFFFFFF ∧
      ∀ bs, writeDecoded w enc v = some bs →
        out <+: gmsoMagic ++ u32Bytes (UInt32.ofNat v.outLen) ++ bs := by
  cases o with
  | error e' =>
    cases h
    exact .inl rfl
  | undefined => cases h
  | done v rest =>
    have hmagic : gmsoMagic <+: gmsoMagic ++ u32Bytes (UInt32.ofNat v.outLen) :=
      List.prefix_append _ _
    by_cases hbig : v.outLen > 0xFFFFFFFF
    · rw [finishMultistream, if_pos hbig] at h
      cases h
      exact .inl rfl
    rw [finishMultistream, if_neg hbig] at h
    refine .inr ?_
    rcases writeThen_eq_error h with ⟨he, hp⟩ | h
    · exact ⟨he, v, rest, rfl, by omega, fun bs _ =>
        ((List.nil_append gmsoMagic ▸ hp).trans hmagic).trans (List.prefix_append _ _)⟩
    rcases writeThen_eq_error h with ⟨he, hp⟩ | h
    · exact ⟨he, v, rest, rfl, by omega, fun bs _ => (List.nil_append gmsoMagic ▸ hp).trans
        (List.prefix_append _ _)⟩
    split_ifs at h
    split at h
    · cases h
    rename_i bs hbs
    rcases writeThen_eq_error h with ⟨he, hp⟩ | h
    · refine ⟨he, v, rest, rfl, by omega, fun bs' hbs' => ?_⟩
      rw [hbs] at hbs'
      cases hbs'
      simpa only [List.nil_append] using hp
    · cases h

/-- A whole end of the multistream harness writes the floats after `"GMSO"` and their
number, or reports `decoded output too large` when there are more than `UINT32_MAX` of
them. -/
theorem finishMultistream_done {w : ℕ} (enc : α → List UInt8) {calls : List ((ℕ → α) × ℕ)}
    {v : FloatVec α} (rest : List UInt8) (hv : v.Holds w calls) :
    finishMultistream w (fun _ n => n) enc (.done v rest) =
      if decodedTotal calls ≤ 0xFFFFFFFF then .ok (decodedOutput gmsoMagic enc calls)
      else .error .outputTooLarge [] := by
  have hlen : v.outLen = decodedTotal calls := hv.1
  simp only [finishMultistream, writeThen_all, List.nil_append, hlen]
  by_cases hle : decodedTotal calls ≤ 0xFFFFFFFF
  · rw [if_neg (by omega), if_pos hle]
    by_cases hpos : decodedTotal calls > 0
    · rw [if_pos hpos, hv.writeDecoded enc]
      rfl
    · rw [if_neg hpos, decodedOutput, flatMap_flatFloats_of_total_zero enc (by omega),
        List.append_nil]
  · rw [if_pos (by omega), if_neg hle]

/-- The converse of `refdecodeMultistream_ok`: every valid stream whose floats number at most
`2 ^ w / 8`, with a mapping of at least `channels` bytes in the multistream branch, decoded
in the branch `family` selects by a decoder that is created, keeps to its contract and
returns at least `0` from every call, ends as `main` does when `malloc`, `realloc` and the
writes succeed: it returns `0` with `"GMSO"`, the number of floats and the floats on
`stdout`, or reports `decoded output too large` when there are more than `UINT32_MAX`
floats. -/
theorem refdecodeMultistream_complete {w : ℕ} (hw : 4096 < 2 ^ w) (enc : α → List UInt8)
    {proj ms : Decoder α} {family channels streams coupled frameSize packetCount : UInt32}
    (hcreated : (branchDecoder family proj ms).created = true)
    (hdec : ∀ fs ps, ((branchDecoder family proj ms).decode fs ps).1 ≤ fs)
    (hdim : 0 < channels.toNat ∧ 0 < streams.toNat ∧ 0 < frameSize.toNat)
    (hframe : channels.toNat * frameSize.toNat ≤ sizeMax w / 4)
    {mapping demixing : List UInt8} (hmaplen : mapping.length < 2 ^ 32)
    (hdemixlen : demixing.length < 2 ^ 32)
    (hmapped : family.toNat = 3 ∨ channels.toNat ≤ mapping.length)
    {packets : List (List UInt8)} (hcount : packets.length = packetCount.toNat)
    (hshort : ∀ p ∈ packets, p.length < 2 ^ 32)
    (hok : ∀ k < packets.length,
      0 ≤ ((branchDecoder family proj ms).decode frameSize.toNat (packets.take (k + 1))).1)
    (htotal : 8 * decodedTotal (decodedCalls (branchDecoder family proj ms) channels.toNat
      frameSize.toNat packets) ≤ 2 ^ w)
    (rest : List UInt8) :
    refdecodeMultistream w (fun _ => true) enc proj ms
        (gmsiMagic ++ u32Bytes 1 ++ u32Bytes family ++ u32Bytes channels ++
          u32Bytes streams ++ u32Bytes coupled ++ u32Bytes frameSize ++ u32Bytes packetCount ++
          u32Bytes (UInt32.ofNat mapping.length) ++ u32Bytes (UInt32.ofNat demixing.length) ++
          mapping ++ demixing ++ (packets.map packetBytes).flatten ++ rest) =
      if decodedTotal (decodedCalls (branchDecoder family proj ms) channels.toNat
          frameSize.toNat packets) ≤ 0xFFFFFFFF then
        .ok (decodedOutput gmsoMagic enc
          (decodedCalls (branchDecoder family proj ms) channels.toNat frameSize.toNat packets))
      else .error .outputTooLarge [] := by
  obtain ⟨v, hrun, hv⟩ := decodePackets_complete hw (hdec _) hframe packets rest
    (holds_empty_decodedCalls _ _ _) (.inl rfl) hshort (by simpa using hok)
    (by simpa using htotal)
  rw [List.nil_append] at hv
  rw [List.append_assoc _ _ rest,
    refdecodeMultistream_of_stream_mapped hcreated hdim hframe hmaplen hdemixlen hmapped, ← hcount,
    hrun, finishMultistream_done enc rest hv]

theorem refdecodeMultistream_complete_one_packet :
    4096 < 2 ^ 32 ∧
    (branchDecoder 0 (fullDecoder fun i : ℕ => i) (fullDecoder fun i => i)).created = true ∧
    (∀ fs ps,
      ((branchDecoder 0 (fullDecoder fun i : ℕ => i) (fullDecoder fun i => i)).decode fs ps).1 ≤
        fs) ∧
    (0 < (2 : UInt32).toNat ∧ 0 < (1 : UInt32).toNat ∧ 0 < (4 : UInt32).toNat) ∧
    (2 : UInt32).toNat * (4 : UInt32).toNat ≤ sizeMax 32 / 4 ∧
    [(0 : UInt8), 1].length < 2 ^ 32 ∧ ([] : List UInt8).length < 2 ^ 32 ∧
    ((0 : UInt32).toNat = 3 ∨ (2 : UInt32).toNat ≤ [(0 : UInt8), 1].length) ∧
    [[7]].length = (1 : UInt32).toNat ∧ (∀ p ∈ [[(7 : UInt8)]], p.length < 2 ^ 32) ∧
    (∀ k < [[(7 : UInt8)]].length,
      0 ≤ ((branchDecoder 0 (fullDecoder fun i : ℕ => i) (fullDecoder fun i => i)).decode
        (4 : UInt32).toNat ([[7]].take (k + 1))).1) ∧
    8 * decodedTotal (decodedCalls
      (branchDecoder 0 (fullDecoder fun i : ℕ => i) (fullDecoder fun i => i))
      (2 : UInt32).toNat (4 : UInt32).toNat [[7]]) ≤ 2 ^ 32 ∧
    refdecodeMultistream 32 (fun _ => true) (fun x => [x.toUInt8])
        (fullDecoder fun i : ℕ => i) (fullDecoder fun i => i)
        (gmsiMagic ++ u32Bytes 1 ++ u32Bytes 0 ++ u32Bytes 2 ++ u32Bytes 1 ++ u32Bytes 1 ++
          u32Bytes 4 ++ u32Bytes 1 ++ u32Bytes (UInt32.ofNat [(0 : UInt8), 1].length) ++
          u32Bytes (UInt32.ofNat ([] : List UInt8).length) ++ [0, 1] ++ [] ++
          ([[7]].map packetBytes).flatten ++ []) =
      if decodedTotal (decodedCalls
          (branchDecoder 0 (fullDecoder fun i : ℕ => i) (fullDecoder fun i => i))
          (2 : UInt32).toNat (4 : UInt32).toNat [[7]]) ≤ 0xFFFFFFFF then
        .ok (decodedOutput gmsoMagic (fun x => [x.toUInt8]) (decodedCalls
          (branchDecoder 0 (fullDecoder fun i : ℕ => i) (fullDecoder fun i => i))
          (2 : UInt32).toNat (4 : UInt32).toNat [[7]]))
      else .error .outputTooLarge [] :=
  ⟨by decide, rfl, fun _ _ => le_rfl, by decide, by decide, by decide, by decide, by decide,
    rfl, by decide, by decide, by decide,
    refdecodeMultistream_complete (by decide) _ (by rfl) (fun _ _ => by exact le_rfl) (by decide)
      (by decide) (by decide) (by decide) (by decide) (by decide) (by decide) (by decide)
      (by decide) []⟩

/-- Every valid stream whose floats number at most `2 ^ w / 8`, with a mapping of at least
`channels` bytes in the multistream branch, decoded in the branch `family` selects by a
decoder that is created, keeps to its contract and returns at least `0` from every call,
with `malloc` and the writes succeeding, under any `realloc` behaviour: `main` ends as in
`refdecodeMultistream_complete`, or reports `failed to append decoded samples` with nothing
on `stdout` when the `realloc` of some packet `k` fails, asked for the bytes of where the
doubling loop ends from `1024` for the floats of the packets up to `k`. A failed allocation
never reaches undefined behaviour and never writes part of the output. -/
theorem refdecodeMultistream_complete_or_appendFailed {w : ℕ} (hw : 4096 < 2 ^ w)
    (fits : ℕ → Bool) (enc : α → List UInt8) {proj ms : Decoder α}
    {family channels streams coupled frameSize packetCount : UInt32}
    (hcreated : (branchDecoder family proj ms).created = true)
    (hdec : ∀ fs ps, ((branchDecoder family proj ms).decode fs ps).1 ≤ fs)
    (hdim : 0 < channels.toNat ∧ 0 < streams.toNat ∧ 0 < frameSize.toNat)
    (hframe : channels.toNat * frameSize.toNat ≤ sizeMax w / 4)
    {mapping demixing : List UInt8} (hmaplen : mapping.length < 2 ^ 32)
    (hdemixlen : demixing.length < 2 ^ 32)
    (hmapped : family.toNat = 3 ∨ channels.toNat ≤ mapping.length)
    {packets : List (List UInt8)} (hcount : packets.length = packetCount.toNat)
    (hshort : ∀ p ∈ packets, p.length < 2 ^ 32)
    (hok : ∀ k < packets.length,
      0 ≤ ((branchDecoder family proj ms).decode frameSize.toNat (packets.take (k + 1))).1)
    (htotal : 8 * decodedTotal (decodedCalls (branchDecoder family proj ms) channels.toNat
      frameSize.toNat packets) ≤ 2 ^ w)
    (rest : List UInt8) :
    refdecodeMultistream w fits enc proj ms
        (gmsiMagic ++ u32Bytes 1 ++ u32Bytes family ++ u32Bytes channels ++
          u32Bytes streams ++ u32Bytes coupled ++ u32Bytes frameSize ++ u32Bytes packetCount ++
          u32Bytes (UInt32.ofNat mapping.length) ++ u32Bytes (UInt32.ofNat demixing.length) ++
          mapping ++ demixing ++ (packets.map packetBytes).flatten ++ rest) =
      (if decodedTotal (decodedCalls (branchDecoder family proj ms) channels.toNat
          frameSize.toNat packets) ≤ 0xFFFFFFFF then
        .ok (decodedOutput gmsoMagic enc
          (decodedCalls (branchDecoder family proj ms) channels.toNat frameSize.toNat packets))
      else .error .outputTooLarge []) ∨
    (refdecodeMultistream w fits enc proj ms
        (gmsiMagic ++ u32Bytes 1 ++ u32Bytes family ++ u32Bytes channels ++
          u32Bytes streams ++ u32Bytes coupled ++ u32Bytes frameSize ++ u32Bytes packetCount ++
          u32Bytes (UInt32.ofNat mapping.length) ++ u32Bytes (UInt32.ofNat demixing.length) ++
          mapping ++ demixing ++ (packets.map packetBytes).flatten ++ rest) =
      .error .appendFailed [] ∧
      ∃ k < packets.length, fits (growCap w (decodedTotal (decodedCalls
        (branchDecoder family proj ms) channels.toNat frameSize.toNat (packets.take (k + 1))))
        1024 * 4) = false) := by
  rw [List.append_assoc _ _ rest,
    refdecodeMultistream_of_stream_mapped hcreated hdim hframe hmaplen hdemixlen hmapped, ← hcount]
  rcases decodePackets_complete_cases hw (hdec _) hframe packets rest
    (holds_empty_decodedCalls _ _ _) (.inl rfl) hshort (by simpa using hok)
    (by simpa using htotal) with ⟨hfail, hb⟩ | ⟨v, hrun, hv⟩
  · rw [hfail]
    exact .inr ⟨rfl, by simpa using hb⟩
  · rw [List.nil_append] at hv
    rw [hrun, finishMultistream_done enc rest hv]
    exact .inl rfl

theorem refdecodeMultistream_complete_or_appendFailed_failing_realloc :
    4096 < 2 ^ 32 ∧
    (branchDecoder 0 (fullDecoder fun i : ℕ => i) (fullDecoder fun i => i)).created = true ∧
    (∀ fs ps,
      ((branchDecoder 0 (fullDecoder fun i : ℕ => i) (fullDecoder fun i => i)).decode fs
        ps).1 ≤ fs) ∧
    (0 < (2 : UInt32).toNat ∧ 0 < (1 : UInt32).toNat ∧ 0 < (4 : UInt32).toNat) ∧
    (2 : UInt32).toNat * (4 : UInt32).toNat ≤ sizeMax 32 / 4 ∧
    [(0 : UInt8), 1].length < 2 ^ 32 ∧ ([] : List UInt8).length < 2 ^ 32 ∧
    ((0 : UInt32).toNat = 3 ∨ (2 : UInt32).toNat ≤ [(0 : UInt8), 1].length) ∧
    [[7]].length = (1 : UInt32).toNat ∧ (∀ p ∈ [[(7 : UInt8)]], p.length < 2 ^ 32) ∧
    (∀ k < [[(7 : UInt8)]].length,
      0 ≤ ((branchDecoder 0 (fullDecoder fun i : ℕ => i) (fullDecoder fun i => i)).decode
        (4 : UInt32).toNat ([[7]].take (k + 1))).1) ∧
    8 * decodedTotal (decodedCalls
      (branchDecoder 0 (fullDecoder fun i : ℕ => i) (fullDecoder fun i => i))
      (2 : UInt32).toNat (4 : UInt32).toNat [[7]]) ≤ 2 ^ 32 ∧
    ((refdecodeMultistream 32 (fun _ => false) (fun x => [x.toUInt8])
        (fullDecoder fun i : ℕ => i) (fullDecoder fun i => i)
        (gmsiMagic ++ u32Bytes 1 ++ u32Bytes 0 ++ u32Bytes 2 ++ u32Bytes 1 ++ u32Bytes 1 ++
          u32Bytes 4 ++ u32Bytes 1 ++ u32Bytes (UInt32.ofNat [(0 : UInt8), 1].length) ++
          u32Bytes (UInt32.ofNat ([] : List UInt8).length) ++ [0, 1] ++ [] ++
          ([[7]].map packetBytes).flatten ++ []) =
      (if decodedTotal (decodedCalls
          (branchDecoder 0 (fullDecoder fun i : ℕ => i) (fullDecoder fun i => i))
          (2 : UInt32).toNat (4 : UInt32).toNat [[7]]) ≤ 0xFFFFFFFF then
        .ok (decodedOutput gmsoMagic (fun x => [x.toUInt8]) (decodedCalls
          (branchDecoder 0 (fullDecoder fun i : ℕ => i) (fullDecoder fun i => i))
          (2 : UInt32).toNat (4 : UInt32).toNat [[7]]))
      else .error .outputTooLarge [])) ∨
    (refdecodeMultistream 32 (fun _ => false) (fun x => [x.toUInt8])
        (fullDecoder fun i : ℕ => i) (fullDecoder fun i => i)
        (gmsiMagic ++ u32Bytes 1 ++ u32Bytes 0 ++ u32Bytes 2 ++ u32Bytes 1 ++ u32Bytes 1 ++
          u32Bytes 4 ++ u32Bytes 1 ++ u32Bytes (UInt32.ofNat [(0 : UInt8), 1].length) ++
          u32Bytes (UInt32.ofNat ([] : List UInt8).length) ++ [0, 1] ++ [] ++
          ([[7]].map packetBytes).flatten ++ []) =
      .error .appendFailed [] ∧
      ∃ k < [[(7 : UInt8)]].length, (fun _ => false : ℕ → Bool) (growCap 32 (decodedTotal
        (decodedCalls (branchDecoder 0 (fullDecoder fun i : ℕ => i) (fullDecoder fun i => i))
          (2 : UInt32).toNat (4 : UInt32).toNat ([[7]].take (k + 1)))) 1024 * 4) = false)) :=
  ⟨by decide, rfl, fun _ _ => le_rfl, by decide, by decide, by decide, by decide, by decide,
    rfl, by decide, by decide, by decide,
    refdecodeMultistream_complete_or_appendFailed (by decide) _ _ (by rfl)
      (fun _ _ => by exact le_rfl) (by decide) (by decide) (by decide) (by decide) (by decide)
      (by decide) (by decide) (by decide) (by decide) []⟩

/-- The converse of `refdecodeMultistream_undefined`: every valid stream whose floats number
more than `2 ^ w / 8`, decoded in the branch `family` selects by a decoder that is created,
keeps to its contract and returns at least `0` from every call, reaches undefined behaviour
when `malloc`, `realloc` and the writes succeed: in `append_floats`, or before it at the
creation of a multistream decoder on a mapping shorter than `channels`. -/
theorem refdecodeMultistream_undefined_of_total {w : ℕ} (hw : 4096 < 2 ^ w)
    (enc : α → List UInt8) {proj ms : Decoder α}
    {family channels streams coupled frameSize packetCount : UInt32}
    (hcreated : (branchDecoder family proj ms).created = true)
    (hdec : ∀ fs ps, ((branchDecoder family proj ms).decode fs ps).1 ≤ fs)
    (hdim : 0 < channels.toNat ∧ 0 < streams.toNat ∧ 0 < frameSize.toNat)
    (hframe : channels.toNat * frameSize.toNat ≤ sizeMax w / 4)
    {mapping demixing : List UInt8} (hmaplen : mapping.length < 2 ^ 32)
    (hdemixlen : demixing.length < 2 ^ 32)
    {packets : List (List UInt8)} (hcount : packets.length = packetCount.toNat)
    (hshort : ∀ p ∈ packets, p.length < 2 ^ 32)
    (hok : ∀ k < packets.length,
      0 ≤ ((branchDecoder family proj ms).decode frameSize.toNat (packets.take (k + 1))).1)
    (hbig : 2 ^ w < 8 * decodedTotal (decodedCalls (branchDecoder family proj ms)
      channels.toNat frameSize.toNat packets))
    (rest : List UInt8) :
    refdecodeMultistream w (fun _ => true) enc proj ms
        (gmsiMagic ++ u32Bytes 1 ++ u32Bytes family ++ u32Bytes channels ++
          u32Bytes streams ++ u32Bytes coupled ++ u32Bytes frameSize ++ u32Bytes packetCount ++
          u32Bytes (UInt32.ofNat mapping.length) ++ u32Bytes (UInt32.ofNat demixing.length) ++
          mapping ++ demixing ++ (packets.map packetBytes).flatten ++ rest) = .undefined := by
  by_cases hmapped : family.toNat = 3 ∨ channels.toNat ≤ mapping.length
  · rw [List.append_assoc _ _ rest,
      refdecodeMultistream_of_stream_mapped hcreated hdim hframe hmaplen hdemixlen hmapped,
      ← hcount, decodePackets_undefined_of_total hw (hdec _) hframe packets rest
        (holds_empty_decodedCalls _ _ _) (.inl rfl) (by simp [decodedTotal, decodedCalls])
        hshort (by simpa using hok) (by simpa using hbig)]
    rfl
  · -- the mapping is too short for the multistream decoder
    rw [List.append_assoc _ _ rest, refdecodeMultistream_of_stream hdim hframe hmaplen hdemixlen,
      if_pos (by omega)]

theorem refdecodeMultistream_undefined_of_total_2pow29 :
    4096 < 2 ^ 32 ∧
    (branchDecoder 3 (fullDecoder fun i : ℕ => i) (fullDecoder fun i => i)).created = true ∧
    (∀ fs ps,
      ((branchDecoder 3 (fullDecoder fun i : ℕ => i) (fullDecoder fun i => i)).decode fs ps).1 ≤
        fs) ∧
    (0 < (1 : UInt32).toNat ∧ 0 < (1 : UInt32).toNat ∧ 0 < (536870913 : UInt32).toNat) ∧
    (1 : UInt32).toNat * (536870913 : UInt32).toNat ≤ sizeMax 32 / 4 ∧
    ([] : List UInt8).length < 2 ^ 32 ∧ ([] : List UInt8).length < 2 ^ 32 ∧
    [([] : List UInt8)].length = (1 : UInt32).toNat ∧
    (∀ p ∈ [([] : List UInt8)], p.length < 2 ^ 32) ∧
    (∀ k < [([] : List UInt8)].length,
      0 ≤ ((branchDecoder 3 (fullDecoder fun i : ℕ => i) (fullDecoder fun i => i)).decode
        (536870913 : UInt32).toNat ([[]].take (k + 1))).1) ∧
    2 ^ 32 < 8 * decodedTotal (decodedCalls
      (branchDecoder 3 (fullDecoder fun i : ℕ => i) (fullDecoder fun i => i))
      (1 : UInt32).toNat (536870913 : UInt32).toNat [[]]) ∧
    refdecodeMultistream 32 (fun _ => true) (fun x => [x.toUInt8])
        (fullDecoder fun i : ℕ => i) (fullDecoder fun i => i)
        (gmsiMagic ++ u32Bytes 1 ++ u32Bytes 3 ++ u32Bytes 1 ++ u32Bytes 1 ++ u32Bytes 0 ++
          u32Bytes 536870913 ++ u32Bytes 1 ++ u32Bytes (UInt32.ofNat ([] : List UInt8).length) ++
          u32Bytes (UInt32.ofNat ([] : List UInt8).length) ++ [] ++ [] ++
          ([[]].map packetBytes).flatten ++ []) = .undefined :=
  ⟨by decide, rfl, fun _ _ => le_rfl, by decide, by decide, by decide, by decide, rfl,
    by decide, by decide, by decide,
    refdecodeMultistream_undefined_of_total (by decide) _ (by rfl) (fun _ _ => by exact le_rfl)
      (by decide) (by decide) (by decide) (by decide) (by decide) (by decide) (by decide)
      (by decide) []⟩

/-! ### Truncated streams and what an error leaves on `stdout` -/

section Blobs

variable {w : ℕ} {fits : ℕ → Bool} {enc : α → List UInt8} {proj ms : Decoder α}
  {family channels streams coupled frameSize packetCount mappingLen demixLen : UInt32}

end Blobs

/-- A run of the multistream harness that returns `1`, in either branch, whatever the C
library answers, with decoders that return at most `frame_size` from each call, wrote
nothing to `stdout`, or is a `failed to write output` after the packet loop read
`packet_count` packets of at most `UINT32_MAX` floats, and wrote a prefix of what the
complete run writes. Unlike the single-stream harness, which writes its output magic before
it checks `decoded_len > UINT32_MAX`, no error past that bound leaves a byte on `stdout`. -/
theorem refdecodeMultistream_error_stdout {w : ℕ} (hw : 4096 < 2 ^ w) (libc : Libc)
    (enc : α → List UInt8) {proj ms : Decoder α}
    (hproj : ∀ fs ps, (proj.decode fs ps).1 ≤ fs) (hms : ∀ fs ps, (ms.decode fs ps).1 ≤ fs)
    {input : List UInt8} {e : HarnessError} {out : List UInt8}
    (h : refdecodeMultistreamWith w libc enc proj ms input = .error e out) :
    out = [] ∨ e = .writeOutput ∧
      ∃ (family channels streams coupled frameSize packetCount : UInt32)
        (mapping demixing : List UInt8) (packets : List (List UInt8)) (rest : List UInt8),
        input = gmsiMagic ++ u32Bytes 1 ++ u32Bytes family ++ u32Bytes channels ++
          u32Bytes streams ++ u32Bytes coupled ++ u32Bytes frameSize ++ u32Bytes packetCount ++
          u32Bytes (UInt32.ofNat mapping.length) ++ u32Bytes (UInt32.ofNat demixing.length) ++
          mapping ++ demixing ++ (packets.map packetBytes).flatten ++ rest ∧
        packets.length = packetCount.toNat ∧
        decodedTotal (decodedCalls (branchDecoder family proj ms) channels.toNat
          frameSize.toNat packets) ≤ 0xFFFFFFFF ∧
        out <+: decodedOutput gmsoMagic enc
          (decodedCalls (branchDecoder family proj ms) channels.toNat frameSize.toNat packets) := by
  rcases refdecodeMultistream_cases w libc enc proj ms input with ⟨e', he⟩ |
    ⟨family, channels, streams, coupled, frameSize, packetCount, mapping, demixing, input4,
      hinput, -, -, -, -, -, hframe, ⟨-, -, heq⟩ | ⟨-, heq⟩⟩
  · rw [he] at h
    cases h
    exact .inl rfl
  · rw [heq] at h
    cases h
  rw [heq] at h
  rcases finishMultistream_error h with hout | ⟨he, v, rest, hloop, hbig, hbs⟩
  · exact .inl hout
  obtain ⟨packets, hcount, -, hrest, -, hlen, hout⟩ := decodePackets_empty_done hw
    (branchDecoder_decode_le family hproj hms _) hframe enc hloop
  refine .inr ⟨he, family, channels, streams, coupled, frameSize, packetCount, mapping,
    demixing, packets, rest, ?_, hcount, by omega, ?_⟩
  · rw [hinput, hrest]
    simp only [List.append_assoc]
  · rw [decodedOutput, ← hlen]
    exact hbs _ hout

theorem refdecodeMultistream_error_stdout_short_write :
    4096 < 2 ^ 32 ∧ (∀ fs ps, ((fullDecoder fun i : ℕ => i).decode fs ps).1 ≤ fs) ∧
    refdecodeMultistreamWith 32 ⟨fun _ => true, fun _ => true, fun _ _ => 2⟩
        (fun x => [x.toUInt8]) (fullDecoder fun i : ℕ => i) (fullDecoder fun i => i)
        (gmsiMagic ++ u32Bytes 1 ++ u32Bytes 3 ++ u32Bytes 1 ++ u32Bytes 1 ++ u32Bytes 0 ++
          u32Bytes 4 ++ u32Bytes 0 ++ u32Bytes 0 ++ u32Bytes 0) =
      .error .writeOutput [0x47, 0x4D] ∧
    ([(0x47 : UInt8), 0x4D] = [] ∨ HarnessError.writeOutput = .writeOutput ∧
      ∃ (family channels streams coupled frameSize packetCount : UInt32)
        (mapping demixing : List UInt8) (packets : List (List UInt8)) (rest : List UInt8),
        gmsiMagic ++ u32Bytes 1 ++ u32Bytes 3 ++ u32Bytes 1 ++ u32Bytes 1 ++ u32Bytes 0 ++
            u32Bytes 4 ++ u32Bytes 0 ++ u32Bytes 0 ++ u32Bytes 0 =
          gmsiMagic ++ u32Bytes 1 ++ u32Bytes family ++ u32Bytes channels ++
            u32Bytes streams ++ u32Bytes coupled ++ u32Bytes frameSize ++
            u32Bytes packetCount ++ u32Bytes (UInt32.ofNat mapping.length) ++
            u32Bytes (UInt32.ofNat demixing.length) ++ mapping ++ demixing ++
            (packets.map packetBytes).flatten ++ rest ∧
        packets.length = packetCount.toNat ∧
        decodedTotal (decodedCalls (branchDecoder family (fullDecoder fun i : ℕ => i)
          (fullDecoder fun i => i)) channels.toNat frameSize.toNat packets) ≤ 0xFFFFFFFF ∧
        [0x47, 0x4D] <+: decodedOutput gmsoMagic (fun x : ℕ => [x.toUInt8])
          (decodedCalls (branchDecoder family (fullDecoder fun i : ℕ => i)
            (fullDecoder fun i => i)) channels.toNat frameSize.toNat packets)) :=
  have h : refdecodeMultistreamWith 32 ⟨fun _ => true, fun _ => true, fun _ _ => 2⟩
      (fun x : ℕ => [x.toUInt8]) (fullDecoder fun i : ℕ => i) (fullDecoder fun i => i)
      (gmsiMagic ++ u32Bytes 1 ++ u32Bytes 3 ++ u32Bytes 1 ++ u32Bytes 1 ++ u32Bytes 0 ++
        u32Bytes 4 ++ u32Bytes 0 ++ u32Bytes 0 ++ u32Bytes 0) =
      .error .writeOutput [0x47, 0x4D] := rfl
  ⟨by decide, fun _ _ => le_rfl, h, refdecodeMultistream_error_stdout (by decide) _ _
    (fun _ _ => le_rfl) (fun _ _ => le_rfl) h⟩

end Gopus
