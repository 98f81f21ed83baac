import Gopus.Harness.Loop

/-!
# `libopus_refdecode_single.c`

The single-stream harness reads `"GOSI"`, a header of `u32`s (version `1`, `channels` at
most `2`, `frame_size`, `packet_count`), and `packet_count` length-prefixed packets from
`stdin`, decodes each with one decoder, and writes `"GOSO"`, the number of floats decoded as
a `u32`, and the floats.

The C library is a parameter, `Libc`: whether `malloc` and `realloc` of a byte count
succeed and how many bytes `fwrite` writes. `refdecodeSingleWith` is `main` under any such
library, `refdecodeSingle` under one whose `malloc` and writes succeed and whose `realloc`
succeeds where `fits` says.

`refdecodeSingle_ok` says what a run that returns `0` read and wrote, for every `stdin`,
every library and every decoder that keeps to its contract. Runs with undefined behaviour
are an outcome of their own; the overflow of `new_cap * sizeof(float)` in `append_floats`
reaches one on a valid stream with a 32-bit `size_t`, `refdecodeSingle_undefined` says it
is the only way to reach one, and `refdecodeSingle_undefined_of_total` that every valid
stream past the bound reaches it. Below that bound `refdecodeSingle_complete` gives the run
on every valid stream, `refdecodeSingle_complete_or_appendFailed` the run under any
`realloc` behaviour, and `refdecodeSingle_truncated` the run on every valid stream cut
short; `refdecodeSingle_error_stdout` says what an error leaves on `stdout`, on every stream
and under every library: nothing, or after a short write a prefix of the complete output.
-/

namespace Gopus

variable {α : Type}

/-- `GOSI_MAGIC`. -/
def gosiMagic : List UInt8 := [0x47, 0x4F, 0x53, 0x49]

/-- `GOSO_MAGIC`. -/
def gosoMagic : List UInt8 := [0x47, 0x4F, 0x53, 0x4F]

/-- The end of `main` after the packet loop: the error of the loop, or `write_exact(GOSO_MAGIC,
4) || decoded_len > UINT32_MAX || write_u32((uint32_t)decoded_len) || write_exact(decoded,
decoded_len * sizeof(float))`, each write putting on `stdout` what `fwrite` writes. -/
def finishSingle (w : ℕ) (fwrite : ℕ → ℕ → ℕ) (enc : α → List UInt8) :
    LoopOutcome α → HarnessOutcome
  | .error e => .error e []
  | .undefined => .undefined
  | .done v _ =>
    writeThen fwrite [] gosoMagic fun out =>
      if v.outLen > 0xFFFFFFFF then .error .writeOutput out
      else writeThen fwrite out (u32Bytes (UInt32.ofNat v.outLen)) fun out =>
        match writeDecoded w enc v with
        | none => .undefined
        | some bs => writeThen fwrite out bs .ok

/-- `main` of `libopus_refdecode_single.c` on `stdin` `input`, with a `w`-bit `size_t`, the
C library answering as `libc` says, and the floats' bytes on `stdout` given by `enc`. -/
def refdecodeSingleWith (w : ℕ) (libc : Libc) (enc : α → List UInt8) (dec : Decoder α)
    (input : List UInt8) : HarnessOutcome :=
  match readExact 4 input with
  | none => .error .invalidMagic []
  | some (magic, input) =>
    if magic ≠ gosiMagic then .error .invalidMagic []
    else match readHeader 3 input with
    | some ([channels, frameSize, packetCount], input) =>
      if channels.toNat = 0 ∨ channels.toNat > 2 ∨ frameSize.toNat = 0 then
        .error .invalidDimensions []
      else if channels.toNat > sizeMax w / frameSize.toNat ∨
          channels.toNat * frameSize.toNat % 2 ^ w > sizeMax w / 4 then
        .error .frameOverflow []
      else if !libc.malloc (channels.toNat * frameSize.toNat * 4 % 2 ^ w) then
        .error .allocFrame []
      else if !dec.created then .error .createFailed []
      else
        finishSingle w libc.fwrite enc (decodePackets w libc dec channels.toNat frameSize.toNat
          packetCount.toNat [] .empty input)
    | _ => .error .readHeader []

/-- `main` of `libopus_refdecode_single.c` where `malloc` and the writes succeed and
`realloc` succeeds where `fits` says. -/
def refdecodeSingle (w : ℕ) (fits : ℕ → Bool) (enc : α → List UInt8) (dec : Decoder α)
    (input : List UInt8) : HarnessOutcome :=
  refdecodeSingleWith w (.reliable fits) enc dec input

/-- A stream with the magic, a header that passes the checks and a decoder that is created
reaches the packet loop. -/
theorem refdecodeSingle_of_header {w : ℕ} {fits : ℕ → Bool} {enc : α → List UInt8}
    {dec : Decoder α} {input rest : List UInt8} {channels frameSize packetCount : UInt32}
    (hhead : readHeader 3 input = some ([channels, frameSize, packetCount], rest))
    (hdim : ¬(channels.toNat = 0 ∨ channels.toNat > 2 ∨ frameSize.toNat = 0))
    (hover : ¬(channels.toNat > sizeMax w / frameSize.toNat ∨
      channels.toNat * frameSize.toNat % 2 ^ w > sizeMax w / 4))
    (hcreated : dec.created = true) :
    refdecodeSingle w fits enc dec (gosiMagic ++ input) = finishSingle w (fun _ n => n) enc
      (decodePackets w (.reliable fits) dec channels.toNat frameSize.toNat packetCount.toNat []
        .empty rest) := by
  have hmagic : readExact 4 (gosiMagic ++ input) = some (gosiMagic, input) :=
    readExact_append gosiMagic input
  rw [refdecodeSingle, refdecodeSingleWith, hmagic]
  dsimp only
  rw [if_neg (not_not.2 rfl), hhead]
  dsimp only
  rw [if_neg hdim, if_neg hover, Libc.reliable_malloc, hcreated]
  rfl

/-- A stream with the magic, version `1` and a header that passes the checks, read by a
decoder that is created, goes on as the packet loop on the rest of `stdin`. -/
theorem refdecodeSingle_of_stream {w : ℕ} {fits : ℕ → Bool} {enc : α → List UInt8}
    {dec : Decoder α} {channels frameSize packetCount : UInt32}
    (hdim : 0 < channels.toNat ∧ channels.toNat ≤ 2 ∧ 0 < frameSize.toNat)
    (hframe : channels.toNat * frameSize.toNat ≤ sizeMax w / 4)
    (hcreated : dec.created = true) (input : List UInt8) :
    refdecodeSingle w fits enc dec (gosiMagic ++ u32Bytes 1 ++ u32Bytes channels ++
        u32Bytes frameSize ++ u32Bytes packetCount ++ input) =
      finishSingle w (fun _ n => n) enc (decodePackets w (.reliable fits) dec channels.toNat
        frameSize.toNat packetCount.toNat [] .empty input) := by
  have hhead := readHeader_u32Bytes [channels, frameSize, packetCount] input
  simp only [List.map_cons, List.map_nil, List.flatten_cons, List.flatten_nil, List.append_nil,
    List.length_cons, List.length_nil, List.append_assoc] at hhead
  simp only [List.append_assoc]
  exact refdecodeSingle_of_header hhead (by omega) (frameCheck_of_le (by omega) hframe) hcreated

/-- Every run of the single-stream harness, whatever the C library answers, either reports
an error before the packet loop, with nothing on `stdout`, or read `"GOSI"` and a header
that passes the checks, allocated the frame buffer, created the decoder, and goes on as the
packet loop on the rest of `stdin` ends. -/
theorem refdecodeSingle_cases (w : ℕ) (libc : Libc) (enc : α → List UInt8)
    (dec : Decoder α) (input : List UInt8) :
    (∃ e, refdecodeSingleWith w libc enc dec input = .error e []) ∨
    ∃ (channels frameSize packetCount : UInt32) (rest : List UInt8),
      input = gosiMagic ++ u32Bytes 1 ++ u32Bytes channels ++ u32Bytes frameSize ++
        u32Bytes packetCount ++ rest ∧
      0 < channels.toNat ∧ channels.toNat ≤ 2 ∧ 0 < frameSize.toNat ∧
      channels.toNat * frameSize.toNat ≤ sizeMax w / 4 ∧ dec.created = true ∧
      refdecodeSingleWith w libc enc dec input = finishSingle w libc.fwrite enc
        (decodePackets w libc dec channels.toNat frameSize.toNat packetCount.toNat [] .empty
          rest) := by
  unfold refdecodeSingleWith
  rcases hmagic : readExact 4 input with _ | ⟨magic, input1⟩
  · exact .inl ⟨_, rfl⟩
  dsimp only
  by_cases hm : magic = gosiMagic
  swap
  · rw [if_pos hm]
    exact .inl ⟨_, rfl⟩
  subst hm
  rw [if_neg (not_not.2 rfl)]
  rcases hhead : readHeader 3 input1 with _ | ⟨fields, input2⟩
  · exact .inl ⟨_, rfl⟩
  obtain ⟨hinput1, hlen3⟩ := readHeader_eq_some hhead
  obtain ⟨channels, frameSize, packetCount, rfl⟩ : ∃ c f p, fields = [c, f, p] := by
    match fields, hlen3 with
    | [c, f, p], _ => exact ⟨c, f, p, rfl⟩
  dsimp only
  by_cases hdim : channels.toNat = 0 ∨ channels.toNat > 2 ∨ frameSize.toNat = 0
  · rw [if_pos hdim]
    exact .inl ⟨_, rfl⟩
  rw [if_neg hdim]
  by_cases hover : channels.toNat > sizeMax w / frameSize.toNat ∨
      channels.toNat * frameSize.toNat % 2 ^ w > sizeMax w / 4
  · rw [if_pos hover]
    exact .inl ⟨_, rfl⟩
  rw [if_neg hover]
  by_cases hframe : libc.malloc (channels.toNat * frameSize.toNat * 4 % 2 ^ w) = true
  swap
  · rw [if_pos (by simpa using hframe)]
    exact .inl ⟨_, rfl⟩
  rw [if_neg (by simpa using hframe)]
  by_cases hcreated : dec.created = true
  swap
  · rw [if_pos (by simpa using hcreated)]
    exact .inl ⟨_, rfl⟩
  rw [if_neg (by simpa using hcreated)]
  refine .inr ⟨channels, frameSize, packetCount, input2, ?_, by omega, by omega, by omega,
    frameCheck_le (by omega) hover, hcreated, rfl⟩
  rw [(readExact_eq_some hmagic).1, hinput1]
  simp only [List.map_cons, List.map_nil, List.flatten_cons, List.flatten_nil, List.append_nil,
    List.append_assoc]

/-- With a 32-bit `size_t`, the stream of one empty packet with `channels = 1` and
`frame_size = 2 ^ 29 + 1`, read by a decoder that fills the frame, is a valid stream past
the bound of `decodePackets_undefined_of_total`: it reaches undefined behaviour. -/
theorem refdecodeSingle_undefined_2pow29_stream (enc : α → List UInt8) (frame : ℕ → α) :
    refdecodeSingle 32 (fun _ => true) enc (fullDecoder frame)
      (gosiMagic ++ u32Bytes 1 ++ u32Bytes 1 ++ u32Bytes 536870913 ++ u32Bytes 1 ++
        u32Bytes 0) = .undefined := by
  have hloop : decodePackets 32 (.reliable fun _ => true) (fullDecoder frame)
      (1 : UInt32).toNat (536870913 : UInt32).toNat (1 : UInt32).toNat [] .empty
      (([([] : List UInt8)].map packetBytes).flatten ++ []) = .undefined :=
    decodePackets_undefined_of_total (by decide) (fun _ => le_rfl) (by decide) [[]] []
      (holds_empty_decodedCalls _ _ _) (.inl rfl) (Nat.zero_le _) (by decide)
      (fun _ _ => Int.ofNat_nonneg _) (by simp [decodedTotal, decodedCalls, fullDecoder])
  rw [show u32Bytes 0 = ([([] : List UInt8)].map packetBytes).flatten ++ [] from rfl,
    refdecodeSingle_of_stream (by decide) (by decide) rfl, hloop]
  rfl

/-- With a 32-bit `size_t`, a valid stream of one empty packet with `channels = 1` and
`frame_size = 2 ^ 29 + 1`, decoded by a decoder within its contract, reaches undefined
behaviour: `append_floats` writes the `2 ^ 29 + 1` floats past an empty block. -/
theorem refdecodeSingle_undefined_at_2pow29 (enc : α → List UInt8) (frame : ℕ → α) :
    (∀ fs ps, ((fullDecoder frame).decode fs ps).1 ≤ fs) ∧
      refdecodeSingle 32 (fun _ => true) enc (fullDecoder frame)
        (gosiMagic ++ u32Bytes 1 ++ u32Bytes 1 ++ u32Bytes 536870913 ++ u32Bytes 1 ++
          u32Bytes 0) = .undefined :=
  ⟨fun _ _ => le_rfl, refdecodeSingle_undefined_2pow29_stream enc frame⟩

/-- What the end of the single-stream harness leaves on `stdout` at an error: nothing after
an error of the loop, and at `failed to write output` after a complete loop, a prefix of
`"GOSO"`, the number of floats and their bytes. -/
theorem finishSingle_error {w : ℕ} {fwrite : ℕ → ℕ → ℕ} {enc : α → List UInt8}
    {o : LoopOutcome α} {e : HarnessError} {out : List UInt8}
    (h : finishSingle w fwrite enc o = .error e out) :
    out = [] ∨ e = .writeOutput ∧ ∃ v rest, o = .done v rest ∧
      ∀ bs, writeDecoded w enc v = some bs →
        out <+: gosoMagic ++ u32Bytes (UInt32.ofNat v.outLen) ++ bs := by
  cases o with
  | error e' =>
    cases h
    exact .inl rfl
  | undefined => cases h
  | done v rest =>
    have hmagic : gosoMagic <+: gosoMagic ++ u32Bytes (UInt32.ofNat v.outLen) :=
      List.prefix_append _ _
    refine .inr ?_
    rw [finishSingle] at h
    rcases writeThen_eq_error h with ⟨he, hp⟩ | h
    · exact ⟨he, v, rest, rfl, fun bs _ =>
        ((List.nil_append gosoMagic ▸ hp).trans hmagic).trans (List.prefix_append _ _)⟩
    split_ifs at h
    · cases h
      exact ⟨rfl, v, rest, rfl, fun bs _ => hmagic.trans (List.prefix_append _ _)⟩
    rcases writeThen_eq_error h with ⟨he, hp⟩ | h
    · exact ⟨he, v, rest, rfl, fun bs _ => (List.nil_append gosoMagic ▸ hp).trans
        (List.prefix_append _ _)⟩
    split at h
    · cases h
    rename_i bs hbs
    rcases writeThen_eq_error h with ⟨he, hp⟩ | h
    · refine ⟨he, v, rest, rfl, fun bs' hbs' => ?_⟩
      rw [hbs] at hbs'
      cases hbs'
      simpa only [List.nil_append] using hp
    · cases h

/-- A whole end of the single-stream harness writes the floats after `"GOSO"` and their
number, or reports `failed to write output` after the magic when there are more than
`UINT32_MAX` of them. -/
theorem finishSingle_done {w : ℕ} (enc : α → List UInt8) {calls : List ((ℕ → α) × ℕ)}
    {v : FloatVec α} (rest : List UInt8) (hv : v.Holds w calls) :
    finishSingle w (fun _ n => n) enc (.done v rest) =
      if decodedTotal calls ≤ 0xFFFFFFFF then .ok (decodedOutput gosoMagic enc calls)
      else .error .writeOutput gosoMagic := by
  have hlen : v.outLen = decodedTotal calls := hv.1
  simp only [finishSingle, writeThen_all, List.nil_append, hlen]
  by_cases hle : decodedTotal calls ≤ 0xFFFFFFFF
  · rw [if_neg (by omega), if_pos hle, hv.writeDecoded enc]
    rfl
  · rw [if_pos (by omega), if_neg hle]

/-- What the end of the single-stream harness returns `0` with: all its writes whole, at
most `UINT32_MAX` floats, and on `stdout` `"GOSO"`, their number and their bytes. -/
theorem finishSingle_eq_ok {w : ℕ} {fwrite : ℕ → ℕ → ℕ} {enc : α → List UInt8}
    {o : LoopOutcome α} {out : List UInt8} (h : finishSingle w fwrite enc o = .ok out) :
    ∃ v rest, o = .done v rest ∧ v.outLen ≤ 0xFFFFFFFF ∧ ∃ bs, writeDecoded w enc v = some bs ∧
      out = gosoMagic ++ u32Bytes (UInt32.ofNat v.outLen) ++ bs := by
  cases o with
  | error e => cases h
  | undefined => cases h
  | done v rest =>
    have h1 := writeThen_eq_ok h
    split_ifs at h1 with hbig
    have h2 := writeThen_eq_ok h1
    split at h2
    · cases h2
    rename_i bs hbs
    cases writeThen_eq_ok h2
    exact ⟨v, rest, rfl, by omega, bs, hbs, rfl⟩

/-- A run of the single-stream harness that returns `0`, whatever the C library answers,
with a decoder that returns at most `frame_size` from each call: `stdin` begins with
`"GOSI"`, version `1`, `channels` of `1` or `2`, a nonzero `frame_size`, `packet_count`, and
`packet_count` length-prefixed packets; every decode call returned at least `0`; and
`stdout` is `"GOSO"`, the number `T` of floats decoded as a `u32`, `T ≤ UINT32_MAX`, and the
first `decoded_samples * channels` floats of each frame in packet order. -/
theorem refdecodeSingle_ok {w : ℕ} (hw : 4096 < 2 ^ w) (libc : Libc)
    (enc : α → List UInt8) {dec : Decoder α} (hdec : ∀ fs ps, (dec.decode fs ps).1 ≤ fs)
    {input out : List UInt8} (h : refdecodeSingleWith w libc enc dec input = .ok out) :
    ∃ (channels frameSize packetCount : UInt32) (packets : List (List UInt8))
      (rest : List UInt8),
      input = gosiMagic ++ u32Bytes 1 ++ u32Bytes channels ++ u32Bytes frameSize ++
        u32Bytes packetCount ++ (packets.map packetBytes).flatten ++ rest ∧
      0 < channels.toNat ∧ channels.toNat ≤ 2 ∧ 0 < frameSize.toNat ∧
      packets.length = packetCount.toNat ∧ (∀ p ∈ packets, p.length < 2 ^ 32) ∧
      (∀ k < packets.length, 0 ≤ (dec.decode frameSize.toNat (packets.take (k + 1))).1) ∧
      decodedTotal (decodedCalls dec channels.toNat frameSize.toNat packets) ≤ 0xFFFFFFFF ∧
      out = decodedOutput gosoMagic enc
        (decodedCalls dec channels.toNat frameSize.toNat packets) := by
  rcases refdecodeSingle_cases w libc enc dec input with ⟨e, he⟩ |
    ⟨channels, frameSize, packetCount, input2, hinput, hc0, hc2, hf0, hframe, -, heq⟩
  · rw [he] at h
    cases h
  rw [heq] at h
  obtain ⟨v, rest, hloop, hbig, bs, hbs, rfl⟩ := finishSingle_eq_ok h
  obtain ⟨packets, hcount, hshort, hrest, hok, hlen, hout⟩ :=
    decodePackets_empty_done hw (hdec _) hframe enc hloop
  rw [hout] at hbs
  cases hbs
  refine ⟨channels, frameSize, packetCount, packets, rest, ?_, hc0, hc2, hf0, hcount, hshort,
    fun k hk => hok k (hcount ▸ hk), by omega, by rw [decodedOutput, ← hlen]⟩
  rw [hinput, hrest]
  simp only [List.append_assoc]

/-- A run of the single-stream harness ends in undefined behaviour, with a decoder that
returns at most `frame_size` from each call, only on a stream that begins with `"GOSI"`, a
header that passes the checks and packets whose floats number more than `2 ^ w / 8`:
with a 64-bit `size_t`, more than `2 ^ 61` floats. -/
theorem refdecodeSingle_undefined {w : ℕ} (hw : 4096 < 2 ^ w) (fits : ℕ → Bool)
    (enc : α → List UInt8) {dec : Decoder α} (hdec : ∀ fs ps, (dec.decode fs ps).1 ≤ fs)
    {input : List UInt8} (h : refdecodeSingle w fits enc dec input = .undefined) :
    ∃ (channels frameSize packetCount : UInt32) (packets : List (List UInt8))
      (rest : List UInt8),
      input = gosiMagic ++ u32Bytes 1 ++ u32Bytes channels ++ u32Bytes frameSize ++
        u32Bytes packetCount ++ (packets.map packetBytes).flatten ++ rest ∧
      0 < channels.toNat ∧ channels.toNat ≤ 2 ∧ 0 < frameSize.toNat ∧
      packets.length ≤ packetCount.toNat ∧
      (∀ k < packets.length, 0 ≤ (dec.decode frameSize.toNat (packets.take (k + 1))).1) ∧
      2 ^ w < 8 * decodedTotal (decodedCalls dec channels.toNat frameSize.toNat packets) := by
  rw [refdecodeSingle] at h
  rcases refdecodeSingle_cases w (.reliable fits) enc dec input with ⟨e, he⟩ |
    ⟨channels, frameSize, packetCount, input2, hinput, hc0, hc2, hf0, hframe, -, heq⟩
  · rw [he] at h
    cases h
  rw [heq, Libc.reliable_fwrite] at h
  rcases hloop : decodePackets w (.reliable fits) dec channels.toNat frameSize.toNat
    packetCount.toNat [] .empty input2 with ⟨v, rest⟩ | e | _ <;> rw [hloop] at h
  · obtain ⟨_, -, -, -, -, -, hout⟩ := decodePackets_empty_done hw (hdec _) hframe enc hloop
    simp only [finishSingle, writeThen_all, hout] at h
    split_ifs at h
  · cases h
  · obtain ⟨packets, hcount, -, ⟨rest, hrest⟩, hok, hbig⟩ :=
      decodePackets_undefined hw (hdec _) hframe (holds_empty_decodedCalls _ _ _) hloop
    refine ⟨channels, frameSize, packetCount, packets, rest, ?_, hc0, hc2, hf0, hcount,
      by simpa using hok, by simpa using hbig⟩
    rw [hinput, hrest]
    simp only [List.append_assoc]

theorem refdecodeSingle_undefined_at_2pow29_frame :
    4096 < 2 ^ 32 ∧ (∀ fs ps, ((fullDecoder fun i : ℕ => i).decode fs ps).1 ≤ fs) ∧
    refdecodeSingle 32 (fun _ => true) (fun x => [x.toUInt8]) (fullDecoder fun i => i)
      (gosiMagic ++ u32Bytes 1 ++ u32Bytes 1 ++ u32Bytes 536870913 ++ u32Bytes 1 ++
        u32Bytes 0) = .undefined ∧
    ∃ (channels frameSize packetCount : UInt32) (packets : List (List UInt8))
      (rest : List UInt8),
      gosiMagic ++ u32Bytes 1 ++ u32Bytes 1 ++ u32Bytes 536870913 ++ u32Bytes 1 ++
          u32Bytes 0 = gosiMagic ++ u32Bytes 1 ++ u32Bytes channels ++ u32Bytes frameSize ++
        u32Bytes packetCount ++ (packets.map packetBytes).flatten ++ rest ∧
      0 < channels.toNat ∧ channels.toNat ≤ 2 ∧ 0 < frameSize.toNat ∧
      packets.length ≤ packetCount.toNat ∧
      (∀ k < packets.length,
        0 ≤ ((fullDecoder fun i : ℕ => i).decode frameSize.toNat (packets.take (k + 1))).1) ∧
      2 ^ 32 < 8 * decodedTotal (decodedCalls (fullDecoder fun i : ℕ => i) channels.toNat
        frameSize.toNat packets) :=
  have h := refdecodeSingle_undefined_2pow29_stream (fun x : ℕ => [x.toUInt8]) fun i => i
  ⟨by decide, fun _ _ => le_rfl, h,
    refdecodeSingle_undefined (by decide) _ _ (fun _ _ => le_rfl) h⟩

/-- The converse of `refdecodeSingle_ok`: every valid stream whose floats number at most
`2 ^ w / 8`, decoded by a decoder that is created, keeps to its contract and returns at
least `0` from every call, ends as `main` does when `malloc`, `realloc` and the writes
succeed: it returns `0` with `"GOSO"`, the number of floats and the floats on `stdout`, or
reports `failed to write output` after the magic when there are more than `UINT32_MAX`
floats. -/
theorem refdecodeSingle_complete {w : ℕ} (hw : 4096 < 2 ^ w) (enc : α → List UInt8)
    {dec : Decoder α} (hcreated : dec.created = true)
    (hdec : ∀ fs ps, (dec.decode fs ps).1 ≤ fs) {channels frameSize packetCount : UInt32}
    (hdim : 0 < channels.toNat ∧ channels.toNat ≤ 2 ∧ 0 < frameSize.toNat)
    (hframe : channels.toNat * frameSize.toNat ≤ sizeMax w / 4)
    {packets : List (List UInt8)} (hcount : packets.length = packetCount.toNat)
    (hshort : ∀ p ∈ packets, p.length < 2 ^ 32)
    (hok : ∀ k < packets.length, 0 ≤ (dec.decode frameSize.toNat (packets.take (k + 1))).1)
    (htotal : 8 * decodedTotal (decodedCalls dec channels.toNat frameSize.toNat packets) ≤ 2 ^ w)
    (rest : List UInt8) :
    refdecodeSingle w (fun _ => true) enc dec
        (gosiMagic ++ u32Bytes 1 ++ u32Bytes channels ++ u32Bytes frameSize ++
          u32Bytes packetCount ++ (packets.map packetBytes).flatten ++ rest) =
      if decodedTotal (decodedCalls dec channels.toNat frameSize.toNat packets) ≤ 0xFFFFFFFF then
        .ok (decodedOutput gosoMagic enc (decodedCalls dec channels.toNat frameSize.toNat packets))
      else .error .writeOutput gosoMagic := by
  obtain ⟨v, hrun, hv⟩ := decodePackets_complete hw (hdec _) hframe packets rest
    (holds_empty_decodedCalls _ _ _) (.inl rfl) hshort (by simpa using hok)
    (by simpa using htotal)
  rw [List.nil_append] at hv
  rw [List.append_assoc _ _ rest, refdecodeSingle_of_stream hdim hframe hcreated, ← hcount, hrun,
    finishSingle_done enc rest hv]

theorem refdecodeSingle_complete_one_packet :
    4096 < 2 ^ 32 ∧ (fullDecoder fun i : ℕ => i).created = true ∧
    (0 < (1 : UInt32).toNat ∧ (1 : UInt32).toNat ≤ 2 ∧ 0 < (4 : UInt32).toNat) ∧
    (1 : UInt32).toNat * (4 : UInt32).toNat ≤ sizeMax 32 / 4 ∧
    [[7]].length = (1 : UInt32).toNat ∧ (∀ p ∈ [[(7 : UInt8)]], p.length < 2 ^ 32) ∧
    (∀ k < [[(7 : UInt8)]].length,
      0 ≤ ((fullDecoder fun i : ℕ => i).decode (4 : UInt32).toNat ([[7]].take (k + 1))).1) ∧
    8 * decodedTotal (decodedCalls (fullDecoder fun i : ℕ => i) (1 : UInt32).toNat
      (4 : UInt32).toNat [[7]]) ≤ 2 ^ 32 ∧
    refdecodeSingle 32 (fun _ => true) (fun x => [x.toUInt8]) (fullDecoder fun i : ℕ => i)
        (gosiMagic ++ u32Bytes 1 ++ u32Bytes 1 ++ u32Bytes 4 ++ u32Bytes 1 ++
          ([[7]].map packetBytes).flatten ++ []) =
      if decodedTotal (decodedCalls (fullDecoder fun i : ℕ => i) (1 : UInt32).toNat
          (4 : UInt32).toNat [[7]]) ≤ 0xFFFFFFFF then
        .ok (decodedOutput gosoMagic (fun x => [x.toUInt8])
          (decodedCalls (fullDecoder fun i : ℕ => i) (1 : UInt32).toNat (4 : UInt32).toNat [[7]]))
      else .error .writeOutput gosoMagic :=
  ⟨by decide, rfl, by decide, by decide, rfl, by decide, by decide, by decide,
    refdecodeSingle_complete (by decide) _ rfl (fun _ _ => le_rfl) (by decide) (by decide)
      (by decide) (by decide) (by decide) (by decide) []⟩

/-- Every valid stream whose floats number at most `2 ^ w / 8`, decoded by a decoder that
is created, keeps to its contract and returns at least `0` from every call, with `malloc`
and the writes succeeding, under any `realloc` behaviour: `main` ends as in
`refdecodeSingle_complete`, or reports `failed to append decoded samples` with nothing on
`stdout` when the `realloc` of some packet `k` fails, asked for the bytes of where the
doubling loop ends from `1024` for the floats of the packets up to `k`. A failed allocation
never reaches undefined behaviour and never writes part of the output. -/
theorem refdecodeSingle_complete_or_appendFailed {w : ℕ} (hw : 4096 < 2 ^ w)
    (fits : ℕ → Bool) (enc : α → List UInt8) {dec : Decoder α} (hcreated : dec.created = true)
    (hdec : ∀ fs ps, (dec.decode fs ps).1 ≤ fs) {channels frameSize packetCount : UInt32}
    (hdim : 0 < channels.toNat ∧ channels.toNat ≤ 2 ∧ 0 < frameSize.toNat)
    (hframe : channels.toNat * frameSize.toNat ≤ sizeMax w / 4)
    {packets : List (List UInt8)} (hcount : packets.length = packetCount.toNat)
    (hshort : ∀ p ∈ packets, p.length < 2 ^ 32)
    (hok : ∀ k < packets.length, 0 ≤ (dec.decode frameSize.toNat (packets.take (k + 1))).1)
    (htotal : 8 * decodedTotal (decodedCalls dec channels.toNat frameSize.toNat packets) ≤ 2 ^ w)
    (rest : List UInt8) :
    refdecodeSingle w fits enc dec
        (gosiMagic ++ u32Bytes 1 ++ u32Bytes channels ++ u32Bytes frameSize ++
          u32Bytes packetCount ++ (packets.map packetBytes).flatten ++ rest) =
      (if decodedTotal (decodedCalls dec channels.toNat frameSize.toNat packets) ≤ 0xFFFFFFFF then
        .ok (decodedOutput gosoMagic enc (decodedCalls dec channels.toNat frameSize.toNat packets))
      else .error .writeOutput gosoMagic) ∨
    (refdecodeSingle w fits enc dec
        (gosiMagic ++ u32Bytes 1 ++ u32Bytes channels ++ u32Bytes frameSize ++
          u32Bytes packetCount ++ (packets.map packetBytes).flatten ++ rest) =
      .error .appendFailed [] ∧
      ∃ k < packets.length, fits (growCap w (decodedTotal (decodedCalls dec channels.toNat
        frameSize.toNat (packets.take (k + 1)))) 1024 * 4) = false) := by
  rw [List.append_assoc _ _ rest, refdecodeSingle_of_stream hdim hframe hcreated, ← hcount]
  rcases decodePackets_complete_cases hw (hdec _) hframe packets rest
    (holds_empty_decodedCalls _ _ _) (.inl rfl) hshort (by simpa using hok)
    (by simpa using htotal) with ⟨hfail, hb⟩ | ⟨v, hrun, hv⟩
  · rw [hfail]
    exact .inr ⟨rfl, by simpa using hb⟩
  · rw [List.nil_append] at hv
    rw [hrun, finishSingle_done enc rest hv]
    exact .inl rfl

theorem refdecodeSingle_complete_or_appendFailed_failing_realloc :
    4096 < 2 ^ 32 ∧ (fullDecoder fun i : ℕ => i).created = true ∧
    (0 < (1 : UInt32).toNat ∧ (1 : UInt32).toNat ≤ 2 ∧ 0 < (4 : UInt32).toNat) ∧
    (1 : UInt32).toNat * (4 : UInt32).toNat ≤ sizeMax 32 / 4 ∧
    [[7]].length = (1 : UInt32).toNat ∧ (∀ p ∈ [[(7 : UInt8)]], p.length < 2 ^ 32) ∧
    (∀ k < [[(7 : UInt8)]].length,
      0 ≤ ((fullDecoder fun i : ℕ => i).decode (4 : UInt32).toNat ([[7]].take (k + 1))).1) ∧
    8 * decodedTotal (decodedCalls (fullDecoder fun i : ℕ => i) (1 : UInt32).toNat
      (4 : UInt32).toNat [[7]]) ≤ 2 ^ 32 ∧
    ((refdecodeSingle 32 (fun _ => false) (fun x => [x.toUInt8]) (fullDecoder fun i : ℕ => i)
        (gosiMagic ++ u32Bytes 1 ++ u32Bytes 1 ++ u32Bytes 4 ++ u32Bytes 1 ++
          ([[7]].map packetBytes).flatten ++ []) =
      (if decodedTotal (decodedCalls (fullDecoder fun i : ℕ => i) (1 : UInt32).toNat
          (4 : UInt32).toNat [[7]]) ≤ 0xFFFFFFFF then
        .ok (decodedOutput gosoMagic (fun x => [x.toUInt8])
          (decodedCalls (fullDecoder fun i : ℕ => i) (1 : UInt32).toNat (4 : UInt32).toNat [[7]]))
      else .error .writeOutput gosoMagic)) ∨
    (refdecodeSingle 32 (fun _ => false) (fun x => [x.toUInt8]) (fullDecoder fun i : ℕ => i)
        (gosiMagic ++ u32Bytes 1 ++ u32Bytes 1 ++ u32Bytes 4 ++ u32Bytes 1 ++
          ([[7]].map packetBytes).flatten ++ []) =
      .error .appendFailed [] ∧
      ∃ k < [[(7 : UInt8)]].length, (fun _ => false : ℕ → Bool) (growCap 32
        (decodedTotal (decodedCalls (fullDecoder fun i : ℕ => i) (1 : UInt32).toNat
          (4 : UInt32).toNat ([[7]].take (k + 1)))) 1024 * 4) = false)) :=
  ⟨by decide, rfl, by decide, by decide, rfl, by decide, by decide, by decide,
    refdecodeSingle_complete_or_appendFailed (by decide) _ _ rfl (fun _ _ => le_rfl) (by decide)
      (by decide) (by decide) (by decide) (by decide) (by decide) []⟩

/-- The converse of `refdecodeSingle_undefined`: every valid stream whose floats number more
than `2 ^ w / 8`, decoded by a decoder that is created, keeps to its contract and returns at
least `0` from every call, reaches undefined behaviour when `malloc`, `realloc` and the
writes succeed. With a 32-bit `size_t`, every valid stream of more than `2 ^ 29` floats
does. -/
theorem refdecodeSingle_undefined_of_total {w : ℕ} (hw : 4096 < 2 ^ w) (enc : α → List UInt8)
    {dec : Decoder α} (hcreated : dec.created = true)
    (hdec : ∀ fs ps, (dec.decode fs ps).1 ≤ fs) {channels frameSize packetCount : UInt32}
    (hdim : 0 < channels.toNat ∧ channels.toNat ≤ 2 ∧ 0 < frameSize.toNat)
    (hframe : channels.toNat * frameSize.toNat ≤ sizeMax w / 4)
    {packets : List (List UInt8)} (hcount : packets.length = packetCount.toNat)
    (hshort : ∀ p ∈ packets, p.length < 2 ^ 32)
    (hok : ∀ k < packets.length, 0 ≤ (dec.decode frameSize.toNat (packets.take (k + 1))).1)
    (hbig : 2 ^ w < 8 * decodedTotal (decodedCalls dec channels.toNat frameSize.toNat packets))
    (rest : List UInt8) :
    refdecodeSingle w (fun _ => true) enc dec
        (gosiMagic ++ u32Bytes 1 ++ u32Bytes channels ++ u32Bytes frameSize ++
          u32Bytes packetCount ++ (packets.map packetBytes).flatten ++ rest) = .undefined := by
  rw [List.append_assoc _ _ rest, refdecodeSingle_of_stream hdim hframe hcreated, ← hcount,
    decodePackets_undefined_of_total hw (hdec _) hframe packets rest
      (holds_empty_decodedCalls _ _ _) (.inl rfl) (by simp [decodedTotal, decodedCalls]) hshort
      (by simpa using hok) (by simpa using hbig)]
  rfl

theorem refdecodeSingle_undefined_of_total_2pow29 :
    4096 < 2 ^ 32 ∧ (fullDecoder fun i : ℕ => i).created = true ∧
    (0 < (1 : UInt32).toNat ∧ (1 : UInt32).toNat ≤ 2 ∧ 0 < (536870913 : UInt32).toNat) ∧
    (1 : UInt32).toNat * (536870913 : UInt32).toNat ≤ sizeMax 32 / 4 ∧
    [([] : List UInt8)].length = (1 : UInt32).toNat ∧
    (∀ p ∈ [([] : List UInt8)], p.length < 2 ^ 32) ∧
    (∀ k < [([] : List UInt8)].length, 0 ≤ ((fullDecoder fun i : ℕ => i).decode
      (536870913 : UInt32).toNat ([[]].take (k + 1))).1) ∧
    2 ^ 32 < 8 * decodedTotal (decodedCalls (fullDecoder fun i : ℕ => i) (1 : UInt32).toNat
      (536870913 : UInt32).toNat [[]]) ∧
    refdecodeSingle 32 (fun _ => true) (fun x => [x.toUInt8]) (fullDecoder fun i : ℕ => i)
        (gosiMagic ++ u32Bytes 1 ++ u32Bytes 1 ++ u32Bytes 536870913 ++ u32Bytes 1 ++
          ([[]].map packetBytes).flatten ++ []) = .undefined :=
  ⟨by decide, rfl, by decide, by decide, rfl, by decide, by decide, by decide,
    refdecodeSingle_undefined_of_total (by decide) _ rfl (fun _ _ => le_rfl) (by decide)
      (by decide) (by decide) (by decide) (by decide) (by decide) []⟩

/-- A `stdin` shorter than the magic and the header is rejected with nothing on `stdout`,
whatever the C library answers: `invalid input magic` or `failed to read header`. -/
theorem refdecodeSingle_short (w : ℕ) (libc : Libc) (enc : α → List UInt8)
    (dec : Decoder α) {input : List UInt8} (h : input.length < 20) :
    ∃ e ∈ [HarnessError.invalidMagic, .readHeader],
      refdecodeSingleWith w libc enc dec input = .error e [] := by
  by_cases h4 : input.length < 4
  · exact ⟨_, List.mem_cons_self _ _, by rw [refdecodeSingleWith, readExact_eq_none h4]⟩
  have hread : readExact 4 input = some (input.take 4, input.drop 4) := if_pos (by omega)
  rw [refdecodeSingleWith, hread]
  dsimp only
  by_cases hm : input.take 4 = gosiMagic
  · rw [if_neg (not_not.2 hm), readHeader_eq_none (by rw [List.length_drop]; omega)]
    exact ⟨_, List.mem_cons_of_mem _ (List.mem_singleton_self _), rfl⟩
  · exact ⟨_, List.mem_cons_self _ _, if_pos hm⟩

/-- The single-stream harness on a valid stream cut before its last byte, with floats that
number at most `2 ^ w / 8`, `malloc`, `realloc` and the writes succeeding and a decoder that
is created, keeps to its contract and returns at least `0`, reports `invalid input magic`,
`failed to read header`, `failed to read packet length` or `failed to read packet payload`
with nothing on `stdout`: it never returns `0` on a truncated stream and never reaches
undefined behaviour on one. -/
theorem refdecodeSingle_truncated {w : ℕ} (hw : 4096 < 2 ^ w) (enc : α → List UInt8)
    {dec : Decoder α} (hcreated : dec.created = true)
    (hdec : ∀ fs ps, (dec.decode fs ps).1 ≤ fs) {channels frameSize packetCount : UInt32}
    (hdim : 0 < channels.toNat ∧ channels.toNat ≤ 2 ∧ 0 < frameSize.toNat)
    (hframe : channels.toNat * frameSize.toNat ≤ sizeMax w / 4)
    {packets : List (List UInt8)} (hcount : packets.length = packetCount.toNat)
    (hshort : ∀ p ∈ packets, p.length < 2 ^ 32)
    (hok : ∀ k < packets.length, 0 ≤ (dec.decode frameSize.toNat (packets.take (k + 1))).1)
    (htotal : 8 * decodedTotal (decodedCalls dec channels.toNat frameSize.toNat packets) ≤ 2 ^ w)
    {k : ℕ} (hk : k < (gosiMagic ++ u32Bytes 1 ++ u32Bytes channels ++ u32Bytes frameSize ++
      u32Bytes packetCount ++ (packets.map packetBytes).flatten).length) :
    ∃ e ∈ [HarnessError.invalidMagic, .readHeader, .readPacketLength, .readPacketPayload],
      refdecodeSingle w (fun _ => true) enc dec
        ((gosiMagic ++ u32Bytes 1 ++ u32Bytes channels ++ u32Bytes frameSize ++
          u32Bytes packetCount ++ (packets.map packetBytes).flatten).take k) = .error e [] := by
  have hlen : (gosiMagic ++ u32Bytes 1 ++ u32Bytes channels ++ u32Bytes frameSize ++
      u32Bytes packetCount).length = 20 := by
    simp only [List.length_append, length_u32Bytes]
    rfl
  rw [List.length_append, hlen] at hk
  by_cases hcut : k < 20
  · -- the cut falls inside the magic or the header
    obtain ⟨e, he, h⟩ := refdecodeSingle_short w (.reliable fun _ => true) enc dec
      ((List.length_take_le _ _).trans_lt hcut)
    exact ⟨e, List.mem_append_left _ he, h⟩
  · -- the header is whole: the packet loop sees the packets cut
    obtain ⟨j, rfl⟩ : ∃ j, k = (gosiMagic ++ u32Bytes 1 ++ u32Bytes channels ++
        u32Bytes frameSize ++ u32Bytes packetCount).length + j := ⟨k - 20, by omega⟩
    rw [hlen] at hk
    obtain ⟨e, he, hloop⟩ := decodePackets_truncated hw (hdec _) hframe packets
      (holds_empty_decodedCalls _ _ _) (.inl rfl) hshort (by simpa using hok)
      (by simpa using htotal) (by omega : j < ((packets.map packetBytes).flatten).length)
    rw [List.take_append, refdecodeSingle_of_stream hdim hframe hcreated, ← hcount, hloop]
    exact ⟨e, List.mem_append_right [HarnessError.invalidMagic, .readHeader] he, rfl⟩

theorem refdecodeSingle_truncated_one_packet :
    4096 < 2 ^ 32 ∧ (fullDecoder fun i : ℕ => i).created = true ∧
    (0 < (1 : UInt32).toNat ∧ (1 : UInt32).toNat ≤ 2 ∧ 0 < (4 : UInt32).toNat) ∧
    (1 : UInt32).toNat * (4 : UInt32).toNat ≤ sizeMax 32 / 4 ∧
    [[7]].length = (1 : UInt32).toNat ∧ (∀ p ∈ [[(7 : UInt8)]], p.length < 2 ^ 32) ∧
    (∀ k < [[(7 : UInt8)]].length,
      0 ≤ ((fullDecoder fun i : ℕ => i).decode (4 : UInt32).toNat ([[7]].take (k + 1))).1) ∧
    8 * decodedTotal (decodedCalls (fullDecoder fun i : ℕ => i) (1 : UInt32).toNat
      (4 : UInt32).toNat [[7]]) ≤ 2 ^ 32 ∧
    24 < (gosiMagic ++ u32Bytes 1 ++ u32Bytes 1 ++ u32Bytes 4 ++ u32Bytes 1 ++
      ([[(7 : UInt8)]].map packetBytes).flatten).length ∧
    ∃ e ∈ [HarnessError.invalidMagic, .readHeader, .readPacketLength, .readPacketPayload],
      refdecodeSingle 32 (fun _ => true) (fun x => [x.toUInt8]) (fullDecoder fun i : ℕ => i)
        ((gosiMagic ++ u32Bytes 1 ++ u32Bytes 1 ++ u32Bytes 4 ++ u32Bytes 1 ++
          ([[7]].map packetBytes).flatten).take 24) = .error e [] :=
  ⟨by decide, rfl, by decide, by decide, rfl, by decide, by decide, by decide, by decide,
    refdecodeSingle_truncated (by decide) _ rfl (fun _ _ => le_rfl) (by decide) (by decide)
      (by decide) (by decide) (by decide) (by decide) (by decide)⟩

/-- A run of the single-stream harness that returns `1`, whatever the C library answers,
with a decoder that returns at most `frame_size` from each call, wrote nothing to `stdout`,
or is a `failed to write output` after the packet loop read `packet_count` packets, and
wrote a prefix of what the complete run writes: part of `"GOSO"`, of the number of floats
or of their bytes. -/
theorem refdecodeSingle_error_stdout {w : ℕ} (hw : 4096 < 2 ^ w) (libc : Libc)
    (enc : α → List UInt8) {dec : Decoder α} (hdec : ∀ fs ps, (dec.decode fs ps).1 ≤ fs)
    {input : List UInt8} {e : HarnessError} {out : List UInt8}
    (h : refdecodeSingleWith w libc enc dec input = .error e out) :
    out = [] ∨ e = .writeOutput ∧
      ∃ (channels frameSize packetCount : UInt32) (packets : List (List UInt8))
        (rest : List UInt8),
        input = gosiMagic ++ u32Bytes 1 ++ u32Bytes channels ++ u32Bytes frameSize ++
          u32Bytes packetCount ++ (packets.map packetBytes).flatten ++ rest ∧
        packets.length = packetCount.toNat ∧
        out <+: decodedOutput gosoMagic enc
          (decodedCalls dec channels.toNat frameSize.toNat packets) := by
  rcases refdecodeSingle_cases w libc enc dec input with ⟨e', he⟩ |
    ⟨channels, frameSize, packetCount, input2, hinput, -, -, -, hframe, -, heq⟩
  · rw [he] at h
    cases h
    exact .inl rfl
  rw [heq] at h
  rcases finishSingle_error h with hout | ⟨he, v, rest, hloop, hbs⟩
  · exact .inl hout
  obtain ⟨packets, hcount, -, hrest, -, hlen, hout⟩ :=
    decodePackets_empty_done hw (hdec _) hframe enc hloop
  refine .inr ⟨he, channels, frameSize, packetCount, packets, rest, ?_, hcount, ?_⟩
  · rw [hinput, hrest]
    simp only [List.append_assoc]
  · rw [decodedOutput, ← hlen]
    exact hbs _ hout

theorem refdecodeSingle_error_stdout_short_write :
    4096 < 2 ^ 32 ∧ (∀ fs ps, ((fullDecoder fun i : ℕ => i).decode fs ps).1 ≤ fs) ∧
    refdecodeSingleWith 32 ⟨fun _ => true, fun _ => true, fun _ _ => 2⟩ (fun x => [x.toUInt8])
        (fullDecoder fun i : ℕ => i)
        (gosiMagic ++ u32Bytes 1 ++ u32Bytes 1 ++ u32Bytes 4 ++ u32Bytes 0) =
      .error .writeOutput [0x47, 0x4F] ∧
    ([(0x47 : UInt8), 0x4F] = [] ∨ HarnessError.writeOutput = .writeOutput ∧
      ∃ (channels frameSize packetCount : UInt32) (packets : List (List UInt8))
        (rest : List UInt8),
        gosiMagic ++ u32Bytes 1 ++ u32Bytes 1 ++ u32Bytes 4 ++ u32Bytes 0 =
          gosiMagic ++ u32Bytes 1 ++ u32Bytes channels ++ u32Bytes frameSize ++
            u32Bytes packetCount ++ (packets.map packetBytes).flatten ++ rest ∧
        packets.length = packetCount.toNat ∧
        [0x47, 0x4F] <+: decodedOutput gosoMagic (fun x : ℕ => [x.toUInt8])
          (decodedCalls (fullDecoder fun i : ℕ => i) channels.toNat frameSize.toNat packets)) :=
  have h : refdecodeSingleWith 32 ⟨fun _ => true, fun _ => true, fun _ _ => 2⟩
      (fun x : ℕ => [x.toUInt8]) (fullDecoder fun i : ℕ => i)
      (gosiMagic ++ u32Bytes 1 ++ u32Bytes 1 ++ u32Bytes 4 ++ u32Bytes 0) =
      .error .writeOutput [0x47, 0x4F] := rfl
  ⟨by decide, fun _ _ => le_rfl, h,
    refdecodeSingle_error_stdout (by decide) _ _ (fun _ _ => le_rfl) h⟩

end Gopus
