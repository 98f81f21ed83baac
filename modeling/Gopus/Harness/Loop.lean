import Gopus.Harness.Wire
import Gopus.Harness.AppendFloats

/-!
# The packet loop of the reference-decode harnesses

Both harnesses, and both branches of the multistream one, run the same loop over
`packet_count` packets: `read_u32(&packet_len)`, the payload when `packet_len > 0`, one
call of the external decoder on it, and `append_floats` of `decoded_samples * channels`
floats of the frame buffer. They end the same way: `write_exact(decoded, decoded_len *
sizeof(float))`, each `write_exact` of the end a `writeThen`, which may come short.

The decoder is external, so it is a parameter: whether creating it succeeds, and what each
decode call returns, given the `frame_size` it is passed and the packets so far, together
with the frame buffer it leaves. The run lemma `decodePackets_done` says what a loop that
completes read from `stdin` and appended, by induction over the packets, from the step
lemma of `append_floats`; `decodePackets_complete_cases` runs the loop on well-formed
packets under any `realloc` behaviour, the failed allocation a case of its step lemma.
-/

namespace Gopus

variable {α : Type}

/-- Why a harness returns `1`; each is one `fprintf(stderr, ...)` of the source. -/
inductive HarnessError where
  /-- `invalid input magic` -/
  | invalidMagic
  /-- `failed to read header` -/
  | readHeader
  /-- `invalid decoder dimensions` -/
  | invalidDimensions
  /-- `failed to read mapping` -/
  | readMapping
  /-- `failed to read demixing matrix` -/
  | readDemixing
  /-- `frame buffer overflow` -/
  | frameOverflow
  /-- `failed to allocate frame buffer` -/
  | allocFrame
  /-- `opus_decoder_create failed: %d` and its multistream and projection forms -/
  | createFailed
  /-- `failed to read packet length` -/
  | readPacketLength
  /-- `failed to read packet payload` -/
  | readPacketPayload
  /-- `opus_decode_float failed: %d` and its multistream and projection forms, with the
  value the decoder returned -/
  | decodeFailed (ret : ℤ)
  /-- `failed to append decoded samples` -/
  | appendFailed
  /-- `decoded output too large` -/
  | outputTooLarge
  /-- `failed to write output` -/
  | writeOutput
  deriving DecidableEq, Repr

/-- How a harness run ends: `return 0` with what it wrote to `stdout`, `return 1` after
an error with what it wrote to `stdout` before, or undefined behaviour. -/
inductive HarnessOutcome where
  | ok (stdout : List UInt8)
  | error (e : HarnessError) (stdout : List UInt8)
  | undefined
  deriving DecidableEq, Repr

/-- What a harness sees of the external decoder. -/
structure Decoder (α : Type) where
  /-- Whether creating the decoder succeeds. -/
  created : Bool
  /-- The value a decode call returns and the frame buffer it leaves, given the
  `frame_size` it is passed and the packets decoded so far, the last one now. -/
  decode : ℕ → List (List UInt8) → ℤ × (ℕ → α)

/-- A decoder that is created and fills the whole frame at every call: it returns
`frame_size`. -/
def fullDecoder (frame : ℕ → α) : Decoder α :=
  ⟨true, fun frameSize _ => (frameSize, frame)⟩

/-- What the C library answers a harness: whether `malloc` and `realloc` find a block of a
byte count, and how many of `n` bytes `fwrite` writes to `stdout` after `k`. -/
structure Libc where
  /-- `malloc(bytes) != NULL`. -/
  malloc : ℕ → Bool
  /-- `realloc(p, bytes) != NULL`. -/
  realloc : ℕ → Bool
  /-- `fwrite(src, 1, n, stdout)` after `k` bytes, as `fwrite k n`. -/
  fwrite : ℕ → ℕ → ℕ

/-- A C library whose `malloc` and writes succeed, and whose `realloc` succeeds where `fits`
says. -/
def Libc.reliable (fits : ℕ → Bool) : Libc := ⟨fun _ => true, fits, fun _ n => n⟩

@[simp] theorem Libc.reliable_malloc (fits : ℕ → Bool) (n : ℕ) :
    (Libc.reliable fits).malloc n = true := rfl

@[simp] theorem Libc.reliable_realloc (fits : ℕ → Bool) : (Libc.reliable fits).realloc = fits :=
  rfl

@[simp] theorem Libc.reliable_fwrite (fits : ℕ → Bool) :
    (Libc.reliable fits).fwrite = fun _ n => n := rfl

/-- `if (n > 0) { buf = malloc(n); if (buf == NULL || !read_exact(buf, n)) ... }`: the `n`
bytes, or `none` when `malloc` fails or `stdin` ends first. -/
def readBlob (malloc : ℕ → Bool) (n : ℕ) (input : List UInt8) :
    Option (List UInt8 × List UInt8) :=
  if n > 0 then (if malloc n then readExact n input else none) else some ([], input)

/-- How the packet loop ends. -/
inductive LoopOutcome (α : Type) where
  /-- Every packet decoded and appended, with the variables of `append_floats` and the
  bytes of `stdin` left. -/
  | done (v : FloatVec α) (rest : List UInt8)
  | error (e : HarnessError)
  | undefined

/-- The packet loop with `count` packets still to decode after the packets `seen`, with a
`w`-bit `size_t`. -/
def decodePackets (w : ℕ) (libc : Libc) (dec : Decoder α) (channels frameSize : ℕ) :
    ℕ → List (List UInt8) → FloatVec α → List UInt8 → LoopOutcome α
  | 0, _, v, input => .done v input
  | count + 1, seen, v, input =>
    match readU32 input with
    | none => .error .readPacketLength
    | some (len, input) =>
      match readBlob libc.malloc len.toNat input with
      | none => .error .readPacketPayload
      | some (packet, input) =>
        let r := dec.decode frameSize (seen ++ [packet])
        if r.1 < 0 then .error (.decodeFailed r.1)
        else
          match appendFloats w libc.realloc v r.2 (r.1.toNat * channels % 2 ^ w) with
          | .failed => .error .appendFailed
          | .outOfBounds => .undefined
          | .appended v =>
            decodePackets w libc dec channels frameSize count (seen ++ [packet]) v input

/-- The `k` floats of block `p` from float `i` on, as `fwrite` reads them: `none` past the
block's end or at a float nothing stored. -/
def readFloats (p : FloatBlock α) : ℕ → ℕ → Option (List α)
  | _, 0 => some []
  | i, k + 1 =>
    if i < p.size then (p.data i).bind fun x => (readFloats p (i + 1) k).map (x :: ·) else none

/-- `write_exact(decoded, decoded_len * sizeof(float))`: the bytes of the floats it reads,
each float's bytes given by `enc`. When nothing was appended `decoded` is still `NULL`, and
the single-stream harness calls `fwrite(NULL, 1, 0, stdout)`: ISO C (7.1.4) leaves a null
pointer argument undefined even for no bytes, where the model, as C libraries do, writes
nothing. The multistream harness guards the call with `decoded_len > 0`. -/
def writeDecoded (w : ℕ) (enc : α → List UInt8) (v : FloatVec α) : Option (List UInt8) :=
  (readFloats (v.out.getD .null) 0 (v.outLen * 4 % 2 ^ w / 4)).map (·.flatMap enc)

/-- `!write_exact(bs, n) || ...` after `out` on `stdout`: a short write reports `failed to
write output` with what reached `stdout`; a whole one goes on as `k` from `out ++ bs`. -/
def writeThen (fwrite : ℕ → ℕ → ℕ) (out bs : List UInt8) (k : List UInt8 → HarnessOutcome) :
    HarnessOutcome :=
  match writeExact fwrite out bs with
  | .error out => .error .writeOutput out
  | .ok out => k out

/-! ### What the loop is specified to do -/

@[simp] theorem writeThen_all (out bs : List UInt8) (k : List UInt8 → HarnessOutcome) :
    writeThen (fun _ n => n) out bs k = k (out ++ bs) := by
  simp only [writeThen, writeExact_all]

/-- A `writeThen` that returns `0` wrote all of `bs`. -/
theorem writeThen_eq_ok {fwrite : ℕ → ℕ → ℕ} {out bs r : List UInt8}
    {k : List UInt8 → HarnessOutcome} (h : writeThen fwrite out bs k = .ok r) :
    k (out ++ bs) = .ok r := by
  rcases writeExact_cases fwrite out bs with hw | ⟨j, -, hw⟩ <;> simp only [writeThen, hw] at h
  · exact h
  · cases h

/-- A `writeThen` that returns `1` left a prefix of `out ++ bs` on `stdout` at `failed to
write output`, or wrote all of `bs` and its continuation returned `1`. -/
theorem writeThen_eq_error {fwrite : ℕ → ℕ → ℕ} {out bs r : List UInt8}
    {k : List UInt8 → HarnessOutcome} {e : HarnessError}
    (h : writeThen fwrite out bs k = .error e r) :
    e = .writeOutput ∧ r <+: out ++ bs ∨ k (out ++ bs) = .error e r := by
  rcases writeExact_cases fwrite out bs with hw | ⟨j, -, hw⟩ <;> simp only [writeThen, hw] at h
  · exact .inr h
  · obtain ⟨rfl, rfl⟩ := h
    exact .inl ⟨rfl, (List.prefix_append_right_inj out).2 (List.take_prefix j bs)⟩

/-- A packet as the input stream carries it: its length as a `u32`, then its bytes. -/
def packetBytes (p : List UInt8) : List UInt8 := u32Bytes (UInt32.ofNat p.length) ++ p

/-- The decode calls on `packets`, one per packet with the packets up to it: the frame
each leaves and the number of its floats appended, `decoded_samples * channels`. -/
def decodedCalls (dec : Decoder α) (channels frameSize : ℕ) (packets : List (List UInt8)) :
    List ((ℕ → α) × ℕ) :=
  (List.range packets.length).map fun k =>
    ((dec.decode frameSize (packets.take (k + 1))).2,
      (dec.decode frameSize (packets.take (k + 1))).1.toNat * channels)

/-- The first `n` floats of each frame, concatenated in call order. -/
def flatFloats (calls : List ((ℕ → α) × ℕ)) : List α :=
  calls.flatMap fun c => (List.range c.2).map c.1

/-- The number of floats the calls append. -/
def decodedTotal (calls : List ((ℕ → α) × ℕ)) : ℕ := (calls.map Prod.snd).sum

/-- The output for the calls: the magic, their number of floats as a `u32`, and the
floats. -/
def decodedOutput (magic : List UInt8) (enc : α → List UInt8)
    (calls : List ((ℕ → α) × ℕ)) : List UInt8 :=
  magic ++ u32Bytes (UInt32.ofNat (decodedTotal calls)) ++ (flatFloats calls).flatMap enc

/-- The length `read_u32` read back as a `UInt32` from its value. -/
theorem uint32_ofNat_toNat (v : UInt32) : UInt32.ofNat v.toNat = v :=
  UInt32.toNat.inj (UInt32.toNat_ofNat_of_lt v.toNat_lt_size)

/-- What a successful blob read consumed. -/
theorem readBlob_eq_some {malloc : ℕ → Bool} {n : ℕ} {input bs rest : List UInt8}
    (h : readBlob malloc n input = some (bs, rest)) : input = bs ++ rest ∧ bs.length = n := by
  unfold readBlob at h
  split at h
  · split at h
    · exact readExact_eq_some h
    · cases h
  · cases h
    exact ⟨rfl, by simp only [List.length_nil]; omega⟩

/-- A blob of the length it is given is read back whole when `malloc` finds its block. -/
theorem readBlob_append {malloc : ℕ → Bool} (bs rest : List UInt8)
    (hm : malloc bs.length = true) : readBlob malloc bs.length (bs ++ rest) = some (bs, rest) := by
  rw [readBlob]
  by_cases hn : bs.length > 0
  · rw [if_pos hn, if_pos hm]
    exact readExact_append bs rest
  · obtain rfl : bs = [] := List.eq_nil_of_length_eq_zero (by omega)
    rfl

/-- A blob read fails when `stdin` ends before its last byte. -/
theorem readBlob_eq_none {malloc : ℕ → Bool} {n : ℕ} {input : List UInt8}
    (h : input.length < n) : readBlob malloc n input = none := by
  rw [readBlob, if_pos (by omega)]
  split
  · exact readExact_eq_none h
  · rfl

/-- A packet length read by `read_u32` and the payload read after it: the stream began with
the packet as the input stream carries it. -/
theorem packetBytes_of_read {malloc : ℕ → Bool} {input input1 input2 packet : List UInt8}
    {len : UInt32} (hlen : readU32 input = some (len, input1))
    (hblob : readBlob malloc len.toNat input1 = some (packet, input2)) :
    input = packetBytes packet ++ input2 ∧ packet.length < 2 ^ 32 := by
  obtain ⟨rfl, hplen⟩ := readBlob_eq_some hblob
  refine ⟨?_, hplen ▸ len.toNat_lt_size⟩
  rw [readU32_eq_some hlen, packetBytes, hplen, uint32_ofNat_toNat, List.append_assoc]

/-- A packet as the input stream carries it is read back: its length by `read_u32`. -/
theorem readU32_packetBytes (p input : List UInt8) :
    readU32 (packetBytes p ++ input) = some (UInt32.ofNat p.length, p ++ input) := by
  rw [packetBytes, List.append_assoc, readU32_u32Bytes]

/-- A packet as the input stream carries it is read back: its payload, by `read_exact`, when
`malloc` finds its block. -/
theorem readBlob_packetBytes {malloc : ℕ → Bool} {p : List UInt8} (hp : p.length < 2 ^ 32)
    (hm : malloc p.length = true) (input : List UInt8) :
    readBlob malloc (UInt32.ofNat p.length).toNat (p ++ input) = some (p, input) := by
  rw [UInt32.toNat_ofNat_of_lt hp, readBlob_append _ _ hm]

/-- One packet more adds its decode call at the end. -/
theorem decodedCalls_append_single (dec : Decoder α) (channels frameSize : ℕ)
    (seen : List (List UInt8)) (p : List UInt8) :
    decodedCalls dec channels frameSize (seen ++ [p]) =
      decodedCalls dec channels frameSize seen ++
        [((dec.decode frameSize (seen ++ [p])).2,
          (dec.decode frameSize (seen ++ [p])).1.toNat * channels)] := by
  rw [decodedCalls, List.length_append, List.length_singleton, List.range_succ, List.map_append,
    List.map_singleton, decodedCalls, List.take_of_length_le (by simp)]
  congr 1
  refine List.map_congr_left fun k hk => ?_
  rw [List.mem_range] at hk
  rw [List.take_append_of_le_length (by omega)]

/-- One packet more adds the floats of its decode call to the total. -/
theorem decodedTotal_append_single (dec : Decoder α) (channels frameSize : ℕ)
    (seen : List (List UInt8)) (p : List UInt8) :
    decodedTotal (decodedCalls dec channels frameSize (seen ++ [p])) =
      decodedTotal (decodedCalls dec channels frameSize seen) +
        (dec.decode frameSize (seen ++ [p])).1.toNat * channels := by
  rw [decodedTotal, decodedCalls_append_single, List.map_append, List.sum_append]
  rfl

/-- More packets never decode fewer floats. -/
theorem decodedTotal_le_append (dec : Decoder α) (channels frameSize : ℕ)
    (seen packets : List (List UInt8)) :
    decodedTotal (decodedCalls dec channels frameSize seen) ≤
      decodedTotal (decodedCalls dec channels frameSize (seen ++ packets)) := by
  induction packets generalizing seen with
  | nil => rw [List.append_nil]
  | cons p ps ih =>
    have hstep := decodedTotal_append_single dec channels frameSize seen p
    rw [← List.singleton_append, ← List.append_assoc]
    exact (Nat.le_add_right _ _).trans (hstep ▸ ih (seen ++ [p]))

/-! ### The output -/

/-- Float `i` of the concatenation is float `i` of `flatFloats`. -/
theorem concatSrc_eq_get_flatFloats (calls : List ((ℕ → α) × ℕ)) (i : ℕ) :
    concatSrc calls i = (flatFloats calls)[i]? := by
  induction calls generalizing i with
  | nil => rfl
  | cons c calls ih =>
    obtain ⟨src, n⟩ := c
    simp only [concatSrc, flatFloats, List.flatMap_cons] at ih ⊢
    by_cases hi : i < n
    · rw [if_pos hi, List.getElem?_append_left (by simpa using hi), List.getElem?_map,
        List.getElem?_range hi]
      rfl
    · rw [if_neg hi, List.getElem?_append_right (by simp; omega), ih, List.length_map,
        List.length_range]

theorem length_flatFloats (calls : List ((ℕ → α) × ℕ)) :
    (flatFloats calls).length = (calls.map Prod.snd).sum := by
  induction calls with
  | nil => rfl
  | cons c calls ih =>
    simp only [flatFloats, List.flatMap_cons, List.length_append, List.length_map,
      List.length_range, List.map_cons, List.sum_cons] at ih ⊢
    rw [ih]

/-- `fwrite` reads `l` from float `i` on where the block holds `l` there. -/
theorem readFloats_eq_some (p : FloatBlock α) (l : List α) (i : ℕ)
    (hsize : i + l.length ≤ p.size) (hdata : ∀ j < l.length, p.data (i + j) = l[j]?) :
    readFloats p i l.length = some l := by
  induction l generalizing i with
  | nil => rfl
  | cons x l ih =>
    simp only [List.length_cons] at hsize hdata
    have hx : p.data i = some x := by simpa using hdata 0 (by omega)
    have hrest : readFloats p (i + 1) l.length = some l :=
      ih (i + 1) (by omega) fun j hj => by
        simpa [Nat.add_assoc, Nat.add_comm 1] using hdata (j + 1) (by omega)
    rw [List.length_cons, readFloats, if_pos (by omega), hx, Option.some_bind, hrest]
    rfl

/-- A `decoded` array holding `calls` is written out as the bytes of their floats. -/
theorem FloatVec.Holds.writeDecoded {w : ℕ} {v : FloatVec α} {calls : List ((ℕ → α) × ℕ)}
    (hv : v.Holds w calls) (enc : α → List UInt8) :
    writeDecoded w enc v = some ((flatFloats calls).flatMap enc) := by
  obtain ⟨hsum, hlen, hcap, hsize, hdata⟩ := hv
  have hk : v.outLen * 4 % 2 ^ w / 4 = v.outLen := by rw [Nat.mod_eq_of_lt (by omega)]; omega
  have hl : (flatFloats calls).length = v.outLen := by rw [length_flatFloats, hsum]
  have hread := readFloats_eq_some (v.out.getD .null) (flatFloats calls) 0 (by omega)
    fun j hj => by rw [Nat.zero_add, hdata j (hl ▸ hj), concatSrc_eq_get_flatFloats]
  rw [Gopus.writeDecoded, hk, ← hl, hread]
  rfl

/-- The `frame buffer overflow` check passed: `channels * frame_size` floats take fewer than
`2 ^ w` bytes. -/
theorem frameCheck_le {w channels frameSize : ℕ} (hfs : frameSize ≠ 0)
    (h : ¬(channels > sizeMax w / frameSize ∨ channels * frameSize % 2 ^ w > sizeMax w / 4)) :
    channels * frameSize ≤ sizeMax w / 4 := by
  rw [not_or, not_lt, not_lt] at h
  have hle := (Nat.le_div_iff_mul_le (Nat.pos_of_ne_zero hfs)).1 h.1
  have hlt : channels * frameSize < 2 ^ w := by unfold sizeMax at hle; omega
  rw [Nat.mod_eq_of_lt hlt] at h
  exact h.2

/-- The converse: `channels * frame_size` floats that take fewer than `2 ^ w` bytes pass the
`frame buffer overflow` check. -/
theorem frameCheck_of_le {w channels frameSize : ℕ} (hfs : frameSize ≠ 0)
    (h : channels * frameSize ≤ sizeMax w / 4) :
    ¬(channels > sizeMax w / frameSize ∨ channels * frameSize % 2 ^ w > sizeMax w / 4) := by
  have hlt : channels * frameSize < 2 ^ w := by
    have := Nat.two_pow_pos w
    unfold sizeMax at h
    omega
  rw [Nat.mod_eq_of_lt hlt, not_or, not_lt, not_lt]
  exact ⟨(Nat.le_div_iff_mul_le (Nat.pos_of_ne_zero hfs)).2 (by omega), h⟩

section Run

variable {w : ℕ} {libc : Libc} {dec : Decoder α} {channels frameSize : ℕ}

/-- A decode call within its contract appends `decoded_samples * channels` floats whose
byte count does not wrap, when `channels * frame_size` floats passed the `frame buffer
overflow` check. -/
theorem appendCount_lt {ret : ℤ} (hret : 0 ≤ ret) (hle : ret ≤ frameSize)
    (hframe : channels * frameSize ≤ sizeMax w / 4) :
    ret.toNat * channels % 2 ^ w = ret.toNat * channels ∧ ret.toNat * channels * 4 < 2 ^ w := by
  have hmul : ret.toNat * channels ≤ frameSize * channels :=
    Nat.mul_le_mul_right _ (by omega)
  have hpos := Nat.two_pow_pos w
  unfold sizeMax at hframe
  rw [Nat.mul_comm channels] at hframe
  constructor
  · exact Nat.mod_eq_of_lt (by omega)
  · omega

/-- An iteration that reads a packet and gets a count of at least `0` from the decoder goes
on as its call of `append_floats` ends. -/
theorem decodePackets_succ {count : ℕ} {seen : List (List UInt8)} {v : FloatVec α}
    {input input1 input2 packet : List UInt8} {len : UInt32}
    (hlen : readU32 input = some (len, input1))
    (hblob : readBlob libc.malloc len.toNat input1 = some (packet, input2))
    (hret : 0 ≤ (dec.decode frameSize (seen ++ [packet])).1) :
    decodePackets w libc dec channels frameSize (count + 1) seen v input =
      match appendFloats w libc.realloc v (dec.decode frameSize (seen ++ [packet])).2
          ((dec.decode frameSize (seen ++ [packet])).1.toNat * channels % 2 ^ w) with
      | .failed => .error .appendFailed
      | .outOfBounds => .undefined
      | .appended v' =>
        decodePackets w libc dec channels frameSize count (seen ++ [packet]) v' input2 := by
  rw [decodePackets, hlen]
  dsimp only
  rw [hblob]
  dsimp only
  rw [if_neg (not_lt.2 hret)]

/-- An iteration either reports an error, or reads a packet and gets a count of at least
`0` for it, and goes on as `decodePackets_succ` says. -/
theorem decodePackets_succ_cases {count : ℕ} {seen : List (List UInt8)} {v : FloatVec α}
    {input : List UInt8} :
    (∃ e, decodePackets w libc dec channels frameSize (count + 1) seen v input = .error e) ∨
    ∃ len input1 packet input2, readU32 input = some (len, input1) ∧
      readBlob libc.malloc len.toNat input1 = some (packet, input2) ∧
      0 ≤ (dec.decode frameSize (seen ++ [packet])).1 := by
  rcases hlen : readU32 input with _ | ⟨len, input1⟩
  · exact .inl ⟨_, by rw [decodePackets, hlen]⟩
  rcases hblob : readBlob libc.malloc len.toNat input1 with _ | ⟨packet, input2⟩
  · exact .inl ⟨_, by rw [decodePackets, hlen]; dsimp only; rw [hblob]⟩
  by_cases hret : 0 ≤ (dec.decode frameSize (seen ++ [packet])).1
  · exact .inr ⟨len, input1, packet, input2, rfl, hblob, hret⟩
  · refine .inl ⟨.decodeFailed (dec.decode frameSize (seen ++ [packet])).1, ?_⟩
    rw [decodePackets, hlen]
    dsimp only
    rw [hblob]
    dsimp only
    rw [if_pos (not_le.1 hret)]

/-- A call of `append_floats` that writes past its block makes the run undefined. -/
theorem decodePackets_undefined_of_outOfBounds {count : ℕ} {seen : List (List UInt8)}
    {v : FloatVec α} {input input1 input2 packet : List UInt8} {len : UInt32} {ret : ℤ}
    {frame : ℕ → α} (hlen : readU32 input = some (len, input1))
    (hblob : readBlob libc.malloc len.toNat input1 = some (packet, input2))
    (hdecode : dec.decode frameSize (seen ++ [packet]) = (ret, frame)) (hret : 0 ≤ ret)
    (hoob : appendFloats w libc.realloc v frame (ret.toNat * channels % 2 ^ w) = .outOfBounds) :
    decodePackets w libc dec channels frameSize (count + 1) seen v input = .undefined := by
  rw [decodePackets_succ hlen hblob (by rw [hdecode]; exact hret), hdecode]
  dsimp only
  rw [hoob]

/-- A packet loop that completes read `count` length-prefixed packets, got a count of at
least `0` from every decode call, and appended `decoded_samples * channels` floats of each
frame, when the decoder keeps to its contract and `channels * frame_size` floats passed the
`frame buffer overflow` check. -/
theorem decodePackets_done (hw : 4096 < 2 ^ w)
    (hdec : ∀ ps, (dec.decode frameSize ps).1 ≤ frameSize)
    (hframe : channels * frameSize ≤ sizeMax w / 4) {count : ℕ} {seen : List (List UInt8)}
    {v v' : FloatVec α} {input rest : List UInt8}
    (hv : v.Holds w (decodedCalls dec channels frameSize seen))
    (h : decodePackets w libc dec channels frameSize count seen v input = .done v' rest) :
    ∃ packets : List (List UInt8), packets.length = count ∧
      (∀ p ∈ packets, p.length < 2 ^ 32) ∧
      input = (packets.map packetBytes).flatten ++ rest ∧
      (∀ k < count, 0 ≤ (dec.decode frameSize (seen ++ packets.take (k + 1))).1) ∧
      v'.Holds w (decodedCalls dec channels frameSize (seen ++ packets)) := by
  induction count generalizing seen v input with
  | zero =>
    cases h
    exact ⟨[], rfl, by simp, by simp, by simp, by simpa using hv⟩
  | succ count ih =>
    rcases decodePackets_succ_cases with
      ⟨e, he⟩ | ⟨len, input1, packet, input2, hlen, hblob, hret⟩
    · rw [he] at h
      cases h
    obtain ⟨hinput, hplen⟩ := packetBytes_of_read hlen hblob
    obtain ⟨hmod, hbytes⟩ := appendCount_lt hret (hdec _) hframe
    have hstep :=
      hv.appendFloats_spec hw libc.realloc (dec.decode frameSize (seen ++ [packet])).2 hbytes
    rw [decodePackets_succ hlen hblob hret, hmod] at h
    generalize appendFloats w libc.realloc v _ _ = o at h hstep
    cases o with
    | failed => cases h
    | outOfBounds => cases h
    | appended v1 =>
      rw [← decodedCalls_append_single] at hstep
      obtain ⟨packets, hcount, hshort, hrest, hok, hv'⟩ := ih hstep h
      refine ⟨packet :: packets, by simp [hcount], ?_, ?_, ?_, by simpa using hv'⟩
      · intro p hp
        rcases List.mem_cons.1 hp with rfl | hp
        exacts [hplen, hshort p hp]
      · rw [hinput, hrest, List.map_cons, List.flatten_cons, List.append_assoc]
      · rintro (_ | k) hk
        · simpa using hret
        · simpa using hok k (by omega)

/-- A packet loop that ends in undefined behaviour read packets, got a count of at least `0`
from each decode call, and the floats of those calls, with those appended before the loop,
number more than `2 ^ w / 8`: the last call's `memcpy` wrote past its block only then. -/
theorem decodePackets_undefined (hw : 4096 < 2 ^ w)
    (hdec : ∀ ps, (dec.decode frameSize ps).1 ≤ frameSize)
    (hframe : channels * frameSize ≤ sizeMax w / 4) {count : ℕ} {seen : List (List UInt8)}
    {v : FloatVec α} {input : List UInt8}
    (hv : v.Holds w (decodedCalls dec channels frameSize seen))
    (h : decodePackets w libc dec channels frameSize count seen v input = .undefined) :
    ∃ packets : List (List UInt8), packets.length ≤ count ∧
      (∀ p ∈ packets, p.length < 2 ^ 32) ∧
      (∃ rest, input = (packets.map packetBytes).flatten ++ rest) ∧
      (∀ k < packets.length, 0 ≤ (dec.decode frameSize (seen ++ packets.take (k + 1))).1) ∧
      2 ^ w < 8 * decodedTotal (decodedCalls dec channels frameSize (seen ++ packets)) := by
  induction count generalizing seen v input with
  | zero => cases h
  | succ count ih =>
    rcases decodePackets_succ_cases with
      ⟨e, he⟩ | ⟨len, input1, packet, input2, hlen, hblob, hret⟩
    · rw [he] at h
      cases h
    obtain ⟨hinput, hplen⟩ := packetBytes_of_read hlen hblob
    obtain ⟨hmod, hbytes⟩ := appendCount_lt hret (hdec _) hframe
    have hstep :=
      hv.appendFloats_spec hw libc.realloc (dec.decode frameSize (seen ++ [packet])).2 hbytes
    have hsum := decodedTotal_append_single dec channels frameSize seen packet
    rw [decodePackets_succ hlen hblob hret, hmod] at h
    generalize appendFloats w libc.realloc v _ _ = o at h hstep
    cases o with
    | failed => cases h
    | outOfBounds =>
      have hoob : 2 ^ w < 8 * (v.outLen + _) := hstep
      rw [hv.1] at hoob
      change 2 ^ w < 8 * (decodedTotal _ + _) at hoob
      refine ⟨[packet], by simp, by simpa using hplen, ⟨input2, by simpa using hinput⟩,
        by simpa using hret, by omega⟩
    | appended v1 =>
      rw [← decodedCalls_append_single] at hstep
      obtain ⟨packets, hcount, hshort, ⟨rest, hrest⟩, hok, hbig⟩ := ih hstep h
      refine ⟨packet :: packets, by simp; omega, ?_, ⟨rest, ?_⟩, ?_, by simpa using hbig⟩
      · intro p hp
        rcases List.mem_cons.1 hp with rfl | hp
        exacts [hplen, hshort p hp]
      · rw [hinput, hrest, List.map_cons, List.flatten_cons, List.append_assoc]
      · rintro (_ | k) hk
        · simpa using hret
        · simpa using hok k (by simp at hk; omega)

/-- `NULL`, `0`, `0` hold the decode calls of no packets. -/
theorem holds_empty_decodedCalls (dec : Decoder α) (channels frameSize : ℕ) :
    (FloatVec.empty : FloatVec α).Holds w (decodedCalls dec channels frameSize []) :=
  FloatVec.holds_empty

/-- A packet loop from `NULL`, `0`, `0` that completes: what `decodePackets_done` says, with
`decoded_len` the number of floats appended and the output write giving their bytes. -/
theorem decodePackets_empty_done (hw : 4096 < 2 ^ w)
    (hdec : ∀ ps, (dec.decode frameSize ps).1 ≤ frameSize)
    (hframe : channels * frameSize ≤ sizeMax w / 4) (enc : α → List UInt8) {count : ℕ}
    {v : FloatVec α} {input rest : List UInt8}
    (h : decodePackets w libc dec channels frameSize count [] .empty input = .done v rest) :
    ∃ packets : List (List UInt8), packets.length = count ∧
      (∀ p ∈ packets, p.length < 2 ^ 32) ∧
      input = (packets.map packetBytes).flatten ++ rest ∧
      (∀ k < count, 0 ≤ (dec.decode frameSize (packets.take (k + 1))).1) ∧
      v.outLen = decodedTotal (decodedCalls dec channels frameSize packets) ∧
      writeDecoded w enc v =
        some ((flatFloats (decodedCalls dec channels frameSize packets)).flatMap enc) := by
  obtain ⟨packets, hcount, hshort, hinput, hok, hv⟩ :=
    decodePackets_done hw hdec hframe (holds_empty_decodedCalls dec channels frameSize) h
  simp only [List.nil_append] at hok hv
  exact ⟨packets, hcount, hshort, hinput, hok, hv.1, hv.writeDecoded enc⟩

/-- One well-formed packet whose floats keep the total within `2 ^ w / 8` floats, with
`malloc` succeeding, from variables that keep the capacity: either its `realloc` fails, asked
for `new_cap * sizeof(float)` bytes with `new_cap` where the doubling loop ends from `1024`
for the floats so far, and the loop stops with `failed to append decoded samples`, or the
loop appends the floats of its decode call and goes on with the rest of `stdin`. -/
theorem decodePackets_packetBytes_cases {fits : ℕ → Bool} (hw : 4096 < 2 ^ w)
    (hdec : ∀ ps, (dec.decode frameSize ps).1 ≤ frameSize)
    (hframe : channels * frameSize ≤ sizeMax w / 4) {count : ℕ} {seen : List (List UInt8)}
    {v : FloatVec α} (p input : List UInt8)
    (hv : v.Holds w (decodedCalls dec channels frameSize seen)) (hd : v.Doubling)
    (hp : p.length < 2 ^ 32) (hret : 0 ≤ (dec.decode frameSize (seen ++ [p])).1)
    (htotal : 8 * decodedTotal (decodedCalls dec channels frameSize (seen ++ [p])) ≤ 2 ^ w) :
    (decodePackets w (.reliable fits) dec channels frameSize (count + 1) seen v
        (packetBytes p ++ input) = .error .appendFailed ∧
      fits (growCap w (decodedTotal (decodedCalls dec channels frameSize (seen ++ [p]))) 1024 *
        4) = false) ∨
    ∃ v', appendFloats w fits v (dec.decode frameSize (seen ++ [p])).2
        ((dec.decode frameSize (seen ++ [p])).1.toNat * channels) = .appended v' ∧
      v'.Holds w (decodedCalls dec channels frameSize (seen ++ [p])) ∧ v'.Doubling ∧
      decodePackets w (.reliable fits) dec channels frameSize (count + 1) seen v
          (packetBytes p ++ input) =
        decodePackets w (.reliable fits) dec channels frameSize count (seen ++ [p]) v' input := by
  obtain ⟨hmod, hbytes⟩ := appendCount_lt hret (hdec _) hframe
  have hstep := hv.appendFloats_spec hw fits (dec.decode frameSize (seen ++ [p])).2 hbytes
  have hsum := decodedTotal_append_single dec channels frameSize seen p
  have hlen : v.outLen = decodedTotal (decodedCalls dec channels frameSize seen) := hv.1
  rw [decodePackets_succ (readU32_packetBytes p input) (readBlob_packetBytes hp rfl input) hret,
    hmod, Libc.reliable_realloc]
  cases happ : appendFloats w fits v (dec.decode frameSize (seen ++ [p])).2
      ((dec.decode frameSize (seen ++ [p])).1.toNat * channels) with
  | failed =>
    have hfail := hd.appendFloats_failed hw (by omega) happ
    rw [hlen, ← hsum] at hfail
    exact .inl ⟨rfl, hfail⟩
  | outOfBounds =>
    rw [happ] at hstep
    have hoob : 2 ^ w < 8 * (v.outLen + _) := hstep
    omega
  | appended v1 =>
    rw [happ, ← decodedCalls_append_single] at hstep
    exact .inr ⟨v1, rfl, hstep, hd.appendFloats (by omega) happ, rfl⟩

/-- One well-formed packet whose floats keep the total within `2 ^ w / 8` floats, with
`malloc` and `realloc` succeeding: the loop reads it, appends the floats of its decode call
and goes on with the rest of `stdin`. -/
theorem decodePackets_packetBytes (hw : 4096 < 2 ^ w)
    (hdec : ∀ ps, (dec.decode frameSize ps).1 ≤ frameSize)
    (hframe : channels * frameSize ≤ sizeMax w / 4) {count : ℕ} {seen : List (List UInt8)}
    {v : FloatVec α} (p input : List UInt8)
    (hv : v.Holds w (decodedCalls dec channels frameSize seen)) (hd : v.Doubling)
    (hp : p.length < 2 ^ 32) (hret : 0 ≤ (dec.decode frameSize (seen ++ [p])).1)
    (htotal : 8 * decodedTotal (decodedCalls dec channels frameSize (seen ++ [p])) ≤ 2 ^ w) :
    ∃ v', appendFloats w (fun _ => true) v (dec.decode frameSize (seen ++ [p])).2
        ((dec.decode frameSize (seen ++ [p])).1.toNat * channels) = .appended v' ∧
      v'.Holds w (decodedCalls dec channels frameSize (seen ++ [p])) ∧ v'.Doubling ∧
      decodePackets w (.reliable fun _ => true) dec channels frameSize (count + 1) seen v
          (packetBytes p ++ input) =
        decodePackets w (.reliable fun _ => true) dec channels frameSize count (seen ++ [p]) v'
          input :=
  (decodePackets_packetBytes_cases hw hdec hframe p input hv hd hp hret htotal).resolve_left
    fun ⟨_, hb⟩ => Bool.noConfusion hb

/-- The conditions on packets `p :: ps` after `seen`: those on the first packet, and those on
`ps` after `seen ++ [p]`. -/
theorem packets_cons_conditions {p : List UInt8} {ps seen : List (List UInt8)}
    (hshort : ∀ q ∈ p :: ps, q.length < 2 ^ 32)
    (hok : ∀ k < (p :: ps).length,
      0 ≤ (dec.decode frameSize (seen ++ (p :: ps).take (k + 1))).1) :
    p.length < 2 ^ 32 ∧ 0 ≤ (dec.decode frameSize (seen ++ [p])).1 ∧
      (∀ q ∈ ps, q.length < 2 ^ 32) ∧
      (∀ k < ps.length, 0 ≤ (dec.decode frameSize (seen ++ [p] ++ ps.take (k + 1))).1) :=
  ⟨hshort p (List.mem_cons_self _ _), by simpa using hok 0 (by simp),
    fun q hq => hshort q (List.mem_cons_of_mem _ hq),
    fun k hk => by simpa [List.append_assoc] using hok (k + 1) (by simp; omega)⟩

/-- A bound on the floats of packets `p :: ps` after `seen` bounds those of `p` and those
of `ps` after `seen ++ [p]`. -/
theorem decodedTotal_cons_le {p : List UInt8} {ps seen : List (List UInt8)}
    (htotal : 8 * decodedTotal (decodedCalls dec channels frameSize (seen ++ p :: ps)) ≤
      2 ^ w) :
    8 * decodedTotal (decodedCalls dec channels frameSize (seen ++ [p])) ≤ 2 ^ w ∧
      8 * decodedTotal (decodedCalls dec channels frameSize (seen ++ [p] ++ ps)) ≤ 2 ^ w := by
  have hle := decodedTotal_le_append dec channels frameSize (seen ++ [p]) ps
  rw [List.append_assoc, List.singleton_append] at hle
  exact ⟨by omega, by simpa [List.append_assoc] using htotal⟩

/-- The packet loop on `count` well-formed packets whose floats, with those appended before,
number at most `2 ^ w / 8`, with `malloc` succeeding, from variables that keep the capacity:
either the `realloc` of the packet `k` fails, asked for the bytes of where the doubling loop
ends from `1024` for the floats of the packets up to `k`, and the loop stops with `failed to
append decoded samples`, or it reads exactly the packets and ends with every decode call's
floats appended. It never reaches undefined behaviour. -/
theorem decodePackets_complete_cases {fits : ℕ → Bool} (hw : 4096 < 2 ^ w)
    (hdec : ∀ ps, (dec.decode frameSize ps).1 ≤ frameSize)
    (hframe : channels * frameSize ≤ sizeMax w / 4) (packets : List (List UInt8))
    (rest : List UInt8) {seen : List (List UInt8)} {v : FloatVec α}
    (hv : v.Holds w (decodedCalls dec channels frameSize seen)) (hd : v.Doubling)
    (hshort : ∀ p ∈ packets, p.length < 2 ^ 32)
    (hok : ∀ k < packets.length, 0 ≤ (dec.decode frameSize (seen ++ packets.take (k + 1))).1)
    (htotal : 8 * decodedTotal (decodedCalls dec channels frameSize (seen ++ packets)) ≤
      2 ^ w) :
    (decodePackets w (.reliable fits) dec channels frameSize packets.length seen v
        ((packets.map packetBytes).flatten ++ rest) = .error .appendFailed ∧
      ∃ k < packets.length, fits (growCap w (decodedTotal (decodedCalls dec channels frameSize
        (seen ++ packets.take (k + 1)))) 1024 * 4) = false) ∨
    ∃ v', decodePackets w (.reliable fits) dec channels frameSize packets.length seen v
        ((packets.map packetBytes).flatten ++ rest) = .done v' rest ∧
      v'.Holds w (decodedCalls dec channels frameSize (seen ++ packets)) := by
  induction packets generalizing seen v with
  | nil => exact .inr ⟨v, rfl, by simpa using hv⟩
  | cons p ps ih =>
    obtain ⟨hp, hret, hshort', hok'⟩ := packets_cons_conditions hshort hok
    obtain ⟨htotal1, htotal'⟩ := decodedTotal_cons_le htotal
    rw [List.length_cons, List.map_cons, List.flatten_cons, List.append_assoc]
    rcases decodePackets_packetBytes_cases hw hdec hframe p ((ps.map packetBytes).flatten ++ rest)
      hv hd hp hret htotal1 with ⟨hfail, hb⟩ | ⟨v1, -, hv1, hd1, hrun⟩
    · exact .inl ⟨hfail, 0, by simp, by simpa using hb⟩
    · rw [hrun]
      rcases ih hv1 hd1 hshort' hok' htotal' with ⟨hfail, k, hk, hb⟩ | ⟨v', hrun', hv'⟩
      · exact .inl ⟨hfail, k + 1, by simp; omega, by simpa [List.append_assoc] using hb⟩
      · exact .inr ⟨v', hrun', by simpa [List.append_assoc] using hv'⟩

/-- The packet loop on `count` well-formed packets, where `malloc` and `realloc` always
succeed and the floats appended, before and in the loop, number at most `2 ^ w / 8`, reads
exactly the packets and ends with every decode call's floats appended. -/
theorem decodePackets_complete (hw : 4096 < 2 ^ w)
    (hdec : ∀ ps, (dec.decode frameSize ps).1 ≤ frameSize)
    (hframe : channels * frameSize ≤ sizeMax w / 4) (packets : List (List UInt8))
    (rest : List UInt8) {seen : List (List UInt8)} {v : FloatVec α}
    (hv : v.Holds w (decodedCalls dec channels frameSize seen)) (hd : v.Doubling)
    (hshort : ∀ p ∈ packets, p.length < 2 ^ 32)
    (hok : ∀ k < packets.length, 0 ≤ (dec.decode frameSize (seen ++ packets.take (k + 1))).1)
    (htotal : 8 * decodedTotal (decodedCalls dec channels frameSize (seen ++ packets)) ≤
      2 ^ w) :
    ∃ v', decodePackets w (.reliable fun _ => true) dec channels frameSize packets.length seen v
        ((packets.map packetBytes).flatten ++ rest) = .done v' rest ∧
      v'.Holds w (decodedCalls dec channels frameSize (seen ++ packets)) :=
  (decodePackets_complete_cases hw hdec hframe packets rest hv hd hshort hok htotal).resolve_left
    fun ⟨_, _, _, hb⟩ => Bool.noConfusion hb

/-- The packet loop on well-formed packets cut before their last byte, where `malloc` and
`realloc` always succeed and the floats stay within `2 ^ w / 8`, reports `failed to read
packet length` or `failed to read packet payload`. It never completes on a truncated stream
and never reaches undefined behaviour. -/
theorem decodePackets_truncated (hw : 4096 < 2 ^ w)
    (hdec : ∀ ps, (dec.decode frameSize ps).1 ≤ frameSize)
    (hframe : channels * frameSize ≤ sizeMax w / 4) (packets : List (List UInt8))
    {seen : List (List UInt8)} {v : FloatVec α}
    (hv : v.Holds w (decodedCalls dec channels frameSize seen)) (hd : v.Doubling)
    (hshort : ∀ p ∈ packets, p.length < 2 ^ 32)
    (hok : ∀ k < packets.length, 0 ≤ (dec.decode frameSize (seen ++ packets.take (k + 1))).1)
    (htotal : 8 * decodedTotal (decodedCalls dec channels frameSize (seen ++ packets)) ≤
      2 ^ w)
    {k : ℕ} (hk : k < ((packets.map packetBytes).flatten).length) :
    ∃ e ∈ [HarnessError.readPacketLength, .readPacketPayload],
      decodePackets w (.reliable fun _ => true) dec channels frameSize packets.length seen v
        (((packets.map packetBytes).flatten).take k) = .error e := by
  induction packets generalizing seen v k with
  | nil => exact absurd hk (Nat.not_lt_zero k)
  | cons p ps ih =>
    obtain ⟨hp, hret, hshort', hok'⟩ := packets_cons_conditions hshort hok
    obtain ⟨htotal1, htotal'⟩ := decodedTotal_cons_le htotal
    have hplen : (packetBytes p).length = 4 + p.length := by
      rw [packetBytes, List.length_append, length_u32Bytes]
    rw [List.map_cons, List.flatten_cons, List.length_append, hplen] at hk
    rw [List.length_cons, List.map_cons, List.flatten_cons]
    by_cases hcut : k < 4 + p.length
    · -- the cut falls inside this packet
      rw [List.take_append_of_le_length (by omega), packetBytes]
      by_cases h4 : k < 4
      · refine ⟨.readPacketLength, by simp, ?_⟩
        rw [decodePackets, readU32_eq_none ((List.length_take_le _ _).trans_lt h4)]
      · obtain ⟨i, rfl⟩ : ∃ i, k = (u32Bytes (UInt32.ofNat p.length)).length + i :=
          ⟨k - 4, by rw [length_u32Bytes]; omega⟩
        rw [length_u32Bytes] at hcut
        refine ⟨.readPacketPayload, by simp, ?_⟩
        rw [List.take_append, decodePackets, readU32_u32Bytes]
        dsimp only
        rw [UInt32.toNat_ofNat_of_lt hp,
          readBlob_eq_none ((List.length_take_le _ _).trans_lt (by omega))]
    · -- the packet is whole: read it and go on with the next
      obtain ⟨i, rfl⟩ : ∃ i, k = (packetBytes p).length + i :=
        ⟨k - (4 + p.length), by omega⟩
      obtain ⟨v1, -, hv1, hd1, hrun⟩ := decodePackets_packetBytes hw hdec hframe p
        (((ps.map packetBytes).flatten).take i) hv hd hp hret htotal1
      rw [List.take_append, hrun]
      exact ih hv1 hd1 hshort' hok' htotal' (by omega)

/-- The packet loop on well-formed packets whose floats, with those appended before, number
more than `2 ^ w / 8`, from variables that keep the capacity and hold at most that many,
where `malloc` and `realloc` always succeed, reaches undefined behaviour: at the packet
whose floats take the total past `2 ^ w / 8`, `append_floats` writes past its block. -/
theorem decodePackets_undefined_of_total (hw : 4096 < 2 ^ w)
    (hdec : ∀ ps, (dec.decode frameSize ps).1 ≤ frameSize)
    (hframe : channels * frameSize ≤ sizeMax w / 4) (packets : List (List UInt8))
    (rest : List UInt8) {seen : List (List UInt8)} {v : FloatVec α}
    (hv : v.Holds w (decodedCalls dec channels frameSize seen)) (hd : v.Doubling)
    (hbefore : 8 * decodedTotal (decodedCalls dec channels frameSize seen) ≤ 2 ^ w)
    (hshort : ∀ p ∈ packets, p.length < 2 ^ 32)
    (hok : ∀ k < packets.length, 0 ≤ (dec.decode frameSize (seen ++ packets.take (k + 1))).1)
    (hcross : 2 ^ w < 8 * decodedTotal (decodedCalls dec channels frameSize (seen ++ packets))) :
    decodePackets w (.reliable fun _ => true) dec channels frameSize packets.length seen v
      ((packets.map packetBytes).flatten ++ rest) = .undefined := by
  induction packets generalizing seen v with
  | nil =>
    rw [List.append_nil] at hcross
    omega
  | cons p ps ih =>
    obtain ⟨hp, hret, hshort', hok'⟩ := packets_cons_conditions hshort hok
    have hsum := decodedTotal_append_single dec channels frameSize seen p
    have hlen : v.outLen = decodedTotal (decodedCalls dec channels frameSize seen) := hv.1
    rw [List.length_cons, List.map_cons, List.flatten_cons, List.append_assoc]
    by_cases hfirst : 2 ^ w < 8 * decodedTotal (decodedCalls dec channels frameSize (seen ++ [p]))
    · -- this packet's floats take the total past the bound
      obtain ⟨hmod, hbytes⟩ := appendCount_lt hret (hdec _) hframe
      refine decodePackets_undefined_of_outOfBounds (readU32_packetBytes p _)
        (readBlob_packetBytes hp rfl _) rfl hret ?_
      rw [hmod]
      exact hd.appendFloats_outOfBounds hw _ hbytes (by omega) (by omega)
    · -- within the bound: append it and go on
      obtain ⟨v1, -, hv1, hd1, hrun⟩ := decodePackets_packetBytes hw hdec hframe p _ hv hd hp
        hret (by omega)
      rw [hrun]
      exact ih hv1 hd1 (by omega) hshort' hok' (by simpa [List.append_assoc] using hcross)

end Run

end Gopus
