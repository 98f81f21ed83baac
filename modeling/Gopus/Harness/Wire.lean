import Mathlib.Data.Nat.Bitwise

/-!
# The harnesses' wire format

Both reference-decode harnesses read their input from `stdin` with `read_exact` and
`read_u32`, and write their output with `write_exact` and `write_u32`. `stdin` is the list
of bytes not yet read. `read_u32` assembles a word from four bytes with shifts and `|`;
`write_u32` takes it apart with shifts and `& 0xFF`. Both are bridged to `toNat` arithmetic
once, and the two round trips follow: a word written is read back, and a word read was
written by `write_u32` from the bytes it consumed. A `write_exact` may come short: `fwrite`
is a parameter saying how many bytes it writes.
-/

namespace Gopus

/-- `read_exact(dst, n)`: the next `n` bytes of `stdin` and the bytes after them, or `none`
when `stdin` ends first. -/
def readExact (n : ℕ) (input : List UInt8) : Option (List UInt8 × List UInt8) :=
  if n ≤ input.length then some (input.take n, input.drop n) else none

/-- The word `read_u32` assembles from `b[0..3]`. -/
def u32OfBytes (b0 b1 b2 b3 : UInt8) : UInt32 :=
  b0.toUInt32 ||| (b1.toUInt32 <<< 8) ||| (b2.toUInt32 <<< 16) ||| (b3.toUInt32 <<< 24)

/-- `read_u32(&v)`: `read_exact(b, 4)`, then the word of `b`. -/
def readU32 : List UInt8 → Option (UInt32 × List UInt8)
  | b0 :: b1 :: b2 :: b3 :: rest => some (u32OfBytes b0 b1 b2 b3, rest)
  | _ => none

/-- `!read_u32(&f1) || ... || !read_u32(&fk)`: the `k` words read in order, or `none` at the
first read that fails. -/
def readU32s : ℕ → List UInt8 → Option (List UInt32 × List UInt8)
  | 0, input => some ([], input)
  | k + 1, input =>
    (readU32 input).bind fun (v, input) =>
      (readU32s k input).map fun (vs, input) => (v :: vs, input)

/-- A harness header, `!read_u32(&version) || version != 1 || !read_u32(&f1) || ... ||
!read_u32(&fk)`: the `k` fields after a version of `1`, or `none` at the first read that
fails or at another version. -/
def readHeader (k : ℕ) (input : List UInt8) : Option (List UInt32 × List UInt8) :=
  (readU32 input).bind fun (version, input) =>
    if version.toNat ≠ 1 then none else readU32s k input

/-- The four bytes `write_u32(v)` writes. -/
def u32Bytes (v : UInt32) : List UInt8 :=
  [(v &&& 0xFF).toUInt8, ((v >>> 8) &&& 0xFF).toUInt8, ((v >>> 16) &&& 0xFF).toUInt8,
    ((v >>> 24) &&& 0xFF).toUInt8]

@[simp] theorem readExact_append (bs rest : List UInt8) :
    readExact bs.length (bs ++ rest) = some (bs, rest) := by
  simp [readExact]

/-- What a successful `read_exact` consumed. -/
theorem readExact_eq_some {n : ℕ} {input bs rest : List UInt8}
    (h : readExact n input = some (bs, rest)) : input = bs ++ rest ∧ bs.length = n := by
  unfold readExact at h
  split at h
  · cases h
    exact ⟨(List.take_append_drop n input).symm, List.length_take_of_le ‹_›⟩
  · cases h

theorem readU32_u32Bytes_append (v : UInt32) (rest : List UInt8) :
    readU32 (u32Bytes v ++ rest) = some (u32OfBytes (v &&& 0xFF).toUInt8
      ((v >>> 8) &&& 0xFF).toUInt8 ((v >>> 16) &&& 0xFF).toUInt8 ((v >>> 24) &&& 0xFF).toUInt8,
      rest) := rfl

/-! ### Bridging the bit operations to `toNat` -/

/-- `(uint32_t)b << s` of a byte, for the shifts `read_u32` uses. -/
theorem toUInt32_shiftLeft_toNat (b : UInt8) (s : UInt32) (hs : s.toNat ≤ 24) :
    (b.toUInt32 <<< s).toNat = 2 ^ s.toNat * b.toNat := by
  have hb : b.toNat < 2 ^ 8 := b.toNat_lt_size
  have hmod : (s % 32).toNat = s.toNat := by
    rw [UInt32.toNat_mod, show (32 : UInt32).toNat = 32 from rfl]
    exact Nat.mod_eq_of_lt (by omega)
  show (b.toUInt32.toBitVec <<< (s % 32).toBitVec).toNat = _
  rw [BitVec.shiftLeft_eq', BitVec.toNat_shiftLeft]
  show b.toNat <<< (s % 32).toNat % 2 ^ 32 = _
  rw [hmod, Nat.shiftLeft_eq, Nat.mul_comm]
  have hpow : 2 ^ s.toNat * 2 ^ 8 ≤ 2 ^ 32 := by
    rw [← Nat.pow_add]
    exact Nat.pow_le_pow_right Nat.two_pos (by omega)
  exact Nat.mod_eq_of_lt
    (lt_of_lt_of_le (Nat.mul_lt_mul_of_pos_left hb (Nat.two_pow_pos _)) hpow)

/-- `(unsigned char)((v >> s) & 0xFF)`, for the shifts `write_u32` uses. -/
theorem toUInt8_shiftRight_and_toNat (v s : UInt32) (hs : s.toNat < 32) :
    ((v >>> s) &&& 0xFF).toUInt8.toNat = v.toNat / 2 ^ s.toNat % 2 ^ 8 := by
  have hmod : (s % 32).toNat = s.toNat := by
    rw [UInt32.toNat_mod, show (32 : UInt32).toNat = 32 from rfl]
    exact Nat.mod_eq_of_lt hs
  show (((v.toBitVec >>> (s % 32).toBitVec) &&& (0xFF : UInt32).toBitVec).toNat) % 2 ^ 8 = _
  rw [BitVec.ushiftRight_eq', BitVec.toNat_and, BitVec.toNat_ushiftRight]
  show (v.toNat >>> (s % 32).toNat &&& (2 ^ 8 - 1)) % 2 ^ 8 = _
  rw [hmod, Nat.and_pow_two_sub_one_eq_mod, Nat.shiftRight_eq_div_pow, Nat.mod_mod]

/-- `x | (y << k)` with `x` below `2 ^ k` adds. -/
theorem lor_two_pow_mul {x y k : ℕ} (hx : x < 2 ^ k) : x ||| 2 ^ k * y = x + 2 ^ k * y := by
  rw [Nat.lor_comm, ← Nat.mul_add_lt_is_or hx, Nat.add_comm]

/-- `read_u32` reads its bytes least significant first. -/
theorem u32OfBytes_toNat (b0 b1 b2 b3 : UInt8) :
    (u32OfBytes b0 b1 b2 b3).toNat =
      b0.toNat + 2 ^ 8 * b1.toNat + 2 ^ 16 * b2.toNat + 2 ^ 24 * b3.toNat := by
  have h0 : b0.toNat < 2 ^ 8 := b0.toNat_lt_size
  have h1 : b1.toNat < 2 ^ 8 := b1.toNat_lt_size
  have h2 : b2.toNat < 2 ^ 8 := b2.toNat_lt_size
  show ((b0.toUInt32 ||| b1.toUInt32 <<< 8 ||| b2.toUInt32 <<< 16).toNat |||
    (b3.toUInt32 <<< 24).toNat) = _
  rw [toUInt32_shiftLeft_toNat b3 24 (by decide)]
  show ((b0.toUInt32 ||| b1.toUInt32 <<< 8).toNat ||| (b2.toUInt32 <<< 16).toNat) ||| _ = _
  rw [toUInt32_shiftLeft_toNat b2 16 (by decide)]
  show ((b0.toUInt32).toNat ||| (b1.toUInt32 <<< 8).toNat) ||| _ ||| _ = _
  rw [toUInt32_shiftLeft_toNat b1 8 (by decide)]
  show b0.toNat ||| 2 ^ 8 * b1.toNat ||| 2 ^ 16 * b2.toNat ||| 2 ^ 24 * b3.toNat = _
  rw [lor_two_pow_mul h0, lor_two_pow_mul (show b0.toNat + 2 ^ 8 * b1.toNat < 2 ^ 16 by omega),
    lor_two_pow_mul (show b0.toNat + 2 ^ 8 * b1.toNat + 2 ^ 16 * b2.toNat < 2 ^ 24 by omega)]

/-- `write_u32` writes its word least significant byte first. -/
theorem u32Bytes_toNat (v : UInt32) :
    (u32Bytes v).map UInt8.toNat =
      [v.toNat % 2 ^ 8, v.toNat / 2 ^ 8 % 2 ^ 8, v.toNat / 2 ^ 16 % 2 ^ 8, v.toNat / 2 ^ 24] := by
  have hv : v.toNat < 2 ^ 32 := v.toNat_lt_size
  have h0 : (v &&& 0xFF).toUInt8.toNat = v.toNat % 2 ^ 8 := by
    simpa using toUInt8_shiftRight_and_toNat v 0 (by decide)
  have h8 := toUInt8_shiftRight_and_toNat v 8 (by decide)
  have h16 := toUInt8_shiftRight_and_toNat v 16 (by decide)
  have h24 := toUInt8_shiftRight_and_toNat v 24 (by decide)
  simp only [u32Bytes, List.map_cons, List.map_nil, h0, h8, h16, h24]
  congr
  show v.toNat / 2 ^ 24 % 2 ^ 8 = v.toNat / 2 ^ 24
  omega

/-! ### Round trips -/

/-- A word `write_u32` wrote is read back by `read_u32`. -/
@[simp] theorem readU32_u32Bytes (v : UInt32) (rest : List UInt8) :
    readU32 (u32Bytes v ++ rest) = some (v, rest) := by
  have hb := u32Bytes_toNat v
  simp only [u32Bytes, List.map_cons, List.map_nil, List.cons.injEq] at hb
  rw [readU32_u32Bytes_append]
  congr
  apply UInt32.toNat.inj
  rw [u32OfBytes_toNat, hb.1, hb.2.1, hb.2.2.1, hb.2.2.2.1]
  have hv : v.toNat < 2 ^ 32 := v.toNat_lt_size
  omega

/-- The four bytes `read_u32` consumed are those `write_u32` writes for the word it
returned. -/
theorem u32Bytes_u32OfBytes (b0 b1 b2 b3 : UInt8) :
    u32Bytes (u32OfBytes b0 b1 b2 b3) = [b0, b1, b2, b3] := by
  have h := u32Bytes_toNat (u32OfBytes b0 b1 b2 b3)
  rw [u32OfBytes_toNat] at h
  have h0 : b0.toNat < 2 ^ 8 := b0.toNat_lt_size
  have h1 : b1.toNat < 2 ^ 8 := b1.toNat_lt_size
  have h2 : b2.toNat < 2 ^ 8 := b2.toNat_lt_size
  have h3 : b3.toNat < 2 ^ 8 := b3.toNat_lt_size
  simp only [u32Bytes, List.map_cons, List.map_nil, List.cons.injEq] at h
  simp only [u32Bytes, List.cons.injEq, and_true]
  refine ⟨UInt8.toNat.inj ?_, UInt8.toNat.inj ?_, UInt8.toNat.inj ?_, UInt8.toNat.inj ?_⟩ <;>
    omega

/-- What a successful `read_u32` consumed. -/
theorem readU32_eq_some {input rest : List UInt8} {v : UInt32}
    (h : readU32 input = some (v, rest)) : input = u32Bytes v ++ rest := by
  match input, h with
  | b0 :: b1 :: b2 :: b3 :: rest', h =>
    simp only [readU32, Option.some.injEq, Prod.mk.injEq] at h
    obtain ⟨rfl, rfl⟩ := h
    rw [u32Bytes_u32OfBytes]
    rfl

/-- What a successful run of `read_u32` calls consumed. -/
theorem readU32s_eq_some {k : ℕ} {input rest : List UInt8} {vs : List UInt32}
    (h : readU32s k input = some (vs, rest)) :
    input = (vs.map u32Bytes).flatten ++ rest ∧ vs.length = k := by
  induction k generalizing input vs with
  | zero =>
    cases h
    exact ⟨rfl, rfl⟩
  | succ k ih =>
    simp only [readU32s, Option.bind_eq_some, Option.map_eq_some'] at h
    obtain ⟨⟨v, input1⟩, h1, ⟨vs', rest'⟩, h2, heq⟩ := h
    cases heq
    dsimp only at h2 ⊢
    obtain ⟨hinput, hlen⟩ := ih h2
    refine ⟨?_, by simp [hlen]⟩
    rw [readU32_eq_some h1, hinput, List.map_cons, List.flatten_cons, List.append_assoc]

/-- Words written by `write_u32` are read back by as many `read_u32`s. -/
theorem readU32s_u32Bytes (vs : List UInt32) (rest : List UInt8) :
    readU32s vs.length ((vs.map u32Bytes).flatten ++ rest) = some (vs, rest) := by
  induction vs with
  | nil => rfl
  | cons v vs ih =>
    rw [List.length_cons, readU32s, List.map_cons, List.flatten_cons, List.append_assoc,
      readU32_u32Bytes, Option.some_bind]
    exact congrArg (Option.map _) ih

/-- What a successful header read consumed. -/
theorem readHeader_eq_some {k : ℕ} {input rest : List UInt8} {fields : List UInt32}
    (h : readHeader k input = some (fields, rest)) :
    input = u32Bytes 1 ++ (fields.map u32Bytes).flatten ++ rest ∧ fields.length = k := by
  simp only [readHeader, Option.bind_eq_some] at h
  obtain ⟨⟨version, input1⟩, h1, h⟩ := h
  dsimp only at h
  by_cases hver : version.toNat = 1
  · rw [if_neg (not_not.2 hver)] at h
    obtain ⟨hinput, hlen⟩ := readU32s_eq_some h
    rw [readU32_eq_some h1, show version = 1 from UInt32.toNat.inj hver, hinput,
      List.append_assoc]
    exact ⟨rfl, hlen⟩
  · rw [if_pos hver] at h
    cases h

/-- A header written with version `1` is read back whole: the converse of
`readHeader_eq_some`. -/
theorem readHeader_u32Bytes (fields : List UInt32) (rest : List UInt8) :
    readHeader fields.length (u32Bytes 1 ++ (fields.map u32Bytes).flatten ++ rest) =
      some (fields, rest) := by
  rw [readHeader, List.append_assoc, readU32_u32Bytes, Option.some_bind]
  exact readU32s_u32Bytes fields rest

/-! ### Reads past the end of `stdin` -/

/-- `read_exact` fails when `stdin` ends before `n` bytes. -/
theorem readExact_eq_none {n : ℕ} {input : List UInt8} (h : input.length < n) :
    readExact n input = none :=
  if_neg (by omega)

/-- `read_u32` fails when `stdin` holds fewer than four bytes. -/
theorem readU32_eq_none {input : List UInt8} (h : input.length < 4) : readU32 input = none := by
  match input, h with
  | [], _ | [_], _ | [_, _], _ | [_, _, _], _ => rfl
  | _ :: _ :: _ :: _ :: _, h =>
    simp only [List.length_cons] at h
    omega

@[simp] theorem length_u32Bytes (v : UInt32) : (u32Bytes v).length = 4 := rfl

theorem length_flatten_u32Bytes (vs : List UInt32) :
    ((vs.map u32Bytes).flatten).length = 4 * vs.length := by
  induction vs with
  | nil => rfl
  | cons v vs ih =>
    rw [List.map_cons, List.flatten_cons, List.length_append, ih, length_u32Bytes,
      List.length_cons]
    omega

/-- A header read fails when `stdin` ends before the version and the `k` fields. -/
theorem readHeader_eq_none {k : ℕ} {input : List UInt8} (h : input.length < 4 * (k + 1)) :
    readHeader k input = none := by
  rcases hh : readHeader k input with _ | ⟨fields, rest⟩
  · rfl
  obtain ⟨rfl, hlen⟩ := readHeader_eq_some hh
  rw [List.length_append, List.length_append, length_u32Bytes, length_flatten_u32Bytes,
    hlen] at h
  omega

/-! ### Writes to `stdout` -/

/-- `write_exact(src, n)` of the bytes `bs` when `stdout` holds `out`, where `fwrite` writes
`fwrite k n` of `n` bytes after `k` bytes: `stdout` after the call, as `ok` when every byte
was written and as `error` when `fwrite` came short. -/
def writeExact (fwrite : ℕ → ℕ → ℕ) (out bs : List UInt8) : Except (List UInt8) (List UInt8) :=
  if bs.length ≤ fwrite out.length bs.length then .ok (out ++ bs)
  else .error (out ++ bs.take (fwrite out.length bs.length))

/-- A `fwrite` that writes every byte. -/
@[simp] theorem writeExact_all (out bs : List UInt8) :
    writeExact (fun _ n => n) out bs = .ok (out ++ bs) :=
  if_pos le_rfl

/-- A `write_exact` writes every byte, or comes short after fewer of them. -/
theorem writeExact_cases (fwrite : ℕ → ℕ → ℕ) (out bs : List UInt8) :
    writeExact fwrite out bs = .ok (out ++ bs) ∨
      ∃ k < bs.length, writeExact fwrite out bs = .error (out ++ bs.take k) := by
  unfold writeExact
  split
  · exact .inl rfl
  · exact .inr ⟨_, by omega, rfl⟩

end Gopus
