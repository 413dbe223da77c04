import Mathlib.Data.List.Basic

/-! # Standard padded Base64, as `base64ct::Base64` computes it

Three bytes make four characters; a final one or two bytes make two or three
characters followed by `=` padding. Decoding checks the length is a multiple
of four, that the padding is well placed, that every character is in the
alphabet, that the output fits the destination, and that the last block
re-encodes to exactly the characters it came from. The crate computes the
alphabet in constant time; here it is the table that computation yields, and
its shifts and masks on sextets are the divisions and remainders they compute.
-/

set_option autoImplicit false

namespace Daisyway.Base64

/-- `=`. -/
def pad : UInt8 := 61

/-- `encode_6bits`: `A`–`Z`, `a`–`z`, `0`–`9`, `+`, `/`. -/
def encode6 (v : ℕ) : UInt8 :=
  if v < 26 then UInt8.ofNat (65 + v)
  else if v < 52 then UInt8.ofNat (97 + (v - 26))
  else if v < 62 then UInt8.ofNat (48 + (v - 52))
  else if v = 62 then 43 else 47

/-- `decode_6bits`; `none` is the crate's `-1` for a byte outside the alphabet. -/
def decode6 (c : UInt8) : Option ℕ :=
  if 65 ≤ c.toNat ∧ c.toNat ≤ 90 then some (c.toNat - 65)
  else if 97 ≤ c.toNat ∧ c.toNat ≤ 122 then some (c.toNat - 71)
  else if 48 ≤ c.toNat ∧ c.toNat ≤ 57 then some (c.toNat + 4)
  else if c.toNat = 43 then some 62
  else if c.toNat = 47 then some 63
  else none

/-- `encode_3bytes`. -/
def encode3 (b0 b1 b2 : UInt8) : List UInt8 :=
  [encode6 (b0.toNat / 4), encode6 ((b0.toNat * 16 + b1.toNat / 16) % 64),
    encode6 ((b1.toNat * 4 + b2.toNat / 64) % 64), encode6 (b2.toNat % 64)]

/-- `decode_3bytes`; `none` where the crate raises its error flag. `as u8` is `UInt8.ofNat`. -/
def decode3 (c0 c1 c2 c3 : UInt8) : Option (List UInt8) := do
  let s0 ← decode6 c0
  let s1 ← decode6 c1
  let s2 ← decode6 c2
  let s3 ← decode6 c3
  pure [UInt8.ofNat (s0 * 4 + s1 / 16), UInt8.ofNat (s1 * 16 + s2 / 4), UInt8.ofNat (s2 * 64 + s3)]

/-- The padded text of `src`, block by block. -/
def encodeBlocks : List UInt8 → List UInt8
  | b0 :: b1 :: b2 :: rest => encode3 b0 b1 b2 ++ encodeBlocks rest
  | [b0, b1] => (encode3 b0 b1 0).take 3 ++ [pad]
  | [b0] => (encode3 b0 0 0).take 2 ++ [pad, pad]
  | [] => []

/-- `encoded_len_inner` with padding: `((4 n / 3) + 3) & !3`. -/
def encodedLen (n : ℕ) : ℕ := (n * 4 / 3 + 3) / 4 * 4

/-- `Encoding::encode` into a buffer of `dstLen` bytes: the text, or `InvalidLengthError`. -/
def encode (src : List UInt8) (dstLen : ℕ) : Except Unit (List UInt8) :=
  if dstLen < encodedLen src.length then .error () else .ok (encodeBlocks src)

inductive Error
  | invalidEncoding
  | invalidLength
deriving DecidableEq, Repr

/-- `decode_padding`: the unpadded length and the flag for misplaced padding, or
`InvalidEncoding` for a length that is not a multiple of four. -/
def decodePadding (input : List UInt8) : Except Error (ℕ × Bool) :=
  if input.length % 4 ≠ 0 then .error .invalidEncoding
  else match input.reverse with
    | b1 :: b0 :: _ =>
      let padLen := (if b0 = pad then 1 else 0) + (if b1 = pad then 1 else 0)
      .ok (input.length - padLen, padLen = 1 ∧ b1 ≠ pad)
    | _ => .ok (input.length, false)

/-- `decoded_len` of an unpadded input. -/
def decodedLen (n : ℕ) : ℕ := 3 * (n / 4) + 3 * (n % 4) / 4

/-- The chunk loop of `decode` and its remainder (completed with `A`s); `none` where
the error flag is raised: a character outside the alphabet, or one lone character. -/
def decodeBlocks : List UInt8 → Option (List UInt8)
  | c0 :: c1 :: c2 :: c3 :: rest => do
    let b ← decode3 c0 c1 c2 c3
    let r ← decodeBlocks rest
    pure (b ++ r)
  | [] => some []
  | [_] => none
  | [c0, c1] => (decode3 c0 c1 65 65).map (·.take 1)
  | [c0, c1, c2] => (decode3 c0 c1 c2 65).map (·.take 2)

/-- `validate_last_block`: the last decoded block re-encodes to the last encoded block. -/
def validateLastBlock (encoded decoded : List UInt8) : Except Error Unit :=
  if encoded = [] ∧ decoded = [] then .ok ()
  else
    match encode (decoded.drop ((decoded.length - 1) / 3 * 3)) 4 with
    | .error () => .error .invalidLength
    | .ok block =>
      if (block.zip (encoded.drop ((encoded.length - 1) / 4 * 4))).all fun p => p.1 = p.2 then .ok ()
      else .error .invalidEncoding

/-- `Encoding::decode` into `dst`: the buffer after the call and the length of the
returned slice. -/
def decode (src dst : List UInt8) : Except Error (List UInt8 × ℕ) := do
  let (unpaddedLen, padErr) ← decodePadding src
  let dlen := decodedLen unpaddedLen
  if dst.length < dlen then throw .invalidLength
  match decodeBlocks (src.take unpaddedLen) with
  | none => throw .invalidEncoding
  | some out =>
    if padErr then throw .invalidEncoding
    validateLastBlock src out
    pure (out ++ dst.drop dlen, dlen)

/-! ## One block -/

theorem byte_lt (b : UInt8) : b.toNat < 256 := b.toNat_lt_size

/-- `as u8` keeps the value modulo 256. -/
theorem toNat_ofNat_byte (n : ℕ) : (UInt8.ofNat n).toNat = n % 256 := by
  simp [UInt8.toNat, UInt8.ofNat, BitVec.toNat_ofNat]

theorem ofNat_eq_of_toNat {b : UInt8} {n : ℕ} (h : n % 256 = b.toNat) : UInt8.ofNat n = b :=
  UInt8.toNat.inj (by rw [toNat_ofNat_byte, h])

theorem decode6_encode6 : ∀ v, v < 64 → decode6 (encode6 v) = some v := by decide

theorem encode6_ne_pad : ∀ v, v < 64 → encode6 v ≠ pad := by decide

/-- Decoding the four characters of a block gives back its three bytes. -/
theorem decode3_encode3 (b0 b1 b2 : UInt8) :
    decode3 (encode6 (b0.toNat / 4)) (encode6 ((b0.toNat * 16 + b1.toNat / 16) % 64))
      (encode6 ((b1.toNat * 4 + b2.toNat / 64) % 64)) (encode6 (b2.toNat % 64)) =
      some [b0, b1, b2] := by
  have h0 := byte_lt b0
  have h1 := byte_lt b1
  have h2 := byte_lt b2
  rw [decode3, decode6_encode6 _ (by omega), decode6_encode6 _ (Nat.mod_lt _ (by decide)),
    decode6_encode6 _ (Nat.mod_lt _ (by decide)), decode6_encode6 _ (Nat.mod_lt _ (by decide))]
  exact congrArg some (by
    rw [ofNat_eq_of_toNat (b := b0) (by omega), ofNat_eq_of_toNat (b := b1) (by omega),
      ofNat_eq_of_toNat (b := b2) (by omega)])

theorem decodeBlocks_encode3 (b0 b1 b2 : UInt8) : decodeBlocks (encode3 b0 b1 b2) = some [b0, b1, b2] := by
  rw [encode3, decodeBlocks, decode3_encode3]; rfl

/-- A final block of two bytes: its zero third byte encodes to the `A` the crate completes
the remainder with. -/
theorem decodeBlocks_encode3_two (b0 b1 : UInt8) :
    decodeBlocks ((encode3 b0 b1 0).take 3) = some [b0, b1] := by
  have h := decode3_encode3 b0 b1 0
  rw [show encode6 ((0 : UInt8).toNat % 64) = 65 from rfl] at h
  rw [encode3, List.take, List.take, List.take, List.take, decodeBlocks, h]; rfl

theorem decodeBlocks_encode3_one (b0 : UInt8) :
    decodeBlocks ((encode3 b0 0 0).take 2) = some [b0] := by
  have h := decode3_encode3 b0 0 0
  rw [show encode6 ((0 : UInt8).toNat % 64) = 65 from rfl,
    show encode6 (((0 : UInt8).toNat * 4 + (0 : UInt8).toNat / 64) % 64) = 65 from rfl] at h
  rw [encode3, List.take, List.take, List.take, decodeBlocks, h]; rfl

theorem encode6_ne_newline (v : ℕ) : encode6 v ≠ 10 := by
  unfold encode6
  have h10 : (10 : UInt8).toNat = 10 := rfl
  split_ifs <;> first
    | decide
    | exact fun h => by have := congrArg UInt8.toNat h; rw [toNat_ofNat_byte, h10] at this; omega

theorem newline_not_mem_encode3 (b0 b1 b2 : UInt8) : (10 : UInt8) ∉ encode3 b0 b1 b2 := by
  simp only [encode3, List.mem_cons, List.mem_singleton, List.not_mem_nil, or_false, not_or]
  exact ⟨(encode6_ne_newline _).symm, (encode6_ne_newline _).symm, (encode6_ne_newline _).symm,
    (encode6_ne_newline _).symm⟩

/-! ## Whole texts -/

theorem encodeBlocks_append {a : List UInt8} (c : List UInt8) (h : a.length % 3 = 0) :
    encodeBlocks (a ++ c) = encodeBlocks a ++ encodeBlocks c := by
  induction a using encodeBlocks.induct with
  | case1 b0 b1 b2 rest ih =>
    rw [List.cons_append, List.cons_append, List.cons_append, encodeBlocks, encodeBlocks,
      ih (by simp only [List.length_cons] at h; omega), List.append_assoc]
  | case2 => simp at h
  | case3 => simp at h
  | case4 => simp [encodeBlocks]

theorem length_encodeBlocks (b : List UInt8) : (encodeBlocks b).length = 4 * ((b.length + 2) / 3) := by
  induction b using encodeBlocks.induct with
  | case1 b0 b1 b2 rest ih => simp only [encodeBlocks, List.length_append, ih]; simp [encode3]; omega
  | case2 => simp [encodeBlocks, encode3]
  | case3 => simp [encodeBlocks, encode3]
  | case4 => simp [encodeBlocks]

theorem drop_encodeBlocks (b : List UInt8) (m : ℕ) :
    (encodeBlocks b).drop (4 * m) = encodeBlocks (b.drop (3 * m)) := by
  induction b using encodeBlocks.induct generalizing m with
  | case1 b0 b1 b2 rest ih =>
    cases m with
    | zero => simp
    | succ m =>
      rw [show 4 * (m + 1) = 4 + 4 * m by omega, show 3 * (m + 1) = 3 + 3 * m by omega,
        ← List.drop_drop, ← List.drop_drop, encodeBlocks, List.drop_left' (by simp [encode3])]
      simpa using ih m
  | case2 b0 b1 => cases m <;> simp [encodeBlocks, encode3, Nat.mul_succ]
  | case3 b0 => cases m <;> simp [encodeBlocks, encode3, Nat.mul_succ]
  | case4 => simp [encodeBlocks]

/-- The text is one line: it holds no `'\n'`. -/
theorem newline_not_mem_encodeBlocks (b : List UInt8) : (10 : UInt8) ∉ encodeBlocks b := by
  induction b using encodeBlocks.induct with
  | case1 b0 b1 b2 rest ih =>
    rw [encodeBlocks, List.mem_append, not_or]
    exact ⟨newline_not_mem_encode3 b0 b1 b2, ih⟩
  | case2 b0 b1 =>
    rw [encodeBlocks, List.mem_append, not_or]
    exact ⟨fun h => newline_not_mem_encode3 b0 b1 0 (List.mem_of_mem_take h), by decide⟩
  | case3 b0 =>
    rw [encodeBlocks, List.mem_append, not_or]
    exact ⟨fun h => newline_not_mem_encode3 b0 0 0 (List.mem_of_mem_take h), by decide⟩
  | case4 => exact List.not_mem_nil _

theorem decodeBlocks_append {x : List UInt8} (y : List UInt8) (h : x.length % 4 = 0) :
    decodeBlocks (x ++ y) = (decodeBlocks x).bind fun a => (decodeBlocks y).map (a ++ ·) := by
  induction x using decodeBlocks.induct with
  | case1 c0 c1 c2 c3 rest ih =>
    rw [List.cons_append, List.cons_append, List.cons_append, List.cons_append, decodeBlocks,
      decodeBlocks, ih (by simp only [List.length_cons] at h; omega)]
    cases decode3 c0 c1 c2 c3 <;> cases decodeBlocks rest <;> cases decodeBlocks y <;> simp
  | case2 => simp [decodeBlocks]
  | case3 => simp at h
  | case4 => simp at h
  | case5 => simp at h

theorem decodeBlocks_encodeBlocks_full {a : List UInt8} (h : a.length % 3 = 0) :
    decodeBlocks (encodeBlocks a) = some a := by
  induction a using encodeBlocks.induct with
  | case1 b0 b1 b2 rest ih =>
    rw [encodeBlocks, decodeBlocks_append _ (by simp [encode3]), decodeBlocks_encode3,
      ih (by simp only [List.length_cons] at h; omega)]
    rfl
  | case2 => simp at h
  | case3 => simp at h
  | case4 => rfl

theorem decodePadding_append {E : List UInt8} (hE : E.length % 4 = 0) (t0 t1 t2 t3 : UInt8) :
    decodePadding (E ++ [t0, t1, t2, t3]) =
      .ok (E.length + 4 - ((if t2 = pad then 1 else 0) + (if t3 = pad then 1 else 0)),
        (if t2 = pad then 1 else 0) + (if t3 = pad then 1 else 0) = 1 ∧ t3 ≠ pad) := by
  simp [decodePadding, hE, List.reverse_append]

theorem exists_lastBlock {b : List UInt8} (hb : b ≠ []) :
    ∃ full last, b = full ++ last ∧ full.length % 3 = 0 ∧ 1 ≤ last.length ∧ last.length ≤ 3 := by
  have := List.length_pos.mpr hb
  exact ⟨b.take (3 * ((b.length - 1) / 3)), b.drop (3 * ((b.length - 1) / 3)),
    (List.take_append_drop _ _).symm, by simp; omega, by simp; omega, by simp; omega⟩

/-- The text of a final block of one to three bytes: its padding count and its unpadded
characters decode back to the block. -/
theorem lastBlock_text {last : List UInt8} (h1 : 1 ≤ last.length) (h3 : last.length ≤ 3) :
    ∃ t0 t1 t2 t3, encodeBlocks last = [t0, t1, t2, t3] ∧
      (if t2 = pad then 1 else 0) + (if t3 = pad then 1 else 0) = 3 - last.length ∧
      ¬((if t2 = pad then 1 else 0) + (if t3 = pad then 1 else 0) = 1 ∧ t3 ≠ pad) ∧
      decodeBlocks ([t0, t1, t2, t3].take (last.length + 1)) = some last := by
  rcases last with _ | ⟨b0, _ | ⟨b1, _ | ⟨b2, _ | ⟨b3, rest⟩⟩⟩⟩
  · simp at h1
  · exact ⟨_, _, _, _, rfl, by simp, by simp, decodeBlocks_encode3_one b0⟩
  · have h2 := encode6_ne_pad (b1.toNat * 4 % 64) (Nat.mod_lt _ (by decide))
    exact ⟨_, _, _, _, rfl, by simp [h2], by simp, decodeBlocks_encode3_two b0 b1⟩
  · have h2 := encode6_ne_pad _ (Nat.mod_lt ((b1.toNat * 4 + b2.toNat / 64)) (by decide))
    have h3 := encode6_ne_pad _ (Nat.mod_lt b2.toNat (by decide : 0 < 64))
    exact ⟨_, _, _, _, rfl, by simp [h2, h3], by simp [h2, h3], decodeBlocks_encode3 b0 b1 b2⟩
  · simp at h3

/-- Every encoding has well placed padding, an unpadded length that decodes to the
input's length, and unpadded characters that decode back to the input. -/
theorem encodeBlocks_decodes (b : List UInt8) :
    ∃ u, decodePadding (encodeBlocks b) = .ok (u, false) ∧ decodedLen u = b.length ∧
      decodeBlocks ((encodeBlocks b).take u) = some b := by
  rcases eq_or_ne b [] with rfl | hb
  · exact ⟨0, rfl, rfl, rfl⟩
  obtain ⟨full, last, rfl, hfull, h1, h3⟩ := exists_lastBlock hb
  obtain ⟨t0, t1, t2, t3, hT, hpad, herr, hdec⟩ := lastBlock_text h1 h3
  have hE : (encodeBlocks full).length = 4 * (full.length / 3) := by
    rw [length_encodeBlocks]; omega
  rw [encodeBlocks_append _ hfull, hT]
  refine ⟨(encodeBlocks full).length + (last.length + 1), ?_, ?_, ?_⟩
  · rw [decodePadding_append (by omega), decide_eq_false herr, hpad]
    congr 2; omega
  · simp only [decodedLen, List.length_append]; omega
  · rw [List.take_append, decodeBlocks_append _ (by omega), decodeBlocks_encodeBlocks_full hfull, hdec]
    rfl

theorem all_zip_self (l : List UInt8) : (l.zip l).all (fun p => p.1 = p.2) = true := by
  induction l <;> simp [*]

theorem validateLastBlock_encodeBlocks (b : List UInt8) : validateLastBlock (encodeBlocks b) b = .ok () := by
  rcases eq_or_ne b [] with rfl | hb
  · rfl
  have hpos := List.length_pos.mpr hb
  have hm : ((encodeBlocks b).length - 1) / 4 * 4 = 4 * ((b.length - 1) / 3) := by
    rw [length_encodeBlocks]; omega
  have hlast : encode (b.drop ((b.length - 1) / 3 * 3)) 4 =
      .ok (encodeBlocks (b.drop (3 * ((b.length - 1) / 3)))) := by
    rw [encode, if_neg (by simp only [encodedLen, List.length_drop]; omega), Nat.mul_comm]
  rw [validateLastBlock, if_neg (by simp [hb]), hlast, hm, drop_encodeBlocks]
  simp [all_zip_self]

theorem decode_eq_ok {src dst out : List UInt8} {u : ℕ} (hp : decodePadding src = .ok (u, false))
    (hlen : decodedLen u ≤ dst.length) (hd : decodeBlocks (src.take u) = some out)
    (hv : validateLastBlock src out = .ok ()) :
    decode src dst = .ok (out ++ dst.drop (decodedLen u), decodedLen u) := by
  simp [decode, hp, bind, Except.bind, hd, hv, not_lt.mpr hlen, Functor.map, Except.map]
  rfl

/-- What a successful `decode` has checked, and what it returns. -/
theorem decode_eq_ok_iff {src dst : List UInt8} {r : List UInt8 × ℕ} :
    decode src dst = .ok r ↔ ∃ u out, decodePadding src = .ok (u, false) ∧
      decodedLen u ≤ dst.length ∧ decodeBlocks (src.take u) = some out ∧
      validateLastBlock src out = .ok () ∧ r = (out ++ dst.drop (decodedLen u), decodedLen u) := by
  constructor
  · intro h
    rcases hp : decodePadding src with e | ⟨u, pe⟩
    · simp [decode, hp, bind, Except.bind] at h
    rcases hd : decodeBlocks (src.take u) with _ | out
    · simp [decode, hp, hd, bind, Except.bind] at h
      split_ifs at h
      cases h
    rcases hv : validateLastBlock src out with e | ⟨⟩
    · simp [decode, hp, hd, hv, bind, Except.bind, Functor.map, Except.map] at h
      split_ifs at h <;> cases h
    cases pe
    · simp [decode, hp, hd, hv, bind, Except.bind, Functor.map, Except.map] at h
      split_ifs at h with hl
      cases h
      exact ⟨u, out, rfl, not_lt.mp hl, hd, hv, rfl⟩
    · simp [decode, hp, hd, bind, Except.bind, pure, Except.pure] at h
      split_ifs at h
  · rintro ⟨u, out, hp, hl, hd, hv, rfl⟩
    exact decode_eq_ok hp hl hd hv

theorem length_decode3 {c0 c1 c2 c3 : UInt8} {b : List UInt8} (h : decode3 c0 c1 c2 c3 = some b) :
    b.length = 3 := by
  simp only [decode3, Option.bind_eq_bind, Option.pure_def, Option.bind_eq_some,
    Option.some.injEq] at h
  obtain ⟨_, _, _, _, _, _, _, _, rfl⟩ := h
  rfl

theorem length_decodeBlocks {x out : List UInt8} (h : decodeBlocks x = some out) :
    out.length = decodedLen x.length := by
  induction x using decodeBlocks.induct generalizing out with
  | case1 c0 c1 c2 c3 rest ih =>
    simp only [decodeBlocks, Option.bind_eq_bind, Option.pure_def] at h
    obtain ⟨b, hb, r, hr, rfl⟩ : ∃ b, decode3 c0 c1 c2 c3 = some b ∧ ∃ r,
        decodeBlocks rest = some r ∧ b ++ r = out := by
      simpa [Option.bind_eq_some] using h
    simp only [List.length_append, length_decode3 hb, ih hr, decodedLen, List.length_cons]
    omega
  | case2 => cases h; rfl
  | case3 => cases h
  | case4 c0 c1 =>
    obtain ⟨b, hb, rfl⟩ := Option.map_eq_some'.mp h
    simp [length_decode3 hb, decodedLen]
  | case5 c0 c1 c2 =>
    obtain ⟨b, hb, rfl⟩ := Option.map_eq_some'.mp h
    simp [length_decode3 hb, decodedLen]

theorem decodePadding_le {src : List UInt8} {u : ℕ} {e : Bool}
    (h : decodePadding src = .ok (u, e)) : u ≤ src.length := by
  unfold decodePadding at h
  split_ifs at h
  split at h <;> cases h <;> omega

/-- `decode` writes exactly the first `decodedLen` bytes of the buffer and returns a slice
within it. -/
theorem length_decode {src dst buf : List UInt8} {n : ℕ} (h : decode src dst = .ok (buf, n)) :
    buf.length = dst.length ∧ n ≤ dst.length := by
  obtain ⟨u, out, hp, hl, hd, -, he⟩ := decode_eq_ok_iff.mp h
  cases he
  have hu : (src.take u).length = u := List.length_take_of_le (decodePadding_le hp)
  rw [List.length_append, length_decodeBlocks hd, hu, List.length_drop]
  omega

theorem decode_encodeBlocks (b dst : List UInt8) (h : b.length ≤ dst.length) :
    decode (encodeBlocks b) dst = .ok (b ++ dst.drop b.length, b.length) := by
  obtain ⟨u, hp, hu, hd⟩ := encodeBlocks_decodes b
  rw [← hu] at h ⊢
  exact decode_eq_ok hp h hd (validateLastBlock_encodeBlocks b)

/-! ## Only canonical texts decode -/

set_option maxRecDepth 8000 in
theorem encode6_decode6_all : ∀ n, n < 256 →
    (decode6 (UInt8.ofNat n)).all (fun v => v < 64 && encode6 v == UInt8.ofNat n) = true := by
  decide

theorem encode6_decode6 {c : UInt8} {v : ℕ} (h : decode6 c = some v) : v < 64 ∧ encode6 v = c := by
  have hc : UInt8.ofNat c.toNat = c := ofNat_eq_of_toNat (Nat.mod_eq_of_lt (byte_lt c))
  have := encode6_decode6_all c.toNat (byte_lt c)
  rw [hc, h] at this
  simpa using this

/-- Four characters of the alphabet are the encoding of the three bytes they decode to. -/
theorem encode3_decode3 {c0 c1 c2 c3 : UInt8} {b : List UInt8} (h : decode3 c0 c1 c2 c3 = some b) :
    ∃ b0 b1 b2, b = [b0, b1, b2] ∧ encode3 b0 b1 b2 = [c0, c1, c2, c3] := by
  simp only [decode3, Option.bind_eq_bind, Option.pure_def, Option.bind_eq_some,
    Option.some.injEq] at h
  obtain ⟨s0, h0, s1, h1, s2, h2, s3, h3, rfl⟩ := h
  obtain ⟨l0, rfl⟩ := encode6_decode6 h0
  obtain ⟨l1, rfl⟩ := encode6_decode6 h1
  obtain ⟨l2, rfl⟩ := encode6_decode6 h2
  obtain ⟨l3, rfl⟩ := encode6_decode6 h3
  refine ⟨_, _, _, rfl, ?_⟩
  simp only [encode3, toNat_ofNat_byte, List.cons.injEq, and_true]
  refine ⟨congrArg encode6 ?_, congrArg encode6 ?_, congrArg encode6 ?_, congrArg encode6 ?_⟩ <;>
    omega

theorem encodeBlocks_decodeBlocks_full {x out : List UInt8} (hx : x.length % 4 = 0)
    (h : decodeBlocks x = some out) : encodeBlocks out = x ∧ out.length % 3 = 0 := by
  induction x using decodeBlocks.induct generalizing out with
  | case1 c0 c1 c2 c3 rest ih =>
    simp only [decodeBlocks, Option.bind_eq_bind, Option.pure_def, Option.bind_eq_some,
      Option.some.injEq] at h
    obtain ⟨b, hb, r, hr, rfl⟩ := h
    obtain ⟨b0, b1, b2, rfl, he⟩ := encode3_decode3 hb
    obtain ⟨ih1, ih2⟩ := ih (by simp only [List.length_cons] at hx; omega) hr
    refine ⟨?_, by simp only [List.cons_append, List.nil_append, List.length_cons]; omega⟩
    rw [List.cons_append, List.cons_append, List.cons_append, List.nil_append, encodeBlocks, he, ih1]
    rfl
  | case2 => cases h; exact ⟨rfl, rfl⟩
  | case3 => simp at hx
  | case4 => simp at hx
  | case5 => simp at hx

theorem eq_of_all_zip {a b : List UInt8} (h : (a.zip b).all (fun p => p.1 = p.2) = true)
    (hl : a.length = b.length) : a = b := by
  induction a generalizing b with
  | nil => exact (List.length_eq_zero.mp hl.symm).symm
  | cons x xs ih =>
    cases b with
    | nil => cases hl
    | cons y ys =>
      simp only [List.zip_cons_cons, List.all_cons, Bool.and_eq_true, decide_eq_true_eq] at h
      rw [h.1, ih h.2 (by simpa using hl)]

/-- A passing `validate_last_block` pins the last block's text to the encoding of the last
decoded bytes. -/
theorem encodeBlocks_eq_of_validateLastBlock {E T oE oL : List UInt8} (hT : T.length = 4)
    (hE : E.length % 4 = 0) (hoE : oE.length % 3 = 0) (h1 : 1 ≤ oL.length) (h3 : oL.length ≤ 3)
    (hv : validateLastBlock (E ++ T) (oE ++ oL) = .ok ()) : encodeBlocks oL = T := by
  have hdec : (oE ++ oL).drop (((oE ++ oL).length - 1) / 3 * 3) = oL :=
    List.drop_left' (by simp only [List.length_append]; omega)
  have henc : (E ++ T).drop (((E ++ T).length - 1) / 4 * 4) = T :=
    List.drop_left' (by simp only [List.length_append]; omega)
  have hlast : encode oL 4 = .ok (encodeBlocks oL) := by
    rw [encode, if_neg (by simp only [encodedLen]; omega)]
  rw [validateLastBlock, if_neg (by simp [← List.length_eq_zero, hT]), hdec, hlast, henc] at hv
  dsimp only at hv
  split_ifs at hv with hz
  exact eq_of_all_zip hz (by rw [length_encodeBlocks, hT]; omega)

theorem exists_lastChars {s : List UInt8} (h : s.length % 4 = 0) (hs : s ≠ []) :
    ∃ E t0 t1 t2 t3, s = E ++ [t0, t1, t2, t3] ∧ E.length % 4 = 0 := by
  have hpos := List.length_pos.mpr hs
  have hlen : (s.drop (s.length - 4)).length = 4 := by simp; omega
  rcases hL : s.drop (s.length - 4) with _ | ⟨t0, _ | ⟨t1, _ | ⟨t2, _ | ⟨t3, _ | ⟨_, _⟩⟩⟩⟩⟩ <;>
    rw [hL] at hlen <;> simp at hlen
  exact ⟨s.take (s.length - 4), t0, t1, t2, t3, by rw [← hL, List.take_append_drop],
    by simp; omega⟩

/-- `decode` accepts only the encoding of the bytes it returns: every accepted text is
canonical. -/
theorem decode_canonical {src dst buf : List UInt8} {n : ℕ} (h : decode src dst = .ok (buf, n)) :
    src = encodeBlocks (buf.take n) := by
  obtain ⟨u, out, hp, -, hd, hv, he⟩ := decode_eq_ok_iff.mp h
  cases he
  have hu : (src.take u).length = u := List.length_take_of_le (decodePadding_le hp)
  rw [List.take_left' (by rw [length_decodeBlocks hd, hu])]
  rcases eq_or_ne src [] with rfl | hs
  · cases hp; cases hd; rfl
  have h4 : src.length % 4 = 0 := by
    unfold decodePadding at hp; split_ifs at hp with h4; simpa using h4
  obtain ⟨E, t0, t1, t2, t3, rfl, hE⟩ := exists_lastChars h4 hs
  rw [decodePadding_append hE] at hp
  simp only [Except.ok.injEq, Prod.mk.injEq, decide_eq_false_iff_not] at hp
  obtain ⟨rfl, hpe⟩ := hp
  have hp2 : (if t2 = pad then 1 else 0) + (if t3 = pad then 1 else 0) ≤ 2 := by split_ifs <;> omega
  rw [show E.length + 4 - ((if t2 = pad then 1 else 0) + (if t3 = pad then 1 else 0)) =
      E.length + (4 - ((if t2 = pad then 1 else 0) + (if t3 = pad then 1 else 0))) by omega,
    List.take_append, decodeBlocks_append _ hE, Option.bind_eq_some] at hd
  obtain ⟨oE, hoE, hmap⟩ := hd
  obtain ⟨oL, hoL, rfl⟩ := Option.map_eq_some'.mp hmap
  obtain ⟨rfl, hoE3⟩ := encodeBlocks_decodeBlocks_full hE hoE
  have hlL := length_decodeBlocks hoL
  simp only [List.length_take, List.length_cons, List.length_nil, decodedLen] at hlL
  rw [encodeBlocks_append _ hoE3, encodeBlocks_eq_of_validateLastBlock (T := [t0, t1, t2, t3]) rfl
    hE hoE3 (by omega) (by omega) hv]

/-- `decode` succeeds exactly on the encodings of byte strings that fit the buffer; it then
writes them to the front of the buffer and returns their length. -/
theorem decode_eq_ok_iff_encodes {src dst : List UInt8} {r : List UInt8 × ℕ} :
    decode src dst = .ok r ↔
      ∃ b, b.length ≤ dst.length ∧ src = encodeBlocks b ∧ r = (b ++ dst.drop b.length, b.length) := by
  constructor
  · intro h
    obtain ⟨u, out, hp, hl, hd, -, rfl⟩ := decode_eq_ok_iff.mp h
    have hlen : out.length = decodedLen u := by
      rw [length_decodeBlocks hd, List.length_take_of_le (decodePadding_le hp)]
    refine ⟨out, hlen ▸ hl, ?_, by rw [hlen]⟩
    simpa only [List.take_left' hlen] using decode_canonical h
  · rintro ⟨b, hb, rfl, rfl⟩
    exact decode_encodeBlocks b dst hb

theorem encodeBlocks_injective : Function.Injective encodeBlocks := by
  intro a b h
  have ha := decode_encodeBlocks a (List.replicate (a.length + b.length) 0) (by simp)
  rw [h, decode_encodeBlocks b _ (by simp), Except.ok.injEq, Prod.mk.injEq] at ha
  exact (List.append_inj ha.1 ha.2).1.symm

end Daisyway.Base64
