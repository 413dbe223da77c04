import Daisyway.Util.Bytes
import Daisyway.Util.ReadExt
import Daisyway.Util.Base64

/-! # Key files

`base64_to_key` decodes standard Base64 into a zeroed 32-byte key and returns the
whole key buffer; `load_base64_key_file` reads at most `KEY_LENGTH_B64` bytes of a
file, drops one trailing newline and decodes the rest. The PSK and the WireGuard
peer ids are read this way. A file is the outcome of opening it: the open error,
or the reader of its contents.

Since the decoder accepts the encoding of any byte string that fits the buffer,
the key parser accepts the encoding of every byte string of at most 32 bytes and
pads it with zeros.
-/

set_option autoImplicit false

namespace Daisyway

/-- `base64_to_key`: the key buffer after `Base64::decode` wrote into it. -/
def base64ToKey (encodedKey : List UInt8) : Except Base64.Error Key :=
  match h : Base64.decode encodedKey (Bytes.zeroed keyLength).toList with
  | .error e => .error e
  | .ok (key, _) => .ok ⟨key, by rw [(Base64.length_decode h).1, Bytes.toList_zeroed,
      List.length_replicate]⟩

theorem base64ToKey_eq_ok_iff {s : List UInt8} {k : Key} :
    base64ToKey s = .ok k ↔
      ∃ n, Base64.decode s (Bytes.zeroed keyLength).toList = .ok (k.toList, n) := by
  unfold base64ToKey
  split <;> rename_i h
  · simp only [h, reduceCtorEq, false_iff, not_exists, not_false_eq_true, implies_true]
  · constructor
    · rintro ⟨⟩
      exact ⟨_, h⟩
    · rintro ⟨m, hm⟩
      rw [h, Except.ok.injEq, Prod.mk.injEq] at hm
      exact congrArg Except.ok (Mathlib.Vector.toList_injective hm.1)

/-- The key parser accepts exactly the canonical encodings of byte strings of at most
32 bytes, and fills the rest of the key with zeros. -/
theorem base64ToKey_eq_ok_iff_encodes {s : List UInt8} {k : Key} :
    base64ToKey s = .ok k ↔ ∃ b : List UInt8, b.length ≤ keyLength ∧ s = Base64.encodeBlocks b ∧
      k.toList = b ++ List.replicate (keyLength - b.length) 0 := by
  simp only [base64ToKey_eq_ok_iff, Base64.decode_eq_ok_iff_encodes, Bytes.toList_zeroed,
    List.length_replicate, List.drop_replicate, Prod.mk.injEq]
  constructor
  · rintro ⟨n, b, hb, hs, hk, -⟩
    exact ⟨b, hb, hs, hk⟩
  · rintro ⟨b, hb, hs, hk⟩
    exact ⟨b.length, b, hb, hs, hk, rfl⟩

/-- What `load_base64_key_file` fails with: an I/O error of the file, or the decoder's. -/
inductive KeyFileError
  | io (e : IoError)
  | base64 (e : Base64.Error)

/-- The match in `load_base64_key_file` that drops one trailing `'\n'`. -/
def trimTrailingNewline (s : List UInt8) : List UInt8 :=
  match s.getLast? with
  | some 10 => s.take (s.length - 1)
  | _ => s

theorem trimTrailingNewline_append_newline (s : List UInt8) :
    trimTrailingNewline (s ++ [10]) = s := by
  simp [trimTrailingNewline, List.getLast?_concat]

theorem trimTrailingNewline_of_not_mem {s : List UInt8} (h : (10 : UInt8) ∉ s) :
    trimTrailingNewline s = s := by
  unfold trimTrailingNewline
  split
  · exact absurd (List.mem_of_getLast?_eq_some ‹_›) h
  · rfl

/-- `load_base64_key_file` on the file `File::open` gives; `none` where it panics. -/
def loadBase64KeyFile (file : Except IoError (List ReadResult)) :
    Option (Except KeyFileError Key) :=
  match file with
  | .error e => some (.error (.io e))
  | .ok reads =>
    match readToEndUpTo reads (Bytes.zeroed keyLengthB64).toList 0 with
    | none => none
    | some (_, .error e) => some (.error (.io e))
    | some (pskB64, .ok pskB64Len) =>
      if pskB64.length < pskB64Len then none
      else some ((base64ToKey (trimTrailingNewline (pskB64.take pskB64Len))).mapError .base64)

/-- A file whose reader delivers `content` with no error, `content` fitting the buffer,
is read whole: `load_base64_key_file` decodes `content` less one trailing newline. -/
theorem loadBase64KeyFile_of_delivered {reads : List ReadResult} {content : List UInt8}
    (hd : delivered reads = (content, none)) (hlen : content.length ≤ keyLengthB64) :
    loadBase64KeyFile (.ok reads) =
      some ((base64ToKey (trimTrailingNewline content)).mapError .base64) := by
  have hfit : Fits (Bytes.zeroed keyLengthB64).toList.length reads :=
    fits_of_length_delivered_le (by simpa [hd] using hlen)
  obtain ⟨buf, hrun, hbuf, htake⟩ :=
    readToEndUpTo_loop reads (Bytes.zeroed keyLengthB64).toList 0 (Nat.zero_le _)
      (by rwa [Nat.sub_zero])
  simp only [Mathlib.Vector.toList_length, Nat.sub_zero, Nat.zero_add, List.take_zero,
    List.nil_append, hd] at hrun hbuf htake
  have hmin : min keyLengthB64 content.length = content.length := min_eq_right hlen
  have hexp : expectedRead keyLengthB64 reads = .ok content.length := by
    simp only [expectedRead, hd, hmin]
  rw [loadBase64KeyFile, hrun, hexp]
  simp only [Except.map, Nat.zero_add, hbuf, not_lt.mpr hlen, if_false]
  rw [hmin, List.take_of_length_le hlen] at htake
  rw [htake]

/-- The 4-character text `AAAA`, the encoding of three zero bytes, is taken for the
all-zero key, both by `base64_to_key` and from a key file; the key's own encoding is
44 characters long. -/
theorem loadBase64KeyFile_short :
    base64ToKey (byteString "AAAA") = .ok (Bytes.zeroed keyLength) ∧
      loadBase64KeyFile (.ok [.ok (byteString "AAAA\n")]) = some (.ok (Bytes.zeroed keyLength)) ∧
      byteString "AAAA" ≠ Base64.encodeBlocks (Bytes.zeroed keyLength).toList :=
  ⟨rfl, rfl, by decide⟩

end Daisyway
