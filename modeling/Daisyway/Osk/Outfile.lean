import Daisyway.Crypto.Basics
import Daisyway.Util.KeyFile

/-! # The output-file OSK handler

`OutfileOskHandler::set_osk_impl` encodes the key in standard Base64 into a
buffer of `KEY_LENGTH_B64` bytes, writes the text to the output file and prints
`output-key {path:?} exchanged` (or `stale`). The file system is taken to accept
the write; its failures panic in the source and are not modelled.

The text it writes is what `load_base64_key_file` reads back: the output-key
format and the key-file format are inverse to each other, whatever way the
file's reads are split.
-/

set_option autoImplicit false

namespace Daisyway

/-- What `set_osk_impl` leaves behind when it returns: the bytes of the output file and
the line it prints. -/
structure OutfileWrite where
  contents : List UInt8
  line : String

/-- `OutfileOskHandler::set_osk_impl`, the path shown as `{:?}` renders it; `none` where
`Base64::encode(..).unwrap()` panics. -/
def setOskImpl (pathDebug : String) (key : Key) (reason : SetOskReason) : Option OutfileWrite :=
  let why := match reason with
    | .fresh => "exchanged"
    | .stale => "stale"
  match Base64.encode key.toList keyLengthB64 with
  | .error () => none
  | .ok text => some ⟨text, "output-key " ++ pathDebug ++ " " ++ why⟩

/-- The 44-character text of a key fits the 46-byte buffer, so the `unwrap` never panics. -/
theorem setOskImpl_eq (pathDebug : String) (key : Key) (reason : SetOskReason) :
    ∃ line, setOskImpl pathDebug key reason = some ⟨Base64.encodeBlocks key.toList, line⟩ := by
  have h : Base64.encode key.toList keyLengthB64 = .ok (Base64.encodeBlocks key.toList) := by
    rw [Base64.encode, if_neg (by simp [Base64.encodedLen])]
  simp only [setOskImpl, h]
  exact ⟨_, rfl⟩

theorem base64ToKey_encodeBlocks (key : Key) : base64ToKey (Base64.encodeBlocks key.toList) = .ok key :=
  base64ToKey_eq_ok_iff.mpr ⟨keyLength, by rw [Base64.decode_encodeBlocks _ _ (by simp)]; simp⟩

/-- Whatever key `set_osk_impl` writes, a file holding its text, with or without one
trailing newline, loads back as that key, however its reads are split. -/
theorem setOskImpl_loadBase64KeyFile (pathDebug : String) (key : Key) (reason : SetOskReason) :
    ∃ out, setOskImpl pathDebug key reason = some out ∧
      ∀ (newline : Bool) (reads : List ReadResult),
        delivered reads = (out.contents ++ (if newline then [10] else []), none) →
        loadBase64KeyFile (.ok reads) = some (.ok key) := by
  obtain ⟨line, hset⟩ := setOskImpl_eq pathDebug key reason
  refine ⟨_, hset, fun newline reads hd => ?_⟩
  have hlen : (Base64.encodeBlocks key.toList ++ if newline then [10] else []).length ≤ keyLengthB64 := by
    cases newline <;> simp [Base64.length_encodeBlocks]
  have htrim : trimTrailingNewline (Base64.encodeBlocks key.toList ++ if newline then [10] else []) =
      Base64.encodeBlocks key.toList := by
    cases newline
    · simpa using trimTrailingNewline_of_not_mem (Base64.newline_not_mem_encodeBlocks key.toList)
    · exact trimTrailingNewline_append_newline _
  rw [loadBase64KeyFile_of_delivered hd hlen, htrim, base64ToKey_encodeBlocks]
  rfl

end Daisyway
