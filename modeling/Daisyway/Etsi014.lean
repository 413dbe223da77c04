import Daisyway.Crypto.Basics
import Daisyway.Util.KeyFile

/-! # Parsing a QKD device's key response

`fetch_key_internal` deserializes the device's JSON into `ResponseKeys` and
converts it with `TryFrom<ResponseKeys>`: exactly one entry is required, and its
key string goes through `TryFrom<ResponseKey>`, which asserts on the Base64
length, decodes into a 32-byte buffer with `unwrap`, and converts the decoded
slice to a key. A key string is kept as its UTF-8 bytes, which is all the
conversion reads of it.

The conversion returns `Ok` exactly on one entry holding the encoding of 32
bytes, but it panics, rather than failing, on key strings of 22 to 24
characters and on every text that is not the encoding of at most 32 bytes.
-/

set_option autoImplicit false

namespace Daisyway

/-- `ResponseKey`; `key` is the bytes of the key string. -/
structure ResponseKey where
  id : Uuid
  key : List UInt8

structure ResponseKeys where
  keys : List ResponseKey

/-- `TryFrom<ResponseKey> for Etsi014Key`; `none` where the `assert!` or the `unwrap`
panics. -/
def Etsi014Key.tryFromResponseKey (value : ResponseKey) : Option (Except String Etsi014Key) :=
  if Base64.encodedLen value.key.length ≠ keyLength then
    match h : Base64.decode value.key (Bytes.zeroed keyLength).toList with
    | .error _ => none
    | .ok (decBuf, decoded) =>
      if hd : decoded = keyLength then
        some (.ok ⟨value.id, ⟨decBuf.take decoded, by
          rw [List.length_take, (Base64.length_decode h).1, hd]; simp⟩⟩)
      else some (.error "could not convert slice to array")
  else none

/-- `TryFrom<ResponseKeys> for Etsi014Key`. -/
def Etsi014Key.tryFromResponseKeys (value : ResponseKeys) : Option (Except String Etsi014Key) :=
  if value.keys.length ≠ 1 then
    some (.error ("Expected exactly one key, but got " ++ toString value.keys.length ++ " keys"))
  else match value.keys.head? with
    | none => none
    | some key => Etsi014Key.tryFromResponseKey key

def fetchAnyKeyUri (url remoteSaeId : String) : String :=
  url ++ "/api/v1/keys/" ++ remoteSaeId ++ "/enc_keys?number=1&key_length=256"

def fetchSpecificKeyUri (url remoteSaeId id : String) : String :=
  url ++ "/api/v1/keys/" ++ remoteSaeId ++ "/dec_keys?key_ID=" ++ id

/-- What `fetch_key_internal` reads of the device's answer: a status outside 200–299 as
`Display` shows it and the body's text, or a success and its body as JSON (`none` where it
does not deserialize to `ResponseKeys`). -/
inductive HttpResponse
  | failure (status text : String)
  | success (body : Option ResponseKeys)

/-- `fetch_key_internal` once the request has been answered. -/
def fetchKeyInternal (uri : String) : HttpResponse → Option (Except String Etsi014Key)
  | .failure status text =>
    some (.error ("ETSI 014 URL " ++ uri ++ " returned status code " ++ status ++ ": " ++ text))
  | .success none => some (.error "error decoding response body")
  | .success (some response) => Etsi014Key.tryFromResponseKeys response

/-- The `assert!` fires exactly on key strings of 22 to 24 bytes. -/
theorem encodedLen_eq_keyLength_iff (n : ℕ) :
    Base64.encodedLen n = keyLength ↔ 22 ≤ n ∧ n ≤ 24 := by
  simp only [Base64.encodedLen, keyLength_eq]
  omega

theorem length_encodeBlocks_key (q : Key) : (Base64.encodeBlocks q.toList).length = 44 := by
  simp [Base64.length_encodeBlocks]

theorem tryFromResponseKeys_single (r : ResponseKey) :
    Etsi014Key.tryFromResponseKeys ⟨[r]⟩ = Etsi014Key.tryFromResponseKey r := rfl

/-- When converting one entry panics, and when it returns a key; every other entry gives
the slice conversion error. -/
theorem tryFromResponseKey_cases (r : ResponseKey) :
    (Etsi014Key.tryFromResponseKey r = none ↔ (22 ≤ r.key.length ∧ r.key.length ≤ 24) ∨
        ¬∃ b : List UInt8, b.length ≤ keyLength ∧ r.key = Base64.encodeBlocks b) ∧
      ∀ q, Etsi014Key.tryFromResponseKey r = some (.ok q) ↔
        q.id = r.id ∧ r.key = Base64.encodeBlocks q.key.toList := by
  unfold Etsi014Key.tryFromResponseKey
  simp only [ne_eq, encodedLen_eq_keyLength_iff]
  split_ifs with ha
  · refine ⟨iff_of_true rfl (Or.inl ha), fun q => iff_of_false (by simp) ?_⟩
    rintro ⟨-, hkq⟩
    have := congrArg List.length hkq
    rw [length_encodeBlocks_key] at this
    omega
  split
  · rename_i e h
    have hne : ¬∃ b : List UInt8, b.length ≤ keyLength ∧ r.key = Base64.encodeBlocks b :=
      fun ⟨b, hb, hk⟩ => by
        rw [hk, Base64.decode_encodeBlocks _ _ (by simpa using hb)] at h
        cases h
    exact ⟨iff_of_true rfl (Or.inr hne), fun q => iff_of_false (by simp)
      fun ⟨_, hk⟩ => hne ⟨_, by simp, hk⟩⟩
  rename_i decBuf decoded h
  obtain ⟨b, hb, hk, he⟩ := Base64.decode_eq_ok_iff_encodes.mp h
  simp only [Prod.mk.injEq] at he
  obtain ⟨rfl, rfl⟩ := he
  have hnone : ¬((22 ≤ r.key.length ∧ r.key.length ≤ 24) ∨
      ¬∃ b : List UInt8, b.length ≤ keyLength ∧ r.key = Base64.encodeBlocks b) := by
    rintro (h' | h')
    exacts [ha h', h' ⟨b, by simpa using hb, hk⟩]
  split_ifs with hd
  · refine ⟨iff_of_false (by simp) hnone, fun q => ?_⟩
    simp only [Option.some.injEq, Except.ok.injEq]
    constructor
    · rintro rfl
      exact ⟨rfl, hk.trans (congrArg _ (List.take_left' rfl).symm)⟩
    · rintro ⟨hid, hkq⟩
      obtain rfl := Base64.encodeBlocks_injective (hk.symm.trans hkq)
      rcases q with ⟨qid, qkey⟩
      dsimp only at hid
      subst hid
      congr
      exact List.take_left' rfl
  · refine ⟨iff_of_false (by simp) hnone, fun q => iff_of_false (by simp) ?_⟩
    rintro ⟨-, hkq⟩
    exact hd (by rw [Base64.encodeBlocks_injective (hk.symm.trans hkq)]; simp)

/-- With one entry, the conversion panics exactly on key strings of 22 to 24 bytes and
on texts that are not the encoding of at most 32 bytes. -/
theorem tryFromResponseKeys_eq_none_iff (r : ResponseKey) :
    Etsi014Key.tryFromResponseKeys ⟨[r]⟩ = none ↔ (22 ≤ r.key.length ∧ r.key.length ≤ 24) ∨
      ¬∃ b : List UInt8, b.length ≤ keyLength ∧ r.key = Base64.encodeBlocks b := by
  rw [tryFromResponseKeys_single]
  exact (tryFromResponseKey_cases r).1

/-- A response converts to a key exactly when it has one entry, holding that key's id
and the encoding of its 32 bytes. -/
theorem tryFromResponseKeys_eq_ok_iff (v : ResponseKeys) (q : Etsi014Key) :
    Etsi014Key.tryFromResponseKeys v = some (.ok q) ↔
      v.keys = [⟨q.id, Base64.encodeBlocks q.key.toList⟩] := by
  rcases v with ⟨_ | ⟨r, _ | ⟨r', rest⟩⟩⟩
  · simp [Etsi014Key.tryFromResponseKeys]
  · rw [tryFromResponseKeys_single, (tryFromResponseKey_cases r).2 q]
    rcases r with ⟨id, key⟩
    simp only [List.cons.injEq, ResponseKey.mk.injEq, and_true]
    exact ⟨fun ⟨h1, h2⟩ => ⟨h1.symm, h2⟩, fun ⟨h1, h2⟩ => ⟨h1.symm, h2⟩⟩
  · simp [Etsi014Key.tryFromResponseKeys]

theorem fetchKeyInternal_encodeBlocks (uri : String) (q : Etsi014Key) :
    fetchKeyInternal uri (.success (some ⟨[⟨q.id, Base64.encodeBlocks q.key.toList⟩]⟩)) =
      some (.ok q) :=
  ((tryFromResponseKey_cases _).2 q).mpr ⟨rfl, rfl⟩

end Daisyway
