import Mathlib.Data.Vector.Basic
import Mathlib.Data.Sym.Sym2
import Mathlib.Data.Fin.VecNotation

/-! # Byte arrays, keys and UUIDs

`[u8; n]` is a byte list that carries its length. Rust orders byte arrays
lexicographically; `WireGuardConnectionId::new` sorts the two public keys with
that order, and the symmetry of the connection id rests on the two facts about
the sort proved here.
-/

set_option autoImplicit false

namespace Daisyway

/-- `[u8; n]`. -/
abbrev Bytes (n : ℕ) := Mathlib.Vector UInt8 n

def keyLength : ℕ := 32

/-- `KEY_LENGTH_B64 = KEY_LENGTH * 4 / 3 + 4`. -/
def keyLengthB64 : ℕ := keyLength * 4 / 3 + 4

@[simp] theorem keyLength_eq : keyLength = 32 := rfl
@[simp] theorem keyLengthB64_eq : keyLengthB64 = 46 := rfl

abbrev Key := Bytes keyLength
abbrev Nonce := Key
/-- A WireGuard public key. -/
abbrev PeerId := Bytes 32
abbrev UuidBytes := Bytes 16

/-- `new_zeroed()` of a byte array. -/
def Bytes.zeroed (n : ℕ) : Bytes n := Mathlib.Vector.replicate n 0

@[simp] theorem Bytes.toList_zeroed (n : ℕ) : (Bytes.zeroed n).toList = List.replicate n 0 := rfl

/-- The bytes of an ASCII text, as a byte-string literal `b"..."` or `as_bytes` gives them. -/
def byteString (s : String) : List UInt8 := s.toList.map Char.toUInt8

/-- `Ord::cmp` on `[u8]`: bytes compared as numbers, a proper prefix first. -/
def compareBytes : List UInt8 → List UInt8 → Ordering
  | [], [] => .eq
  | [], _ :: _ => .lt
  | _ :: _, [] => .gt
  | a :: as, b :: bs =>
    match compare a.toNat b.toNat with
    | .eq => compareBytes as bs
    | o => o

theorem compareBytes_swap (a b : List UInt8) : compareBytes b a = (compareBytes a b).swap := by
  induction a generalizing b with
  | nil => cases b <;> rfl
  | cons x xs ih =>
    cases b with
    | nil => rfl
    | cons y ys =>
      simp only [compareBytes]
      rw [← Nat.compare_swap]
      cases compare x.toNat y.toNat <;> simp [Ordering.swap, ih]

theorem compareBytes_eq_iff {a b : List UInt8} : compareBytes a b = .eq ↔ a = b := by
  induction a generalizing b with
  | nil => cases b <;> simp [compareBytes]
  | cons x xs ih =>
    cases b with
    | nil => simp [compareBytes]
    | cons y ys =>
      simp only [compareBytes, List.cons.injEq]
      cases h : compare x.toNat y.toNat
      · simp only [reduceCtorEq, false_iff, not_and]
        exact fun hxy => absurd (Nat.compare_eq_eq.mpr (congrArg UInt8.toNat hxy)) (by simp [h])
      · rw [ih]
        exact ⟨fun h' => ⟨UInt8.toNat.inj (Nat.compare_eq_eq.mp h), h'⟩, And.right⟩
      · simp only [reduceCtorEq, false_iff, not_and]
        exact fun hxy => absurd (Nat.compare_eq_eq.mpr (congrArg UInt8.toNat hxy)) (by simp [h])

variable {n : ℕ}

/-- `[a, b].cas(|a| a.sort())`: the stable sort of two arrays, which swaps them
only when the second compares strictly below the first. -/
def sortPair (a b : Bytes n) : Bytes n × Bytes n :=
  if compareBytes b.toList a.toList = .lt then (b, a) else (a, b)

theorem sortPair_cases (a b : Bytes n) : sortPair a b = (a, b) ∨ sortPair a b = (b, a) := by
  unfold sortPair; split_ifs <;> simp

/-- The sorted pair does not depend on which array came first. -/
theorem sortPair_comm (a b : Bytes n) : sortPair a b = sortPair b a := by
  unfold sortPair
  rw [compareBytes_swap b.toList a.toList]
  cases h : compareBytes b.toList a.toList
  · simp [Ordering.swap]
  · simp [Mathlib.Vector.toList_injective (compareBytes_eq_iff.mp h)]
  · simp [Ordering.swap]

/-- Two sorted pairs agree exactly when they sort the same unordered pair. -/
theorem sortPair_eq_iff {a b c d : Bytes n} : sortPair a b = sortPair c d ↔ s(a, b) = s(c, d) := by
  constructor
  · intro h
    rcases sortPair_cases a b with hab | hab <;> rcases sortPair_cases c d with hcd | hcd <;>
      rw [hab, hcd, Prod.mk.injEq] at h <;> obtain ⟨rfl, rfl⟩ := h <;> simp [Sym2.eq_swap]
  · rw [Sym2.eq_iff]
    rintro (⟨rfl, rfl⟩ | ⟨rfl, rfl⟩)
    · rfl
    · exact sortPair_comm a b

/-- `uuid::Uuid`: its sixteen bytes in RFC 4122 (big-endian) field order. -/
structure Uuid where
  bytes : UuidBytes
deriving DecidableEq

def Uuid.asBytes (u : Uuid) : UuidBytes := u.bytes

def Uuid.fromBytes (b : UuidBytes) : Uuid := ⟨b⟩

@[simp] theorem Uuid.fromBytes_asBytes (u : Uuid) : Uuid.fromBytes u.asBytes = u := rfl

/-- `Uuid::from_u128`: the sixteen bytes of `v`, most significant first. -/
def Uuid.fromU128 (v : ℕ) : Uuid := ⟨Mathlib.Vector.ofFn fun i => UInt8.ofNat (v / 256 ^ (15 - i.val))⟩

/-- Numbers below `256 ^ n` with the same `n` base-256 digits are equal. -/
theorem eq_of_byteDigits : ∀ (n a b : ℕ), a < 256 ^ n → b < 256 ^ n →
    (∀ k < n, a / 256 ^ k % 256 = b / 256 ^ k % 256) → a = b
  | 0, a, b, ha, hb, _ => by rw [pow_zero] at ha hb; omega
  | n + 1, a, b, ha, hb, h => by
    have h0 := h 0 (Nat.succ_pos n)
    rw [pow_succ'] at ha hb
    have ih := eq_of_byteDigits n (a / 256) (b / 256) (by omega) (by omega) fun k hk => by
      rw [Nat.div_div_eq_div_mul, Nat.div_div_eq_div_mul, ← pow_succ']
      exact h (k + 1) (by omega)
    simp only [pow_zero, Nat.div_one] at h0
    omega

theorem Uuid.fromU128_injective {a b : ℕ} (ha : a < 2 ^ 128) (hb : b < 2 ^ 128)
    (h : Uuid.fromU128 a = Uuid.fromU128 b) : a = b := by
  refine eq_of_byteDigits 16 a b ha hb fun k hk => ?_
  have := congrArg (fun u => (Mathlib.Vector.get u.bytes ⟨15 - k, by omega⟩).toNat) h
  simpa [Uuid.fromU128, UInt8.toNat, UInt8.ofNat, BitVec.toNat_ofNat,
    Nat.sub_sub_self (by omega : k ≤ 15)] using this

/-- Source position of each byte of `Uuid::to_bytes_le`: the first three fields
(4, 2 and 2 bytes) reversed, the last eight bytes kept. -/
def leIndex : Fin 16 → Fin 16 := ![3, 2, 1, 0, 5, 4, 7, 6, 8, 9, 10, 11, 12, 13, 14, 15]

theorem leIndex_leIndex (i : Fin 16) : leIndex (leIndex i) = i := by revert i; decide

def Uuid.toBytesLe (u : Uuid) : UuidBytes := Mathlib.Vector.ofFn fun i => u.bytes.get (leIndex i)

theorem Uuid.toBytesLe_injective : Function.Injective Uuid.toBytesLe := by
  rintro ⟨a⟩ ⟨b⟩ h
  congr
  refine Mathlib.Vector.ext fun j => ?_
  have := congrArg (fun v => Mathlib.Vector.get v (leIndex j)) h
  simpa [Uuid.toBytesLe, Mathlib.Vector.get_ofFn, leIndex_leIndex] using this

end Daisyway
