import Mathlib.Data.List.Basic

/-! # Reading a file up to a buffer's length

`ReadExt::read_to_end_up_to` calls `Read::read` on the unfilled tail of the
buffer until the buffer is full, the reader reports end of file, or it fails
with an error other than `Interrupted`. A reader is the list of answers it
gives to successive calls; past the end of that list it reports end of file.
-/

set_option autoImplicit false

namespace Daisyway

/-- `std::io::ErrorKind`, as far as the loop tells kinds apart. -/
inductive ErrorKind
  | interrupted
  | other (code : ℕ)
deriving DecidableEq

structure IoError where
  kind : ErrorKind
  message : String
deriving DecidableEq

/-- One answer of `Read::read`: `Ok(bytes.len())` having written `bytes`, or an error.
`Ok(0)`, end of file, is the answer with no bytes. -/
inductive ReadResult
  | ok (bytes : List UInt8)
  | err (e : IoError)

/-- The buffer after the reader writes `bytes` into `buf[red..]`; it cannot write past
the end of the slice. -/
def writeAt (buf : List UInt8) (red : ℕ) (bytes : List UInt8) : List UInt8 :=
  buf.take red ++ bytes.take (buf.length - red) ++ buf.drop (red + bytes.length)

/-- The loop of `ReadExt::read_to_end_up_to`, from `red` bytes already read. It returns
the buffer and the result, or `none` where `&mut buf[red..]` panics. -/
def readToEndUpTo : List ReadResult → List UInt8 → ℕ → Option (List UInt8 × Except IoError ℕ)
  | reads, buf, red =>
    if buf.length < red then none
    else if buf.length = red then some (buf, .ok red)
    else match reads with
      | [] => some (buf, .ok red)
      | .ok [] :: _ => some (buf, .ok red)
      | .ok bytes :: rest => readToEndUpTo rest (writeAt buf red bytes) (red + bytes.length)
      | .err e :: rest =>
        if e.kind = .interrupted then readToEndUpTo rest buf red else some (buf, .error e)

/-! ## What a reader delivers -/

/-- The bytes a reader delivers before end of file, and the error other than
`Interrupted` that cuts them short, if any. -/
def delivered : List ReadResult → List UInt8 × Option IoError
  | [] => ([], none)
  | .ok [] :: _ => ([], none)
  | .ok (b :: bs) :: rest => ((b :: bs) ++ (delivered rest).1, (delivered rest).2)
  | .err e :: rest => if e.kind = .interrupted then delivered rest else ([], some e)

/-- Every answer to a `read` the loop makes is within the length it asked for, `need`
bytes being left in the buffer. -/
def Fits : ℕ → List ReadResult → Prop
  | 0, _ => True
  | _, [] => True
  | _, .ok [] :: _ => True
  | need, .ok bytes :: rest => bytes.length ≤ need ∧ Fits (need - bytes.length) rest
  | need, .err e :: rest => e.kind = .interrupted → Fits need rest

/-- The result the loop is meant to return for a buffer of `len` bytes: the first error
other than `Interrupted` if it comes before the buffer is full, otherwise the number of
bytes delivered, up to `len`. -/
def expectedRead (len : ℕ) (reads : List ReadResult) : Except IoError ℕ :=
  match (delivered reads).2 with
  | some e => if (delivered reads).1.length < len then .error e else .ok len
  | none => .ok (min len (delivered reads).1.length)

theorem length_writeAt {buf : List UInt8} {red : ℕ} (bytes : List UInt8) (h : red ≤ buf.length) :
    (writeAt buf red bytes).length = buf.length := by
  simp only [writeAt, List.length_append, List.length_take, List.length_drop]
  omega

theorem take_writeAt {buf : List UInt8} {red : ℕ} {bytes : List UInt8}
    (h : red + bytes.length ≤ buf.length) :
    (writeAt buf red bytes).take (red + bytes.length) = buf.take red ++ bytes := by
  have hb : bytes.take (buf.length - red) = bytes := List.take_of_length_le (by omega)
  rw [writeAt, hb]
  exact List.take_left' (by simp; omega)

@[simp] theorem expectedRead_zero (reads : List ReadResult) : expectedRead 0 reads = .ok 0 := by
  unfold expectedRead
  split <;> simp

theorem map_map_add {ε : Type} (a b : ℕ) (x : Except ε ℕ) :
    (x.map (b + ·)).map (a + ·) = x.map (a + b + ·) := by
  cases x <;> simp [Except.map, Nat.add_assoc]

theorem expectedRead_cons_ok {need : ℕ} {b : UInt8} {bs : List UInt8} (rest : List ReadResult)
    (h : (b :: bs).length ≤ need) :
    expectedRead need (.ok (b :: bs) :: rest) =
      (expectedRead (need - (b :: bs).length) rest).map ((b :: bs).length + ·) := by
  simp only [expectedRead, delivered, List.length_append]
  split
  · split_ifs <;> simp only [Except.map, Except.error.injEq, Except.ok.injEq] <;> omega
  · simp only [Except.map, Except.ok.injEq]
    omega

/-- A reader that delivers no more than `need` bytes before end of file never answers a
request with more than it asked for. -/
theorem fits_of_length_delivered_le {need : ℕ} {reads : List ReadResult}
    (h : (delivered reads).1.length ≤ need) : Fits need reads := by
  induction reads generalizing need with
  | nil => cases need <;> trivial
  | cons r rest ih =>
    cases need with
    | zero => rcases r with (_ | _) | _ <;> trivial
    | succ need =>
      cases r with
      | ok bytes =>
        cases bytes with
        | nil => trivial
        | cons b bs =>
          simp only [delivered, List.length_append] at h
          exact ⟨by omega, ih (by omega)⟩
      | err e =>
        intro hi
        simp only [delivered, hi, if_true] at h
        exact ih h

theorem readToEndUpTo_full (reads : List ReadResult) (buf : List UInt8) :
    readToEndUpTo reads buf buf.length = some (buf, .ok buf.length) := by
  rw [readToEndUpTo.eq_def]
  simp

theorem expectedRead_cons_interrupted {need : ℕ} {e : IoError} (rest : List ReadResult)
    (hi : e.kind = .interrupted) : expectedRead need (.err e :: rest) = expectedRead need rest := by
  simp [expectedRead, delivered, hi]

/-- The loop from `red` bytes read: it returns without panicking, with the expected
result shifted by `red`, the buffer's length kept, and the delivered bytes after the
first `red`. -/
theorem readToEndUpTo_loop (reads : List ReadResult) (buf : List UInt8) (red : ℕ)
    (hred : red ≤ buf.length) (hfit : Fits (buf.length - red) reads) :
    ∃ buf', readToEndUpTo reads buf red =
        some (buf', (expectedRead (buf.length - red) reads).map (red + ·)) ∧
      buf'.length = buf.length ∧
      buf'.take (red + min (buf.length - red) (delivered reads).1.length) =
        buf.take red ++ (delivered reads).1.take (buf.length - red) := by
  induction reads generalizing buf red with
  | nil =>
    refine ⟨buf, ?_, rfl, by simp [delivered]⟩
    rw [readToEndUpTo, if_neg (by omega)]
    split_ifs <;> simp [expectedRead, delivered, Except.map]
  | cons r rest ih =>
    by_cases hfull : buf.length = red
    · subst hfull
      exact ⟨buf, by simp [readToEndUpTo_full, Except.map], rfl, by simp⟩
    have hlt : ¬buf.length < red := by omega
    obtain ⟨n, hn⟩ : ∃ n, buf.length - red = n + 1 := ⟨buf.length - red - 1, by omega⟩
    rw [readToEndUpTo.eq_def]
    simp only [if_neg hlt, if_neg hfull]
    rw [hn] at hfit ⊢
    cases r with
    | ok bytes =>
      cases bytes with
      | nil => exact ⟨buf, by simp [expectedRead, delivered, Except.map], rfl, by simp [delivered]⟩
      | cons b bs =>
        obtain ⟨hle, hfit⟩ := hfit
        have hlen := length_writeAt (b :: bs) hred
        obtain ⟨buf', h1, h2, h3⟩ := ih (writeAt buf red (b :: bs)) (red + (b :: bs).length)
          (by omega) (by rw [hlen]; convert hfit using 1; omega)
        have hneed : buf.length - (red + (b :: bs).length) = n + 1 - (b :: bs).length := by omega
        rw [hlen, hneed] at h1 h3
        refine ⟨buf', ?_, h2.trans hlen, ?_⟩
        · dsimp only
          rw [h1, expectedRead_cons_ok rest hle, map_map_add]
        · have hmin : red + min (n + 1) (delivered (.ok (b :: bs) :: rest)).1.length =
              red + (b :: bs).length + min (n + 1 - (b :: bs).length) (delivered rest).1.length := by
            simp only [delivered, List.length_append]; omega
          rw [hmin, h3, take_writeAt (by omega), List.append_assoc]
          simp only [delivered]
          rw [List.take_append_eq_append_take, List.take_of_length_le hle]
    | err e =>
      by_cases hi : e.kind = .interrupted
      · simp only [if_pos hi, expectedRead_cons_interrupted rest hi]
        have := ih buf red hred
        rw [hn] at this
        simpa [delivered, hi] using this (hfit hi)
      · simp only [if_neg hi]
        exact ⟨buf, by simp [expectedRead, delivered, hi, Except.map], rfl, by simp [delivered, hi]⟩

/-- `read_to_end_up_to` on a buffer of any length, for any reader whose answers fit the
requests: it returns, never slicing past the buffer, with the first error other than
`Interrupted` when that comes before the buffer is full, and otherwise with the number of
bytes delivered up to the buffer's length; the buffer then starts with those bytes. -/
theorem readToEndUpTo_spec (reads : List ReadResult) (buf : List UInt8)
    (hfit : Fits buf.length reads) :
    ∃ buf', readToEndUpTo reads buf 0 = some (buf', expectedRead buf.length reads) ∧
      buf'.length = buf.length ∧
      buf'.take (min buf.length (delivered reads).1.length) =
        (delivered reads).1.take buf.length := by
  obtain ⟨buf', h1, h2, h3⟩ := readToEndUpTo_loop reads buf 0 (Nat.zero_le _) (by simpa using hfit)
  refine ⟨buf', ?_, h2, by simpa using h3⟩
  rw [h1, Nat.sub_zero]
  cases expectedRead buf.length reads <;> simp [Except.map]

theorem readToEndUpTo_spec_interrupted :
    ∃ buf', readToEndUpTo [.ok [1, 2], .err ⟨.interrupted, ""⟩, .ok [3], .ok []] [0, 0, 0, 0] 0 =
        some (buf', expectedRead [0, 0, 0, 0].length
          [.ok [1, 2], .err ⟨.interrupted, ""⟩, .ok [3], .ok []]) ∧
      buf'.length = [0, 0, 0, 0].length ∧
      buf'.take (min [0, 0, 0, 0].length
          (delivered [.ok [1, 2], .err ⟨.interrupted, ""⟩, .ok [3], .ok []]).1.length) =
        (delivered [.ok [1, 2], .err ⟨.interrupted, ""⟩, .ok [3], .ok []]).1.take
          [0, 0, 0, 0].length :=
  readToEndUpTo_spec _ _ ⟨by decide, fun _ => ⟨by decide, trivial⟩⟩

end Daisyway
