import LibNetToy.Base.Cxx
import LibNetToy.Foundations.Memory
import LibNetToy.Foundations.ByteOrder

/-!
# `Buffer`

The byte buffer of `base/Buffer.h`, function by function.  A pointer into the vector is
modelled by its index: `peek()` is `readerIndex_` and `beginWrite()` is `writerIndex_`.
Sizes are computed with the wrapping arithmetic of `SizeT`, an `assert` is a `check`, and
a request for more than `maxSize` bytes raises `lengthError`.

`Valid` is the invariant of the class and `content` the readable bytes.  Every operation
has one lemma that gives its result on a valid buffer; what is proved about buffers later
uses these lemmas and does not unfold the operations again.
-/

namespace LibNetToy

open Memory

/-- The fields of class `Buffer`. -/
structure Buffer where
  buffer_ : List UInt8
  readerIndex_ : Nat
  writerIndex_ : Nat
  deriving DecidableEq, Repr

namespace Buffer

/-- Room kept in front of the readable bytes. -/
def kCheapPrepend : Nat := 8

/-- The default size of a buffer. -/
def kInitialSize : Nat := 4096

/-! ## The member functions -/

def readableBytes (b : Buffer) : Nat :=
  SizeT.sub b.writerIndex_ b.readerIndex_

def writableBytes (b : Buffer) : Nat :=
  SizeT.sub b.buffer_.length b.writerIndex_

def prependableBytes (b : Buffer) : Nat :=
  b.readerIndex_

/-- `Buffer(size_t initialSize)`. -/
def ofInitialSize (initialSize : Nat) : Except Fault Buffer := do
  let v ← vectorOfSize (SizeT.add kCheapPrepend initialSize)
  let b : Buffer := ⟨v, kCheapPrepend, kCheapPrepend⟩
  check (b.readableBytes = 0) .bufferReadable
  check (b.writableBytes = initialSize) .bufferWritable
  check (b.prependableBytes = kCheapPrepend) .bufferPrependable
  pure b

def retrieveAll (b : Buffer) : Buffer :=
  { b with readerIndex_ := kCheapPrepend, writerIndex_ := kCheapPrepend }

def retrieve (b : Buffer) (len : Nat) : Except Fault Buffer := do
  check (len ≤ b.readableBytes) .retrieve
  if len < b.readableBytes then
    pure { b with readerIndex_ := SizeT.add b.readerIndex_ len }
  else
    pure b.retrieveAll

/-- `retrieveUntil(end)` with the index of the pointer `end`. -/
def retrieveUntil (b : Buffer) (last : Nat) : Except Fault Buffer := do
  check (b.readerIndex_ ≤ last) .retrieveUntilBegin
  check (last ≤ b.writerIndex_) .retrieveUntilEnd
  b.retrieve (SizeT.sub last b.readerIndex_)

def retrieveAsString (b : Buffer) (len : Nat) : Except Fault (List UInt8 × Buffer) := do
  check (len ≤ b.readableBytes) .retrieveAsString
  let result := slice b.buffer_ b.readerIndex_ (b.readerIndex_ + len)
  let b' ← b.retrieve len
  pure (result, b')

def retrieveAllAsString (b : Buffer) : Except Fault (List UInt8 × Buffer) :=
  b.retrieveAsString b.readableBytes

/-- The second branch is taken when the free bytes of the two ends together hold `len`
bytes and the reserve: the readable bytes move to the front. -/
def makeSpace (b : Buffer) (len : Nat) : Except Fault Buffer := do
  if SizeT.add b.writableBytes b.prependableBytes < SizeT.add len kCheapPrepend then
    let v ← vectorResize b.buffer_ (SizeT.add b.writerIndex_ len)
    pure { b with buffer_ := v }
  else
    check (kCheapPrepend < b.readerIndex_) .makeSpaceReader
    let readable := b.readableBytes
    let b' : Buffer :=
      { buffer_ := copyForward b.buffer_ b.readerIndex_ kCheapPrepend
          (b.writerIndex_ - b.readerIndex_)
        readerIndex_ := kCheapPrepend
        writerIndex_ := SizeT.add kCheapPrepend readable }
    check (readable = b'.readableBytes) .makeSpaceReadable
    pure b'

def ensureWritableBytes (b : Buffer) (len : Nat) : Except Fault Buffer := do
  let b' ← if b.writableBytes < len then b.makeSpace len else pure b
  check (len ≤ b'.writableBytes) .ensureWritableBytes
  pure b'

def hasWritten (b : Buffer) (len : Nat) : Except Fault Buffer := do
  check (len ≤ b.writableBytes) .hasWritten
  pure { b with writerIndex_ := SizeT.add b.writerIndex_ len }

/-- Bytes stored from an index of the vector on, as `std::copy` and the kernel do it. -/
def store (b : Buffer) (off : Nat) (data : List UInt8) : Buffer :=
  { b with buffer_ := overwrite b.buffer_ off data }

/-- `append(const char* data, size_t len)`. -/
def append (b : Buffer) (data : List UInt8) : Except Fault Buffer := do
  let b' ← b.ensureWritableBytes data.length
  (b'.store b'.writerIndex_ data).hasWritten data.length

/-- `append(std::string str)`. -/
def appendString (b : Buffer) (str : List UInt8) : Except Fault Buffer := do
  let b' ← b.ensureWritableBytes str.length
  (b'.store b'.writerIndex_ str).hasWritten str.length

/-- `append(const void* data, size_t len)`. -/
def appendVoid (b : Buffer) (data : List UInt8) : Except Fault Buffer :=
  b.append data

def unwrite (b : Buffer) (len : Nat) : Except Fault Buffer := do
  check (len ≤ b.readableBytes) .unwrite
  pure { b with writerIndex_ := SizeT.sub b.writerIndex_ len }

def prepend (b : Buffer) (data : List UInt8) : Except Fault Buffer := do
  check (data.length ≤ b.prependableBytes) .prepend
  let reader := SizeT.sub b.readerIndex_ data.length
  pure { b with buffer_ := overwrite b.buffer_ reader data, readerIndex_ := reader }

def swap (b rhs : Buffer) : Buffer × Buffer :=
  (⟨rhs.buffer_, rhs.readerIndex_, rhs.writerIndex_⟩,
    ⟨b.buffer_, b.readerIndex_, b.writerIndex_⟩)

/-! ### Integers

The functions for 32 and 16 bits differ in the width only; `k` is the number of bytes and
`v` the bits of the value as an unsigned integer.  The ones for 8 bits convert nothing and
read the byte without a `memcpy`. -/

/-- The common body of `appendInt32` and `appendInt16`. -/
def appendIntN (o : ByteOrder) (k : Nat) (b : Buffer) (v : Nat) : Except Fault Buffer :=
  b.appendVoid (o.image k (o.hton k v))

/-- The common body of `prependInt32` and `prependInt16`. -/
def prependIntN (o : ByteOrder) (k : Nat) (b : Buffer) (v : Nat) : Except Fault Buffer :=
  b.prepend (o.image k (o.hton k v))

/-- `memcpy` of `k` bytes at `peek()` and the conversion to the order of the host. -/
def peekIntN (o : ByteOrder) (k : Nat) (b : Buffer) : Except Fault Nat := do
  check (k ≤ b.readableBytes) .peekInt
  pure (o.ntoh k (o.load (slice b.buffer_ b.readerIndex_ (b.readerIndex_ + k))))

/-- `retrieveInt32()`, `retrieveInt16()` and `retrieveInt8()`. -/
def retrieveIntN (k : Nat) (b : Buffer) : Except Fault Buffer :=
  b.retrieve k

def appendInt32 (o : ByteOrder) (b : Buffer) (x : Int32) : Except Fault Buffer :=
  appendIntN o 4 b x.toBitVec.toNat

def appendInt16 (o : ByteOrder) (b : Buffer) (x : Int16) : Except Fault Buffer :=
  appendIntN o 2 b x.toBitVec.toNat

/-- `append(&x, sizeof x)`, without a conversion. -/
def appendInt8 (b : Buffer) (x : Int8) : Except Fault Buffer :=
  b.appendVoid [UInt8.ofBitVec x.toBitVec]

def prependInt32 (o : ByteOrder) (b : Buffer) (x : Int32) : Except Fault Buffer :=
  prependIntN o 4 b x.toBitVec.toNat

def prependInt16 (o : ByteOrder) (b : Buffer) (x : Int16) : Except Fault Buffer :=
  prependIntN o 2 b x.toBitVec.toNat

/-- `prepend(&x, sizeof x)`, without a conversion. -/
def prependInt8 (b : Buffer) (x : Int8) : Except Fault Buffer :=
  b.prepend [UInt8.ofBitVec x.toBitVec]

def peekInt32 (o : ByteOrder) (b : Buffer) : Except Fault Int32 := do
  pure (Int32.ofBitVec (BitVec.ofNat 32 (← b.peekIntN o 4)))

def peekInt16 (o : ByteOrder) (b : Buffer) : Except Fault Int16 := do
  pure (Int16.ofBitVec (BitVec.ofNat 16 (← b.peekIntN o 2)))

/-- `int8_t x = *peek()`. -/
def peekInt8 (b : Buffer) : Except Fault Int8 := do
  check (1 ≤ b.readableBytes) .peekInt
  pure (Int8.ofBitVec (b.buffer_.getD b.readerIndex_ 0).toBitVec)

def readInt32 (o : ByteOrder) (b : Buffer) : Except Fault (Int32 × Buffer) := do
  let result ← b.peekInt32 o
  let b' ← b.retrieveIntN 4
  pure (result, b')

def readInt16 (o : ByteOrder) (b : Buffer) : Except Fault (Int16 × Buffer) := do
  let result ← b.peekInt16 o
  let b' ← b.retrieveIntN 2
  pure (result, b')

def readInt8 (b : Buffer) : Except Fault (Int8 × Buffer) := do
  let result ← b.peekInt8
  let b' ← b.retrieveIntN 1
  pure (result, b')

/-! ## The ways the operations fail -/

/-- `retrieve` fails its assertion only. -/
theorem retrieve_fault {b : Buffer} {len : Nat} {f : Fault} (h : b.retrieve len = .error f) :
    f = .assertion .retrieve := by
  unfold retrieve at h
  rcases check_bind_eq_error.1 h with ⟨-, hf⟩ | ⟨-, hrest⟩
  · exact hf
  · split_ifs at hrest <;> exact absurd hrest pure_ne_error

/-- `hasWritten` fails its assertion only. -/
theorem hasWritten_fault {b : Buffer} {len : Nat} {f : Fault} (h : b.hasWritten len = .error f) :
    f = .assertion .hasWritten := by
  unfold hasWritten at h
  rcases check_bind_eq_error.1 h with ⟨-, hf⟩ | ⟨-, hrest⟩
  · exact hf
  · exact absurd hrest pure_ne_error

/-- `makeSpace` fails its assertions, or the vector cannot grow. -/
theorem makeSpace_fault {b : Buffer} {len : Nat} {f : Fault} (h : b.makeSpace len = .error f) :
    f = .lengthError ∨ f = .assertion .makeSpaceReader ∨ f = .assertion .makeSpaceReadable := by
  unfold makeSpace at h
  split_ifs at h
  · rcases bind_eq_error.1 h with hv | ⟨v, -, hrest⟩
    · unfold vectorResize at hv
      split_ifs at hv
      exact .inl (Except.error.inj hv).symm
    · exact absurd hrest pure_ne_error
  · rcases check_bind_eq_error.1 h with ⟨-, hf⟩ | ⟨-, hrest⟩
    · exact .inr (.inl hf)
    · rcases check_bind_eq_error.1 hrest with ⟨-, hf⟩ | ⟨-, hrest'⟩
      · exact .inr (.inr hf)
      · exact absurd hrest' pure_ne_error

/-- `ensureWritableBytes` fails where `makeSpace` does, or its own assertion. -/
theorem ensureWritableBytes_fault {b : Buffer} {len : Nat} {f : Fault}
    (h : b.ensureWritableBytes len = .error f) :
    f = .lengthError ∨ f = .assertion .makeSpaceReader ∨ f = .assertion .makeSpaceReadable ∨
      f = .assertion .ensureWritableBytes := by
  have hcheck : ∀ b' : Buffer, (do
      check (len ≤ b'.writableBytes) .ensureWritableBytes
      pure b') = .error f → f = .assertion .ensureWritableBytes := by
    intro b' hb'
    rcases check_bind_eq_error.1 hb' with ⟨-, hf⟩ | ⟨-, hrest⟩
    · exact hf
    · exact absurd hrest pure_ne_error
  unfold ensureWritableBytes at h
  split_ifs at h
  · rcases bind_eq_error.1 h with hspace | ⟨b', -, hrest⟩
    · rcases makeSpace_fault hspace with hf | hf | hf
      · exact .inl hf
      · exact .inr (.inl hf)
      · exact .inr (.inr (.inl hf))
    · exact .inr (.inr (.inr (hcheck b' hrest)))
  · exact .inr (.inr (.inr (hcheck b h)))

/-- `append` fails where `ensureWritableBytes` or `hasWritten` does. -/
theorem append_fault {b : Buffer} {data : List UInt8} {f : Fault} (h : b.append data = .error f) :
    f = .lengthError ∨ f = .assertion .makeSpaceReader ∨ f = .assertion .makeSpaceReadable ∨
      f = .assertion .ensureWritableBytes ∨ f = .assertion .hasWritten := by
  unfold append at h
  rcases bind_eq_error.1 h with hspace | ⟨b', -, hrest⟩
  · rcases ensureWritableBytes_fault hspace with hf | hf | hf | hf
    · exact .inl hf
    · exact .inr (.inl hf)
    · exact .inr (.inr (.inl hf))
    · exact .inr (.inr (.inr (.inl hf)))
  · exact .inr (.inr (.inr (.inr (hasWritten_fault hrest))))

/-! ## The invariant and the readable bytes -/

/-- The invariant of class `Buffer`. -/
structure Valid (b : Buffer) : Prop where
  reader_le : b.readerIndex_ ≤ b.writerIndex_
  writer_le : b.writerIndex_ ≤ b.buffer_.length
  reserve : kCheapPrepend ≤ b.buffer_.length
  size_le : b.buffer_.length ≤ maxSize

/-- The readable bytes. -/
def content (b : Buffer) : List UInt8 :=
  slice b.buffer_ b.readerIndex_ b.writerIndex_

variable {b b' : Buffer}

/-- The size of a vector fits into a signed number. -/
theorem Valid.size_lt (hv : b.Valid) : b.buffer_.length < 2 ^ 63 := by
  have h := hv.size_le
  unfold maxSize at h
  omega

/-- The content lies between the two indices. -/
theorem length_content (hv : b.Valid) :
    b.content.length = b.writerIndex_ - b.readerIndex_ :=
  length_slice hv.writer_le

/-- The difference of the two indices does not wrap. -/
theorem readableBytes_eq (hv : b.Valid) :
    b.readableBytes = b.writerIndex_ - b.readerIndex_ := by
  have hw := hv.writer_le
  have hs := hv.size_lt
  exact SizeT.sub_of_le hv.reader_le (by omega)

/-- `readableBytes()` counts the readable bytes. -/
theorem readableBytes_eq_length (hv : b.Valid) : b.readableBytes = b.content.length := by
  rw [readableBytes_eq hv, length_content hv]

/-- The difference of the size and the second index does not wrap. -/
theorem writableBytes_eq (hv : b.Valid) :
    b.writableBytes = b.buffer_.length - b.writerIndex_ := by
  have hs := hv.size_lt
  exact SizeT.sub_of_le hv.writer_le (by omega)

/-- The free bytes of the two ends, as `makeSpace` adds them. -/
theorem freeBytes_eq (hv : b.Valid) : SizeT.add b.writableBytes b.prependableBytes =
    b.buffer_.length - b.writerIndex_ + b.readerIndex_ := by
  have hrw := hv.reader_le
  have hw := hv.writer_le
  have hs := hv.size_lt
  rw [writableBytes_eq hv, prependableBytes, SizeT.add_of_lt (by omega)]

/-! ## Results of the operations on a valid buffer -/

/-! ### Construction -/

/-- The constructor either throws or ends with all bytes but the reserve writable. -/
theorem ofInitialSize_eq {n : Nat} (hn : kCheapPrepend + n < 2 ^ 64) :
    ofInitialSize n = if maxSize < kCheapPrepend + n then .error .lengthError
      else .ok ⟨List.replicate (kCheapPrepend + n) 0, kCheapPrepend, kCheapPrepend⟩ := by
  unfold ofInitialSize vectorOfSize
  rw [SizeT.add_of_lt hn]
  split_ifs with h
  · rfl
  · have hw : SizeT.sub (kCheapPrepend + n) kCheapPrepend = n := by
      rw [SizeT.sub_of_le (by omega) hn, Nat.add_sub_cancel_left]
    have hr : SizeT.sub kCheapPrepend kCheapPrepend = 0 := by decide
    rw [ok_bind]
    refine check_bind_eq_ok.2 ⟨hr, check_bind_eq_ok.2 ⟨?_, check_bind_eq_ok.2 ⟨rfl, rfl⟩⟩⟩
    rw [writableBytes, List.length_replicate, hw]

/-- A new buffer is valid and empty. -/
theorem valid_of_ofInitialSize {n : Nat} (hn : kCheapPrepend + n < 2 ^ 64)
    (h : ofInitialSize n = .ok b) : b.Valid ∧ b.content = [] := by
  rw [ofInitialSize_eq hn] at h
  split_ifs at h with hmax
  obtain rfl := Except.ok.inj h
  refine ⟨⟨le_rfl, ?_, ?_, ?_⟩, slice_eq_nil le_rfl⟩ <;>
    · simp only [List.length_replicate]
      omega

/-! ### Retrieving -/

/-- Resetting the indices keeps the buffer valid. -/
theorem retrieveAll_valid (hv : b.Valid) : b.retrieveAll.Valid :=
  ⟨le_rfl, hv.reserve, hv.reserve, hv.size_le⟩

/-- Resetting the indices leaves nothing readable. -/
@[simp] theorem retrieveAll_content (b : Buffer) : b.retrieveAll.content = [] :=
  slice_eq_nil le_rfl

/-- `retrieve` moves the first index, or resets both when all is retrieved. -/
theorem retrieve_eq (hv : b.Valid) {len : Nat}
    (h : len ≤ b.writerIndex_ - b.readerIndex_) :
    b.retrieve len = .ok (if len < b.writerIndex_ - b.readerIndex_
      then { b with readerIndex_ := b.readerIndex_ + len } else b.retrieveAll) := by
  have hrw := hv.reader_le
  have hw := hv.writer_le
  have hs := hv.size_lt
  unfold retrieve
  rw [readableBytes_eq hv, check_of h, SizeT.add_of_lt (by omega)]
  split_ifs <;> rfl

/-- Retrieving more than the readable bytes fails the assertion. -/
theorem retrieve_eq_error (hv : b.Valid) {len : Nat}
    (h : b.writerIndex_ - b.readerIndex_ < len) :
    b.retrieve len = .error (.assertion .retrieve) := by
  unfold retrieve
  rw [readableBytes_eq hv, check, if_neg (by omega)]
  rfl

/-- `retrieve(len)` drops `len` bytes at the front and stores nothing. -/
theorem retrieve_spec (hv : b.Valid) {len : Nat} (h : b.retrieve len = .ok b') :
    len ≤ b.content.length ∧ b'.Valid ∧ b'.content = b.content.drop len ∧
      b'.buffer_ = b.buffer_ := by
  have hlen : len ≤ b.writerIndex_ - b.readerIndex_ := by
    by_contra hlt
    rw [retrieve_eq_error hv (by omega)] at h
    cases h
  have hr := hv.reader_le
  rw [retrieve_eq hv hlen] at h
  refine ⟨by rw [length_content hv]; exact hlen, ?_⟩
  split_ifs at h with hlt
  · obtain rfl := Except.ok.inj h
    refine ⟨⟨?_, hv.writer_le, hv.reserve, hv.size_le⟩, ?_, rfl⟩
    · simp only
      omega
    · rw [content, content, drop_slice]
  · obtain rfl := Except.ok.inj h
    refine ⟨retrieveAll_valid hv, ?_, rfl⟩
    rw [retrieveAll_content, List.drop_eq_nil_of_le]
    rw [length_content hv]
    omega

/-- What is readable can be retrieved. -/
theorem retrieve_ok (hv : b.Valid) {len : Nat} (h : len ≤ b.content.length) :
    ∃ b', b.retrieve len = .ok b' := by
  rw [length_content hv] at h
  exact ⟨_, retrieve_eq hv h⟩

/-- `retrieveUntil` retrieves up to the given position. -/
theorem retrieveUntil_eq (hv : b.Valid) {last : Nat} (hr : b.readerIndex_ ≤ last)
    (hw : last ≤ b.writerIndex_) :
    b.retrieveUntil last = b.retrieve (last - b.readerIndex_) := by
  have hwl := hv.writer_le
  have hs := hv.size_lt
  unfold retrieveUntil
  rw [check_of hr, check_of hw, SizeT.sub_of_le hr (by omega)]
  rfl

/-- `retrieveAsString(len)` returns the bytes it drops. -/
theorem retrieveAsString_eq (hv : b.Valid) {len : Nat} (h : len ≤ b.content.length)
    (hb : b.retrieve len = .ok b') :
    b.retrieveAsString len = .ok (b.content.take len, b') := by
  have hlen := length_content hv
  have hr := hv.reader_le
  unfold retrieveAsString
  rw [readableBytes_eq_length hv, check_of h, hb, content, take_slice (by omega)]
  rfl

/-! ### Making space -/

/-- The buffer after the first branch of `makeSpace`. -/
def grown (b : Buffer) (len : Nat) : Buffer :=
  { b with buffer_ := b.buffer_ ++
      List.replicate (b.writerIndex_ + len - b.buffer_.length) 0 }

/-- The buffer after the second branch of `makeSpace`. -/
def compacted (b : Buffer) : Buffer :=
  { buffer_ := overwrite b.buffer_ kCheapPrepend b.content
    readerIndex_ := kCheapPrepend
    writerIndex_ := kCheapPrepend + (b.writerIndex_ - b.readerIndex_) }

/-- The size computations of a request for `len` bytes stay below `2 ^ 64`. -/
def NoOverflow (b : Buffer) (len : Nat) : Prop :=
  b.writableBytes < len → len + kCheapPrepend < 2 ^ 64 ∧ b.writerIndex_ + len < 2 ^ 64

instance (b : Buffer) (len : Nat) : Decidable (b.NoOverflow len) :=
  inferInstanceAs (Decidable (_ → _))

/-- Requests of at most `maxSize` bytes never overflow. -/
theorem noOverflow_of_le (hv : b.Valid) {len : Nat} (h : len ≤ maxSize) :
    b.NoOverflow len := by
  have hw := hv.writer_le
  have hs := hv.size_lt
  unfold maxSize at h
  unfold NoOverflow kCheapPrepend
  omega

/-- Growing the vector keeps the content. -/
theorem grown_valid (hv : b.Valid) (len : Nat)
    (hlen : b.buffer_.length ≤ b.writerIndex_ + len) (hmax : b.writerIndex_ + len ≤ maxSize) :
    (b.grown len).Valid ∧ (b.grown len).content = b.content ∧
      (b.grown len).buffer_.length = b.writerIndex_ + len := by
  have hw := hv.writer_le
  have hres := hv.reserve
  have hsize : (b.grown len).buffer_.length = b.writerIndex_ + len := by
    simp only [grown, List.length_append, List.length_replicate]
    omega
  refine ⟨⟨hv.reader_le, ?_, ?_, ?_⟩, slice_append_left hw, hsize⟩
  · rw [hsize]
    exact Nat.le_add_right _ _
  · rw [hsize]
    omega
  · rw [hsize]
    exact hmax

/-- Moving the content to the front keeps it. -/
theorem compacted_valid (hv : b.Valid) (hr : kCheapPrepend < b.readerIndex_) :
    b.compacted.Valid ∧ b.compacted.content = b.content ∧
      b.compacted.buffer_.length = b.buffer_.length := by
  have hrw := hv.reader_le
  have hw := hv.writer_le
  have hlen := length_content hv
  have hfit : kCheapPrepend + b.content.length ≤ b.buffer_.length := by omega
  have hsize : b.compacted.buffer_.length = b.buffer_.length := length_overwrite hfit
  refine ⟨⟨Nat.le_add_right _ _, ?_, ?_, ?_⟩, ?_, hsize⟩
  · rw [hsize, compacted]
    simp only
    omega
  · rw [hsize]
    exact hv.reserve
  · rw [hsize]
    exact hv.size_le
  · have hself := slice_overwrite_self hfit
    rw [hlen] at hself
    exact hself

/-- The second branch of `makeSpace`, beyond its first assertion. -/
theorem makeSpace_of_enough (hv : b.Valid) {len : Nat} (hr : kCheapPrepend < b.readerIndex_)
    (henough : SizeT.add len kCheapPrepend ≤ SizeT.add b.writableBytes b.prependableBytes) :
    b.makeSpace len = .ok b.compacted := by
  have hrw := hv.reader_le
  have hw := hv.writer_le
  have hs := hv.size_lt
  have hcopy : copyForward b.buffer_ b.readerIndex_ kCheapPrepend
      (b.writerIndex_ - b.readerIndex_) = overwrite b.buffer_ kCheapPrepend b.content := by
    rw [copyForward_eq_overwrite (by omega) (by omega), Nat.add_sub_cancel' hrw]
    rfl
  have hadd : SizeT.add kCheapPrepend b.readableBytes =
      kCheapPrepend + (b.writerIndex_ - b.readerIndex_) := by
    rw [readableBytes_eq hv, SizeT.add_of_lt (by omega)]
  have hread : b.readableBytes = b.compacted.readableBytes := by
    rw [readableBytes_eq hv, readableBytes_eq (compacted_valid hv hr).1]
    simp only [compacted, Nat.add_sub_cancel_left]
  unfold makeSpace
  rw [if_neg (by omega), hcopy]
  simp only [hadd]
  exact check_bind_eq_ok.2 ⟨hr, check_bind_eq_ok.2 ⟨hread, rfl⟩⟩

/-- All results of `makeSpace`, reached with too few writable bytes. -/
theorem makeSpace_eq (hv : b.Valid) {len : Nat}
    (hlen : b.buffer_.length - b.writerIndex_ < len) (hno : b.NoOverflow len) :
    b.makeSpace len =
      if b.buffer_.length - b.writerIndex_ + b.readerIndex_ < len + kCheapPrepend then
        if maxSize < b.writerIndex_ + len then .error .lengthError else .ok (b.grown len)
      else .ok b.compacted := by
  have hrw := hv.reader_le
  have hw := hv.writer_le
  have hs := hv.size_lt
  obtain ⟨hlen8, hwlen⟩ := hno (by rw [writableBytes_eq hv]; exact hlen)
  have hfree := freeBytes_eq hv
  have hask : SizeT.add len kCheapPrepend = len + kCheapPrepend := SizeT.add_of_lt hlen8
  split_ifs with hfull hmax
  · unfold makeSpace
    rw [hfree, hask, if_pos hfull, SizeT.add_of_lt hwlen, vectorResize, if_pos hmax]
    rfl
  · unfold makeSpace
    rw [hfree, hask, if_pos hfull, SizeT.add_of_lt hwlen,
      vectorResize_of_le (by omega) (by omega)]
    rfl
  · exact makeSpace_of_enough hv (by omega) (by rw [hfree, hask]; omega)

/-- All results of `ensureWritableBytes`: nothing to do, growth, compaction, or the
exception when more than `maxSize` bytes would be needed. -/
theorem ensureWritableBytes_eq (hv : b.Valid) {len : Nat} (hno : b.NoOverflow len) :
    b.ensureWritableBytes len =
      if b.buffer_.length - b.writerIndex_ < len then
        if b.buffer_.length - b.writerIndex_ + b.readerIndex_ < len + kCheapPrepend then
          if maxSize < b.writerIndex_ + len then .error .lengthError else .ok (b.grown len)
        else .ok b.compacted
      else .ok b := by
  have hrw := hv.reader_le
  have hw := hv.writer_le
  unfold ensureWritableBytes
  rw [writableBytes_eq hv]
  split_ifs with hlen hfull hmax
  · rw [makeSpace_eq hv hlen hno, if_pos hfull, if_pos hmax]
    rfl
  · obtain ⟨hv', -, hsize⟩ := grown_valid hv len (by omega) (by omega)
    rw [makeSpace_eq hv hlen hno, if_pos hfull, if_neg hmax]
    refine check_bind_eq_ok.2 ⟨?_, rfl⟩
    rw [writableBytes_eq hv', hsize]
    simp only [grown]
    omega
  · obtain ⟨hv', -, hsize⟩ := compacted_valid hv (by omega)
    rw [makeSpace_eq hv hlen hno, if_neg hfull]
    refine check_bind_eq_ok.2 ⟨?_, rfl⟩
    rw [writableBytes_eq hv', hsize]
    simp only [compacted]
    omega
  · refine check_bind_eq_ok.2 ⟨?_, rfl⟩
    rw [writableBytes_eq hv]
    omega

/-- `ensureWritableBytes` keeps the readable bytes on both branches of `makeSpace`. -/
theorem ensureWritableBytes_spec (hv : b.Valid) {len : Nat} (hno : b.NoOverflow len)
    (h : b.ensureWritableBytes len = .ok b') :
    b'.Valid ∧ b'.content = b.content ∧ len ≤ b'.buffer_.length - b'.writerIndex_ := by
  have hrw := hv.reader_le
  have hw := hv.writer_le
  rw [ensureWritableBytes_eq hv hno] at h
  split_ifs at h with hlen hfull hmax
  · obtain rfl := Except.ok.inj h
    obtain ⟨hv', hc, hsize⟩ := grown_valid hv len (by omega) (by omega)
    refine ⟨hv', hc, ?_⟩
    rw [hsize]
    simp only [grown]
    omega
  · obtain rfl := Except.ok.inj h
    obtain ⟨hv', hc, hsize⟩ := compacted_valid hv (by omega)
    refine ⟨hv', hc, ?_⟩
    rw [hsize]
    simp only [compacted]
    omega
  · obtain rfl := Except.ok.inj h
    exact ⟨hv, rfl, by omega⟩

/-- A request for space fails only by the exception, and only for lack of `max_size`. -/
theorem ensureWritableBytes_error (hv : b.Valid) {len : Nat} {f : Fault}
    (hno : b.NoOverflow len) (h : b.ensureWritableBytes len = .error f) :
    f = .lengthError ∧ maxSize < b.writerIndex_ + len := by
  rw [ensureWritableBytes_eq hv hno] at h
  split_ifs at h with hlen hfull hmax
  exact ⟨(Except.error.inj h).symm, hmax⟩

/-! ### Writing -/

/-- `hasWritten` moves the second index. -/
theorem hasWritten_eq (hv : b.Valid) {len : Nat}
    (h : len ≤ b.buffer_.length - b.writerIndex_) :
    b.hasWritten len = .ok { b with writerIndex_ := b.writerIndex_ + len } := by
  have hw := hv.writer_le
  have hs := hv.size_lt
  unfold hasWritten
  rw [writableBytes_eq hv, check_of h, SizeT.add_of_lt (by omega)]
  rfl

/-- Bytes stored inside the writable region leave a valid buffer with the same content. -/
theorem store_valid (hv : b.Valid) {off : Nat} {data : List UInt8}
    (hoff : b.writerIndex_ ≤ off) (h : off + data.length ≤ b.buffer_.length) :
    (b.store off data).Valid ∧ (b.store off data).content = b.content := by
  have hsize : (b.store off data).buffer_.length = b.buffer_.length := length_overwrite h
  refine ⟨⟨hv.reader_le, ?_, ?_, ?_⟩, slice_overwrite_of_le h hoff⟩
  · rw [hsize]
    exact hv.writer_le
  · rw [hsize]
    exact hv.reserve
  · rw [hsize]
    exact hv.size_le

/-- Bytes stored at `beginWrite()` and counted by `hasWritten` are added at the back. -/
theorem store_hasWritten (hv : b.Valid) {data : List UInt8}
    (h : data.length ≤ b.buffer_.length - b.writerIndex_) :
    ∃ b', (b.store b.writerIndex_ data).hasWritten data.length = .ok b' ∧ b'.Valid ∧
      b'.content = b.content ++ data := by
  have hrw := hv.reader_le
  have hw := hv.writer_le
  have hfit : b.writerIndex_ + data.length ≤ b.buffer_.length := by omega
  obtain ⟨hv', hc⟩ := store_valid hv le_rfl hfit
  have hsize : (b.store b.writerIndex_ data).buffer_.length = b.buffer_.length :=
    length_overwrite hfit
  refine ⟨_, hasWritten_eq hv' (by rw [hsize]; exact h), ?_, ?_⟩
  · refine ⟨?_, ?_, hv'.reserve, hv'.size_le⟩
    · exact Nat.le_trans hrw (Nat.le_add_right _ _)
    · rw [hsize]
      exact hfit
  · have hself : slice (overwrite b.buffer_ b.writerIndex_ data) b.writerIndex_
        (b.writerIndex_ + data.length) = data := slice_overwrite_self hfit
    have happ : slice (overwrite b.buffer_ b.writerIndex_ data) b.readerIndex_
          b.writerIndex_ ++ slice (overwrite b.buffer_ b.writerIndex_ data) b.writerIndex_
          (b.writerIndex_ + data.length) =
        slice (overwrite b.buffer_ b.writerIndex_ data) b.readerIndex_
          (b.writerIndex_ + data.length) :=
      slice_append_slice hrw (Nat.le_add_right _ _) (by rw [length_overwrite hfit]; exact hfit)
    rw [hself] at happ
    rw [← hc]
    exact happ.symm

/-- `append` either adds at the back or throws and changes nothing. -/
theorem append_cases (hv : b.Valid) {data : List UInt8} (hno : b.NoOverflow data.length) :
    (∃ b', b.append data = .ok b' ∧ b'.Valid ∧ b'.content = b.content ++ data) ∨
      (b.append data = .error .lengthError ∧ maxSize < b.writerIndex_ + data.length) := by
  unfold append
  cases he : b.ensureWritableBytes data.length with
  | ok b₁ =>
    obtain ⟨hv₁, hc₁, hroom⟩ := ensureWritableBytes_spec hv hno he
    obtain ⟨b₂, hb₂, hv₂, hc₂⟩ := store_hasWritten hv₁ hroom
    exact Or.inl ⟨b₂, hb₂, hv₂, by rw [hc₂, hc₁]⟩
  | error f =>
    obtain ⟨rfl, hmax⟩ := ensureWritableBytes_error hv hno he
    exact Or.inr ⟨rfl, hmax⟩

/-- `unwrite` takes the last bytes back. -/
theorem unwrite_spec (hv : b.Valid) {len : Nat} (h : len ≤ b.content.length) :
    ∃ b', b.unwrite len = .ok b' ∧ b'.Valid ∧
      b'.content = b.content.take (b.content.length - len) := by
  have hlen := length_content hv
  have hrw := hv.reader_le
  have hw := hv.writer_le
  have hs := hv.size_lt
  refine ⟨{ b with writerIndex_ := b.writerIndex_ - len }, ?_, ⟨?_, ?_, hv.reserve,
    hv.size_le⟩, ?_⟩
  · unfold unwrite
    rw [readableBytes_eq_length hv, check_of h, SizeT.sub_of_le (by omega) (by omega)]
    rfl
  · simp only
    omega
  · simp only
    omega
  · have htake : b.content.take (b.content.length - len) =
        slice b.buffer_ b.readerIndex_ (b.readerIndex_ + (b.content.length - len)) :=
      take_slice (by omega)
    rw [htake, show b.readerIndex_ + (b.content.length - len) = b.writerIndex_ - len by omega]
    rfl

/-- `prepend` puts bytes before the content, where there is room. -/
theorem prepend_spec (hv : b.Valid) {data : List UInt8} (h : data.length ≤ b.readerIndex_) :
    ∃ b', b.prepend data = .ok b' ∧ b'.Valid ∧ b'.content = data ++ b.content := by
  have hrw := hv.reader_le
  have hw := hv.writer_le
  have hs := hv.size_lt
  have hsub : SizeT.sub b.readerIndex_ data.length = b.readerIndex_ - data.length :=
    SizeT.sub_of_le h (by omega)
  have hback : b.readerIndex_ - data.length + data.length = b.readerIndex_ := by omega
  have hfit : b.readerIndex_ - data.length + data.length ≤ b.buffer_.length := by omega
  refine ⟨{ b with
    buffer_ := overwrite b.buffer_ (b.readerIndex_ - data.length) data
    readerIndex_ := b.readerIndex_ - data.length }, ?_, ⟨?_, ?_, ?_, ?_⟩, ?_⟩
  · unfold prepend
    rw [prependableBytes, check_of h, hsub]
    rfl
  · simp only
    omega
  · simp only [length_overwrite hfit]
    exact hw
  · simp only [length_overwrite hfit]
    exact hv.reserve
  · simp only [length_overwrite hfit]
    exact hv.size_le
  · have hself := slice_overwrite_self hfit
    have hrest : slice (overwrite b.buffer_ (b.readerIndex_ - data.length) data)
        b.readerIndex_ b.writerIndex_ = b.content :=
      slice_overwrite_of_ge hfit (by omega)
    rw [hback] at hself
    have happ := slice_append_slice (v := overwrite b.buffer_ (b.readerIndex_ - data.length)
      data) (a := b.readerIndex_ - data.length) (b := b.readerIndex_) (c := b.writerIndex_)
      (by omega) hrw (by rw [length_overwrite hfit]; exact hw)
    rw [hself, hrest] at happ
    exact happ.symm

/-! ### Integers -/

/-- The value read at the front is the big-endian value of the first bytes. -/
theorem peekIntN_eq (hv : b.Valid) (o : ByteOrder) {k : Nat} (h : k ≤ b.content.length) :
    b.peekIntN o k = .ok (ByteOrder.ofBeBytes (b.content.take k)) := by
  have hlen := length_content hv
  have hrw := hv.reader_le
  have htake : slice b.buffer_ b.readerIndex_ (b.readerIndex_ + k) = b.content.take k :=
    (take_slice (by omega)).symm
  have hk : (b.content.take k).length = k := by
    rw [List.length_take]
    omega
  have hload := o.ntoh_load (b.content.take k)
  rw [hk] at hload
  unfold peekIntN
  rw [readableBytes_eq_length hv, check_of h, htake, hload]
  rfl

/-- `*peek()` is the first readable byte. -/
theorem peekInt8_eq (hv : b.Valid) (h : 1 ≤ b.content.length) :
    b.peekInt8 = .ok (Int8.ofBitVec (b.content.getD 0 0).toBitVec) := by
  have hlen := length_content hv
  have hget : b.content.getD 0 0 = b.buffer_.getD b.readerIndex_ 0 := by
    rw [List.getD_eq_getElem?_getD, List.getD_eq_getElem?_getD, content, getElem?_slice,
      if_pos (by omega), Nat.add_zero]
  unfold peekInt8
  rw [readableBytes_eq_length hv, check_of h, hget]
  rfl

end Buffer

end LibNetToy
