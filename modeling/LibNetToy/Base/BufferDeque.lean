import LibNetToy.Base.Buffer
import LibNetToy.Foundations.Machine

/-!
# `Buffer` refines a byte deque

The purpose of a `Buffer` is to be a double-ended queue of bytes.  `Op` lists its public
operations, `Op.exec` runs one of them on a buffer and `Op.spec` says what it means for the
list of readable bytes.  `pairedMachine` runs any sequence of operations on any number of
buffers, with `swap` between them, and the same sequence on lists; a request that throws is
skipped on both sides.

`paired_refines` is the refinement: as long as every call meets the assertions on its own
arguments and no size computation passes `2 ^ 64 - 1`, the buffers stay valid, hold exactly
the lists and return the same results, no assertion inside the class fails, and an exception
is raised only for lack of `max_size`.
-/

namespace LibNetToy

namespace Buffer

/-! ## The operations -/

/-- The integer types a buffer encodes. -/
inductive Width
  | int8
  | int16
  | int32
  deriving DecidableEq, Repr

/-- A value of one of the integer types. -/
inductive IntValue
  | int8 (x : Int8)
  | int16 (x : Int16)
  | int32 (x : Int32)
  deriving DecidableEq

/-- `sizeof` of an integer type. -/
def Width.size : Width → Nat
  | .int8 => 1
  | .int16 => 2
  | .int32 => 4

/-- The type of a value. -/
def IntValue.width : IntValue → Width
  | .int8 _ => .int8
  | .int16 _ => .int16
  | .int32 _ => .int32

/-- The public operations.  `write` is an external write of the given bytes at
`beginWrite()` followed by `hasWritten`; `retrieveUntil` has the index of its pointer. -/
inductive Op
  | append (data : List UInt8)
  | appendString (str : List UInt8)
  | appendVoid (data : List UInt8)
  | write (data : List UInt8)
  | ensureWritableBytes (len : Nat)
  | prepend (data : List UInt8)
  | retrieve (len : Nat)
  | retrieveUntil (last : Nat)
  | retrieveAll
  | retrieveAsString (len : Nat)
  | retrieveAllAsString
  | unwrite (len : Nat)
  | appendInt (x : IntValue)
  | prependInt (x : IntValue)
  | peekInt (w : Width)
  | readInt (w : Width)
  | retrieveInt (w : Width)

/-- What an operation returns. -/
inductive Result
  | void
  | string (s : List UInt8)
  | int (x : IntValue)
  | threw
  deriving DecidableEq

/-- `appendInt8`, `appendInt16` or `appendInt32`. -/
def appendInt (o : ByteOrder) (b : Buffer) : IntValue → Except Fault Buffer
  | .int8 x => b.appendInt8 x
  | .int16 x => b.appendInt16 o x
  | .int32 x => b.appendInt32 o x

/-- `prependInt8`, `prependInt16` or `prependInt32`. -/
def prependInt (o : ByteOrder) (b : Buffer) : IntValue → Except Fault Buffer
  | .int8 x => b.prependInt8 x
  | .int16 x => b.prependInt16 o x
  | .int32 x => b.prependInt32 o x

/-- `peekInt8`, `peekInt16` or `peekInt32`. -/
def peekInt (o : ByteOrder) (b : Buffer) : Width → Except Fault IntValue
  | .int8 => do pure (.int8 (← b.peekInt8))
  | .int16 => do pure (.int16 (← b.peekInt16 o))
  | .int32 => do pure (.int32 (← b.peekInt32 o))

/-- `readInt8`, `readInt16` or `readInt32`. -/
def readInt (o : ByteOrder) (b : Buffer) : Width → Except Fault (IntValue × Buffer)
  | .int8 => do
    let (x, b') ← b.readInt8
    pure (.int8 x, b')
  | .int16 => do
    let (x, b') ← b.readInt16 o
    pure (.int16 x, b')
  | .int32 => do
    let (x, b') ← b.readInt32 o
    pure (.int32 x, b')

/-- Run one operation on a buffer. -/
def Op.exec (o : ByteOrder) (b : Buffer) : Op → Except Fault (Result × Buffer)
  | .append data => do pure (.void, ← b.append data)
  | .appendString str => do pure (.void, ← b.appendString str)
  | .appendVoid data => do pure (.void, ← b.appendVoid data)
  | .write data => do pure (.void, ← (b.store b.writerIndex_ data).hasWritten data.length)
  | .ensureWritableBytes len => do pure (.void, ← b.ensureWritableBytes len)
  | .prepend data => do pure (.void, ← b.prepend data)
  | .retrieve len => do pure (.void, ← b.retrieve len)
  | .retrieveUntil last => do pure (.void, ← b.retrieveUntil last)
  | .retrieveAll => pure (.void, b.retrieveAll)
  | .retrieveAsString len => do
    let (s, b') ← b.retrieveAsString len
    pure (.string s, b')
  | .retrieveAllAsString => do
    let (s, b') ← b.retrieveAllAsString
    pure (.string s, b')
  | .unwrite len => do pure (.void, ← b.unwrite len)
  | .appendInt x => do pure (.void, ← b.appendInt o x)
  | .prependInt x => do pure (.void, ← b.prependInt o x)
  | .peekInt w => do pure (.int (← b.peekInt o w), b)
  | .readInt w => do
    let (x, b') ← b.readInt o w
    pure (.int x, b')
  | .retrieveInt w => do pure (.void, ← b.retrieveIntN w.size)

/-- The precondition an operation states on its arguments, and the absence of 64-bit
overflow in the sizes it computes. -/
def Op.Admissible (b : Buffer) : Op → Prop
  | .append data => b.NoOverflow data.length
  | .appendString str => b.NoOverflow str.length
  | .appendVoid data => b.NoOverflow data.length
  | .write data => data.length ≤ b.writableBytes
  | .ensureWritableBytes len => b.NoOverflow len
  | .prepend data => data.length ≤ b.prependableBytes
  | .retrieve len => len ≤ b.readableBytes
  | .retrieveUntil last => b.readerIndex_ ≤ last ∧ last ≤ b.writerIndex_
  | .retrieveAll => True
  | .retrieveAsString len => len ≤ b.readableBytes
  | .retrieveAllAsString => True
  | .unwrite len => len ≤ b.readableBytes
  | .appendInt x => b.NoOverflow x.width.size
  | .prependInt x => x.width.size ≤ b.prependableBytes
  | .peekInt w => w.size ≤ b.readableBytes
  | .readInt w => w.size ≤ b.readableBytes
  | .retrieveInt w => w.size ≤ b.readableBytes

instance (b : Buffer) (op : Op) : Decidable (op.Admissible b) := by
  cases op <;> unfold Op.Admissible <;> infer_instance

/-! ## What the operations mean -/

/-- The big-endian two's-complement bytes of a value. -/
def IntValue.bytes : IntValue → List UInt8
  | .int8 x => ByteOrder.beBytes 1 x.toBitVec.toNat
  | .int16 x => ByteOrder.beBytes 2 x.toBitVec.toNat
  | .int32 x => ByteOrder.beBytes 4 x.toBitVec.toNat

/-- The value with the given big-endian two's-complement bytes. -/
def Width.decode (w : Width) (bs : List UInt8) : IntValue :=
  match w with
  | .int8 => .int8 (Int8.ofBitVec (BitVec.ofNat 8 (ByteOrder.ofBeBytes bs)))
  | .int16 => .int16 (Int16.ofBitVec (BitVec.ofNat 16 (ByteOrder.ofBeBytes bs)))
  | .int32 => .int32 (Int32.ofBitVec (BitVec.ofNat 32 (ByteOrder.ofBeBytes bs)))

/-- The meaning of an operation on a deque of bytes.  `front` is the index of the front,
from which the pointer of `retrieveUntil` is measured. -/
def Op.spec (front : Nat) (l : List UInt8) : Op → Result × List UInt8
  | .append data => (.void, l ++ data)
  | .appendString str => (.void, l ++ str)
  | .appendVoid data => (.void, l ++ data)
  | .write data => (.void, l ++ data)
  | .ensureWritableBytes _ => (.void, l)
  | .prepend data => (.void, data ++ l)
  | .retrieve len => (.void, l.drop len)
  | .retrieveUntil last => (.void, l.drop (last - front))
  | .retrieveAll => (.void, [])
  | .retrieveAsString len => (.string (l.take len), l.drop len)
  | .retrieveAllAsString => (.string l, [])
  | .unwrite len => (.void, l.take (l.length - len))
  | .appendInt x => (.void, l ++ x.bytes)
  | .prependInt x => (.void, x.bytes ++ l)
  | .peekInt w => (.int (w.decode (l.take w.size)), l)
  | .readInt w => (.int (w.decode (l.take w.size)), l.drop w.size)
  | .retrieveInt w => (.void, l.drop w.size)

/-! ## Integers as bytes -/

@[simp] theorem IntValue.length_bytes (x : IntValue) : x.bytes.length = x.width.size := by
  cases x <;> exact ByteOrder.length_beBytes _ _

/-- A byte converted to an unsigned integer is its own big-endian encoding. -/
theorem beBytes_one (v : BitVec 8) : ByteOrder.beBytes 1 v.toNat = [UInt8.ofBitVec v] := by
  have h : UInt8.ofNat v.toNat = UInt8.ofBitVec v := by
    rw [← UInt8.toNat_inj, UInt8.toNat_ofNat', UInt8.toNat_ofBitVec]
    exact Nat.mod_eq_of_lt v.isLt
  rw [ByteOrder.beBytes, ByteOrder.leBytes, ByteOrder.leBytes, h]
  rfl

theorem ofBeBytes_singleton (x : UInt8) : ByteOrder.ofBeBytes [x] = x.toNat := by
  simp [ByteOrder.ofBeBytes, ByteOrder.ofLeBytes]

variable {b : Buffer}

/-- Appending an integer appends its big-endian bytes, whatever the byte order of the
host. -/
theorem appendInt_eq (o : ByteOrder) (b : Buffer) (x : IntValue) :
    b.appendInt o x = b.append x.bytes := by
  cases x with
  | int8 x => rw [IntValue.bytes, beBytes_one]; rfl
  | int16 x => rw [IntValue.bytes, ← ByteOrder.image_hton o]; rfl
  | int32 x => rw [IntValue.bytes, ← ByteOrder.image_hton o]; rfl

/-- Prepending an integer prepends its big-endian bytes. -/
theorem prependInt_eq (o : ByteOrder) (b : Buffer) (x : IntValue) :
    b.prependInt o x = b.prepend x.bytes := by
  cases x with
  | int8 x => rw [IntValue.bytes, beBytes_one]; rfl
  | int16 x => rw [IntValue.bytes, ← ByteOrder.image_hton o]; rfl
  | int32 x => rw [IntValue.bytes, ← ByteOrder.image_hton o]; rfl

/-- Peeking an integer decodes the first readable bytes. -/
theorem peekInt_eq (hv : b.Valid) (o : ByteOrder) {w : Width}
    (h : w.size ≤ b.content.length) :
    b.peekInt o w = .ok (w.decode (b.content.take w.size)) := by
  cases w with
  | int8 =>
    have htake : b.content.take 1 = [b.content.getD 0 0] := by
      cases hc : b.content with
      | nil => simp [hc, Width.size] at h
      | cons x xs => rfl
    have hval : BitVec.ofNat 8 (b.content.getD 0 0).toNat = (b.content.getD 0 0).toBitVec :=
      (BitVec.ofNat_toNat 8 _).trans (BitVec.setWidth_eq _)
    rw [peekInt, peekInt8_eq hv h, Width.size, htake, Width.decode, ofBeBytes_singleton, hval]
    rfl
  | int16 =>
    have hpeek : b.peekIntN o 2 = .ok (ByteOrder.ofBeBytes (b.content.take 2)) :=
      peekIntN_eq hv o h
    rw [peekInt, peekInt16, hpeek]
    rfl
  | int32 =>
    have hpeek : b.peekIntN o 4 = .ok (ByteOrder.ofBeBytes (b.content.take 4)) :=
      peekIntN_eq hv o h
    rw [peekInt, peekInt32, hpeek]
    rfl

/-- Reading an integer is peeking it and dropping its bytes. -/
theorem readInt_eq (o : ByteOrder) (w : Width) {x : IntValue} {b' : Buffer}
    (hx : b.peekInt o w = .ok x) (hb : b.retrieve w.size = .ok b') :
    b.readInt o w = .ok (x, b') := by
  cases w with
  | int8 =>
    have hr : b.retrieveIntN 1 = .ok b' := hb
    rw [peekInt] at hx
    rw [readInt, readInt8]
    cases hp : b.peekInt8 with
    | error f => rw [hp] at hx; cases hx
    | ok y =>
      rw [hp] at hx
      rw [ok_bind, hr]
      exact congrArg (fun z => Except.ok (z, b')) (Except.ok.inj hx)
  | int16 =>
    have hr : b.retrieveIntN 2 = .ok b' := hb
    rw [peekInt] at hx
    rw [readInt, readInt16]
    cases hp : b.peekInt16 o with
    | error f => rw [hp] at hx; cases hx
    | ok y =>
      rw [hp] at hx
      rw [ok_bind, hr]
      exact congrArg (fun z => Except.ok (z, b')) (Except.ok.inj hx)
  | int32 =>
    have hr : b.retrieveIntN 4 = .ok b' := hb
    rw [peekInt] at hx
    rw [readInt, readInt32]
    cases hp : b.peekInt32 o with
    | error f => rw [hp] at hx; cases hx
    | ok y =>
      rw [hp] at hx
      rw [ok_bind, hr]
      exact congrArg (fun z => Except.ok (z, b')) (Except.ok.inj hx)

/-! ## One operation -/

/-- The number of writable bytes an operation asks for. -/
def Op.request : Op → Nat
  | .append data => data.length
  | .appendString str => str.length
  | .appendVoid data => data.length
  | .ensureWritableBytes len => len
  | .appendInt x => x.width.size
  | _ => 0

/-- An operation returns what the deque returns and leaves a valid buffer with the content
of the deque, or throws because `max_size` would be exceeded. -/
def Op.Refines (o : ByteOrder) (b : Buffer) (op : Op) : Prop :=
  (∃ b', op.exec o b = .ok ((op.spec b.readerIndex_ b.content).1, b') ∧ b'.Valid ∧
      b'.content = (op.spec b.readerIndex_ b.content).2) ∨
    (op.exec o b = .error .lengthError ∧ maxSize < b.writerIndex_ + op.request)

theorem append_refines (hv : b.Valid) (o : ByteOrder) {op : Op} {data : List UInt8}
    (hexec : op.exec o b = do pure (.void, ← b.append data))
    (hspec : op.spec b.readerIndex_ b.content = (.void, b.content ++ data))
    (hreq : op.request = data.length) (hno : b.NoOverflow data.length) :
    op.Refines o b := by
  unfold Op.Refines
  rw [hexec, hspec, hreq]
  rcases append_cases hv hno with ⟨b', hb', hv', hc'⟩ | ⟨hthrow, hmax⟩
  · rw [hb']
    exact Or.inl ⟨b', rfl, hv', hc'⟩
  · rw [hthrow]
    exact Or.inr ⟨rfl, hmax⟩

theorem retrieve_refines (hv : b.Valid) (o : ByteOrder) {op : Op} {len : Nat}
    (hexec : op.exec o b = do pure (.void, ← b.retrieve len))
    (hspec : op.spec b.readerIndex_ b.content = (.void, b.content.drop len))
    (hlen : len ≤ b.content.length) : op.Refines o b := by
  obtain ⟨b', hb'⟩ := retrieve_ok hv hlen
  obtain ⟨-, hv', hc', -⟩ := retrieve_spec hv hb'
  unfold Op.Refines
  rw [hexec, hspec, hb']
  exact Or.inl ⟨b', rfl, hv', hc'⟩

theorem retrieveAsString_refines (hv : b.Valid) (o : ByteOrder) {op : Op} {len : Nat}
    (hexec : op.exec o b = do
      let (s, b') ← b.retrieveAsString len
      pure (.string s, b'))
    (hspec : op.spec b.readerIndex_ b.content =
      (.string (b.content.take len), b.content.drop len))
    (hlen : len ≤ b.content.length) : op.Refines o b := by
  obtain ⟨b', hb'⟩ := retrieve_ok hv hlen
  obtain ⟨-, hv', hc', -⟩ := retrieve_spec hv hb'
  unfold Op.Refines
  rw [hexec, hspec, retrieveAsString_eq hv hlen hb']
  exact Or.inl ⟨b', rfl, hv', hc'⟩

/-- Every admissible operation on a valid buffer refines its meaning on deques. -/
theorem Op.refines (hv : b.Valid) (o : ByteOrder) (op : Op) (hop : op.Admissible b) :
    op.Refines o b := by
  have hread := readableBytes_eq_length hv
  have hlen := length_content hv
  cases op with
  | append data => exact append_refines hv o rfl rfl rfl hop
  | appendString str => exact append_refines hv o rfl rfl rfl hop
  | appendVoid data => exact append_refines hv o rfl rfl rfl hop
  | write data =>
    have hfit : data.length ≤ b.buffer_.length - b.writerIndex_ := by
      rw [← writableBytes_eq hv]
      exact hop
    obtain ⟨b', hb', hv', hc'⟩ := store_hasWritten hv hfit
    refine Or.inl ⟨b', ?_, hv', hc'⟩
    rw [Op.exec, hb']
    rfl
  | ensureWritableBytes len =>
    unfold Op.Refines
    rw [Op.exec]
    cases he : b.ensureWritableBytes len with
    | ok b' =>
      obtain ⟨hv', hc', -⟩ := ensureWritableBytes_spec hv hop he
      exact Or.inl ⟨b', rfl, hv', hc'⟩
    | error f =>
      obtain ⟨rfl, hmax⟩ := ensureWritableBytes_error hv hop he
      exact Or.inr ⟨rfl, hmax⟩
  | prepend data =>
    obtain ⟨b', hb', hv', hc'⟩ := prepend_spec hv hop
    refine Or.inl ⟨b', ?_, hv', hc'⟩
    rw [Op.exec, hb']
    rfl
  | retrieve len => exact retrieve_refines hv o rfl rfl (hread ▸ hop)
  | retrieveUntil last =>
    obtain ⟨hr, hw⟩ := hop
    refine retrieve_refines hv o ?_ rfl (show last - b.readerIndex_ ≤ _ by omega)
    rw [Op.exec, retrieveUntil_eq hv hr hw]
  | retrieveAll =>
    exact Or.inl ⟨_, rfl, retrieveAll_valid hv, retrieveAll_content b⟩
  | retrieveAsString len => exact retrieveAsString_refines hv o rfl rfl (hread ▸ hop)
  | retrieveAllAsString =>
    refine retrieveAsString_refines hv o ?_ ?_ le_rfl
    · rw [Op.exec, Buffer.retrieveAllAsString, hread]
    · rw [Op.spec, List.take_length, List.drop_length]
  | unwrite len =>
    have hlen : len ≤ b.content.length := by
      rw [← hread]
      exact hop
    obtain ⟨b', hb', hv', hc'⟩ := unwrite_spec hv hlen
    refine Or.inl ⟨b', ?_, hv', hc'⟩
    rw [Op.exec, hb']
    rfl
  | appendInt x =>
    have hno : b.NoOverflow x.bytes.length := by
      rw [IntValue.length_bytes]
      exact hop
    refine append_refines hv o ?_ rfl ?_ hno
    · rw [Op.exec, appendInt_eq]
    · rw [Op.request, IntValue.length_bytes]
  | prependInt x =>
    have hfit : x.bytes.length ≤ b.readerIndex_ := by
      rw [IntValue.length_bytes]
      exact hop
    obtain ⟨b', hb', hv', hc'⟩ := prepend_spec hv hfit
    refine Or.inl ⟨b', ?_, hv', hc'⟩
    rw [Op.exec, prependInt_eq, hb']
    rfl
  | peekInt w =>
    refine Or.inl ⟨b, ?_, hv, rfl⟩
    rw [Op.exec, peekInt_eq hv o (hread ▸ hop)]
    rfl
  | readInt w =>
    have hw : w.size ≤ b.content.length := hread ▸ hop
    obtain ⟨b', hb'⟩ := retrieve_ok hv hw
    obtain ⟨-, hv', hc', -⟩ := retrieve_spec hv hb'
    refine Or.inl ⟨b', ?_, hv', hc'⟩
    rw [Op.exec, readInt_eq o w (peekInt_eq hv o hw) hb']
    rfl
  | retrieveInt w => exact retrieve_refines hv o rfl rfl (hread ▸ hop)

/-! ## Runs on any number of buffers -/

variable {ι : Type} [DecidableEq ι]

/-- Buffers and deques under the same names, with everything their operations returned. -/
structure Paired (ι : Type) where
  buffers : ι → Buffer
  lists : ι → List UInt8
  results : List Result
  expected : List Result

/-- A call on one buffer, or `swap` of two. -/
inductive Command (ι : Type)
  | call (i : ι) (op : Op)
  | swap (i j : ι)

/-- One command on the buffers and on the deques. -/
def pairedStep (o : ByteOrder) : Command ι → Paired ι → Except (Halt Fault) (Paired ι)
  | .call i op, s =>
    match op.exec o (s.buffers i) with
    | .ok (r, b') =>
      let e := op.spec (s.buffers i).readerIndex_ (s.lists i)
      .ok { buffers := Function.update s.buffers i b'
            lists := Function.update s.lists i e.2
            results := s.results ++ [r]
            expected := s.expected ++ [e.1] }
    | .error .lengthError =>
      .ok { s with results := s.results ++ [.threw], expected := s.expected ++ [.threw] }
    | .error f => .error (.fault f)
  | .swap i j, s =>
    let b := (s.buffers i).swap (s.buffers j)
    .ok { s with
      buffers := Function.update (Function.update s.buffers i b.1) j b.2
      lists := Function.update (Function.update s.lists i (s.lists j)) j (s.lists i) }

/-- Runs that start with buffers of the given initial sizes. -/
def pairedMachine (o : ByteOrder) (initialSize : ι → Nat) :
    Machine (Paired ι) (Command ι) Fault where
  init s := (∀ i, ofInitialSize (initialSize i) = .ok (s.buffers i)) ∧
    (∀ i, s.lists i = []) ∧ s.results = [] ∧ s.expected = []
  step := pairedStep o

/-- The call of a command meets the assertions on its arguments without overflow. -/
def Command.Admissible (s : Paired ι) : Command ι → Prop
  | .call i op => op.Admissible (s.buffers i)
  | .swap _ _ => True

instance (s : Paired ι) (cmd : Command ι) : Decidable (cmd.Admissible s) := by
  cases cmd <;> unfold Command.Admissible <;> infer_instance

/-- The refinement relation between buffers and deques. -/
structure Paired.Agrees (s : Paired ι) : Prop where
  valid : ∀ i, (s.buffers i).Valid
  content : ∀ i, (s.buffers i).content = s.lists i
  results : s.results = s.expected

theorem Paired.agrees_update {s : Paired ι} (hs : s.Agrees) (i : ι) {b' : Buffer}
    {l' : List UInt8} (hv : b'.Valid) (hc : b'.content = l') (r : Result) :
    Paired.Agrees { buffers := Function.update s.buffers i b'
                    lists := Function.update s.lists i l'
                    results := s.results ++ [r]
                    expected := s.expected ++ [r] } := by
  refine ⟨fun k => ?_, fun k => ?_, by rw [hs.results]⟩
  · simp only [Function.update_apply]
    split_ifs
    · exact hv
    · exact hs.valid k
  · simp only [Function.update_apply]
    split_ifs
    · exact hc
    · exact hs.content k

/-- An admissible command is executed and keeps the refinement relation. -/
theorem pairedStep_agrees (o : ByteOrder) {s : Paired ι} {cmd : Command ι} (hs : s.Agrees)
    (hcmd : cmd.Admissible s) : ∃ s', pairedStep o cmd s = .ok s' ∧ s'.Agrees := by
  cases cmd with
  | call i op =>
    rcases Op.refines (hs.valid i) o op hcmd with ⟨b', hb', hv', hc'⟩ | ⟨hthrow, -⟩
    · rw [hs.content i] at hb' hc'
      simp only [pairedStep, hb']
      exact ⟨_, rfl, Paired.agrees_update hs i hv' hc' _⟩
    · simp only [pairedStep, hthrow]
      exact ⟨_, rfl, hs.valid, hs.content, by rw [hs.results]⟩
  | swap i j =>
    refine ⟨_, rfl, fun k => ?_, fun k => ?_, hs.results⟩
    · simp only [Function.update_apply, swap]
      split_ifs
      · exact hs.valid i
      · exact hs.valid j
      · exact hs.valid k
    · simp only [Function.update_apply, swap]
      split_ifs
      · exact hs.content i
      · exact hs.content j
      · exact hs.content k

/-- In every admissible run, buffers of any initial sizes keep their index invariant, hold
exactly the content of the deques and return the same results; no assertion fails, in the
constructor or in a later call, and a call throws only if `max_size` leaves no room for the
bytes it asks for. -/
theorem paired_refines (o : ByteOrder) (initialSize : ι → Nat)
    (hsize : ∀ i, kCheapPrepend + initialSize i < 2 ^ 64) :
    (∀ i a, ofInitialSize (initialSize i) ≠ .error (.assertion a)) ∧
    ∀ s : Paired ι,
      (pairedMachine o initialSize).ReachableUnder (fun s cmd => cmd.Admissible s) s →
      (∀ i, (s.buffers i).readerIndex_ ≤ (s.buffers i).writerIndex_ ∧
        (s.buffers i).writerIndex_ ≤ (s.buffers i).buffer_.length ∧
        kCheapPrepend ≤ (s.buffers i).buffer_.length) ∧
      (∀ i, (s.buffers i).content = s.lists i) ∧ s.results = s.expected ∧
      (∀ cmd : Command ι, cmd.Admissible s → ∃ s', pairedStep o cmd s = .ok s') ∧
      ∀ i (op : Op), op.Admissible (s.buffers i) → op.exec o (s.buffers i) = .error .lengthError →
        maxSize < (s.buffers i).writerIndex_ + op.request := by
  refine ⟨fun i a => ?_, fun s hs => ?_⟩
  · rw [ofInitialSize_eq (hsize i)]
    split_ifs <;> simp
  · have hagree : s.Agrees := by
      refine hs.invariant (fun t ht => ?_) fun t cmd t' ht hcmd hstep => ?_
      · obtain ⟨hb, hl, hr, he⟩ := ht
        refine ⟨fun i => (valid_of_ofInitialSize (hsize i) (hb i)).1, fun i => ?_, ?_⟩
        · rw [hl i]
          exact (valid_of_ofInitialSize (hsize i) (hb i)).2
        · rw [hr, he]
      · obtain ⟨t'', ht'', hagree⟩ := pairedStep_agrees o ht hcmd
        obtain rfl := Except.ok.inj (ht''.symm.trans hstep)
        exact hagree
    refine ⟨fun i => ⟨(hagree.valid i).reader_le, (hagree.valid i).writer_le,
      (hagree.valid i).reserve⟩, hagree.content, hagree.results, fun cmd hcmd => ?_,
      fun i op hop hthrow => ?_⟩
    · obtain ⟨s', hs', -⟩ := pairedStep_agrees o hagree hcmd
      exact ⟨s', hs'⟩
    · rcases Op.refines (hagree.valid i) o op hop with ⟨b', hb', -⟩ | ⟨-, hmax⟩
      · rw [hb'] at hthrow
        cases hthrow
      · exact hmax

/-- Two buffers of initial size 4 on a little-endian host: the first grows, is read, takes
an integer and is swapped with the second. -/
theorem paired_refines_two : ∃ s : Paired Bool,
    (pairedMachine .little fun _ : Bool => 4).ReachableUnder (fun s cmd => cmd.Admissible s) s ∧
      s.results = [.void, .string [1, 2], .void] ∧ s.results = s.expected ∧
      (s.buffers true).content = s.lists true ∧ s.lists true = [3, 4, 5, 255, 254] := by
  have hinit : (pairedMachine .little fun _ : Bool => 4).init
      ⟨fun _ => ⟨List.replicate 12 0, 8, 8⟩, fun _ => [], [], []⟩ :=
    ⟨fun _ => (by decide : ofInitialSize 4 = .ok ⟨List.replicate 12 0, 8, 8⟩), fun _ => rfl,
      rfl, rfl⟩
  have hrun : ((pairedMachine .little fun _ : Bool => 4).run (fun s cmd => cmd.Admissible s)
      [.call false (.append [1, 2, 3, 4, 5]), .call false (.retrieveAsString 2),
        .call false (.appendInt (.int16 (-2))), .swap false true]
      ⟨fun _ => ⟨List.replicate 12 0, 8, 8⟩, fun _ => [], [], []⟩).map
        (fun s => (s.results, s.lists true)) =
      .ok ([.void, .string [1, 2], .void], [3, 4, 5, 255, 254]) := by decide +kernel
  obtain ⟨s, hs, hobs⟩ := Machine.exists_of_run hinit hrun
  obtain ⟨-, hcontent, hresults, -⟩ :=
    (paired_refines .little (fun _ : Bool => 4) (by decide)).2 s hs
  exact ⟨s, hs, congrArg Prod.fst hobs, hresults, hcontent true, congrArg Prod.snd hobs⟩

end Buffer

end LibNetToy
