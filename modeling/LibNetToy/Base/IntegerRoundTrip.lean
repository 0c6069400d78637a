import LibNetToy.Base.BufferDeque

/-!
# Integers written and read back

`appendInt8`, `appendInt16` and `appendInt32` add the big-endian two's-complement bytes of a
value, and the functions that read take the same bytes away.  A list of values of any types is
therefore recovered by reading the same types in the same order, whatever the byte order of the
host and whatever `append` and `retrieve` do to the indices in between; and values read from any
bytes are written as these bytes.
-/

namespace LibNetToy

namespace Buffer

/-- One call of `appendInt8`, `appendInt16` or `appendInt32` for each value. -/
def appendInts (o : ByteOrder) (b : Buffer) : List IntValue → Except Fault Buffer
  | [] => pure b
  | x :: xs => do
    let b' ← b.appendInt o x
    b'.appendInts o xs

/-- One call of `readInt8`, `readInt16` or `readInt32` for each type. -/
def readInts (o : ByteOrder) (b : Buffer) : List Width → Except Fault (List IntValue × Buffer)
  | [] => pure ([], b)
  | w :: ws => do
    let (x, b₁) ← b.readInt o w
    let (xs, b₂) ← b₁.readInts o ws
    pure (x :: xs, b₂)

/-- The bytes of several values, one after the other. -/
def bytesOf (xs : List IntValue) : List UInt8 :=
  xs.flatMap IntValue.bytes

/-- The number of bytes of several types. -/
def sizeOf (ws : List Width) : Nat :=
  (ws.map Width.size).sum

/-- The values with the given bytes. -/
def decodeAll : List Width → List UInt8 → List IntValue
  | [], _ => []
  | w :: ws, bs => w.decode (bs.take w.size) :: decodeAll ws (bs.drop w.size)

/-! ## One value -/

/-- The bytes of a value are decoded to the value. -/
theorem IntValue.decode_bytes (x : IntValue) : x.width.decode x.bytes = x := by
  cases x with
  | int8 x =>
    have hx : x.toBitVec.toNat % 256 ^ 1 = x.toBitVec.toNat := Nat.mod_eq_of_lt x.toBitVec.isLt
    rw [bytes, width, Width.decode, ByteOrder.ofBeBytes_beBytes, hx, BitVec.ofNat_toNat,
      BitVec.setWidth_eq]
    rfl
  | int16 x =>
    have hx : x.toBitVec.toNat % 256 ^ 2 = x.toBitVec.toNat := Nat.mod_eq_of_lt x.toBitVec.isLt
    rw [bytes, width, Width.decode, ByteOrder.ofBeBytes_beBytes, hx, BitVec.ofNat_toNat,
      BitVec.setWidth_eq]
    rfl
  | int32 x =>
    have hx : x.toBitVec.toNat % 256 ^ 4 = x.toBitVec.toNat := Nat.mod_eq_of_lt x.toBitVec.isLt
    rw [bytes, width, Width.decode, ByteOrder.ofBeBytes_beBytes, hx, BitVec.ofNat_toNat,
      BitVec.setWidth_eq]
    rfl

@[simp] theorem Width.width_decode (w : Width) (bs : List UInt8) : (w.decode bs).width = w := by
  cases w <;> rfl

/-- The value of as many bytes as the type has is encoded as these bytes. -/
theorem Width.bytes_decode (w : Width) {bs : List UInt8} (h : bs.length = w.size) :
    (w.decode bs).bytes = bs := by
  have hback := ByteOrder.beBytes_ofBeBytes bs
  have hlt : ByteOrder.ofBeBytes bs < 256 ^ bs.length := by
    have hlt := ByteOrder.ofLeBytes_lt bs.reverse
    rw [List.length_reverse] at hlt
    exact hlt
  rw [h] at hback hlt
  cases w with
  | int8 =>
    have hval : (BitVec.ofNat 8 (ByteOrder.ofBeBytes bs)).toNat = ByteOrder.ofBeBytes bs :=
      Nat.mod_eq_of_lt hlt
    exact (congrArg (ByteOrder.beBytes 1) hval).trans hback
  | int16 =>
    have hval : (BitVec.ofNat 16 (ByteOrder.ofBeBytes bs)).toNat = ByteOrder.ofBeBytes bs :=
      Nat.mod_eq_of_lt hlt
    exact (congrArg (ByteOrder.beBytes 2) hval).trans hback
  | int32 =>
    have hval : (BitVec.ofNat 32 (ByteOrder.ofBeBytes bs)).toNat = ByteOrder.ofBeBytes bs :=
      Nat.mod_eq_of_lt hlt
    exact (congrArg (ByteOrder.beBytes 4) hval).trans hback

/-! ## Several values -/

@[simp] theorem length_bytesOf (xs : List IntValue) :
    (bytesOf xs).length = sizeOf (xs.map IntValue.width) := by
  induction xs with
  | nil => rfl
  | cons x xs ih =>
    rw [bytesOf, List.flatMap_cons, List.length_append, IntValue.length_bytes]
    exact congrArg (x.width.size + ·) ih

theorem map_width_decodeAll (ws : List Width) (bs : List UInt8) :
    (decodeAll ws bs).map IntValue.width = ws := by
  induction ws generalizing bs with
  | nil => rfl
  | cons w ws ih => rw [decodeAll, List.map_cons, Width.width_decode, ih]

/-- Values decoded from enough bytes are encoded as the first of these bytes. -/
theorem bytesOf_decodeAll (ws : List Width) {bs : List UInt8} (h : sizeOf ws ≤ bs.length) :
    bytesOf (decodeAll ws bs) = bs.take (sizeOf ws) := by
  induction ws generalizing bs with
  | nil => rfl
  | cons w ws ih =>
    have hsize : sizeOf (w :: ws) = w.size + sizeOf ws := rfl
    rw [hsize] at h ⊢
    have hhead : (bs.take w.size).length = w.size := by
      rw [List.length_take]
      omega
    have htail : sizeOf ws ≤ (bs.drop w.size).length := by
      rw [List.length_drop]
      omega
    have hrest : (decodeAll ws (bs.drop w.size)).flatMap IntValue.bytes =
        (bs.drop w.size).take (sizeOf ws) := ih htail
    rw [decodeAll, bytesOf, List.flatMap_cons, Width.bytes_decode w hhead, hrest, List.take_add]

variable {b b' : Buffer}

/-- `append` moves `writerIndex_` forward by at most the bytes it adds. -/
theorem append_writer_le (hv : b.Valid) {data : List UInt8} (hno : b.NoOverflow data.length)
    (h : b.append data = .ok b') : b'.writerIndex_ ≤ b.writerIndex_ + data.length := by
  have hrw := hv.reader_le
  obtain ⟨b₁, he, hwrite⟩ := bind_eq_ok.1 h
  obtain ⟨hv₁, -, hroom⟩ := ensureWritableBytes_spec hv hno he
  have hw₁ := hv₁.writer_le
  have hfit : b₁.writerIndex_ + data.length ≤ b₁.buffer_.length := by omega
  have hsize : (b₁.store b₁.writerIndex_ data).buffer_.length = b₁.buffer_.length :=
    Memory.length_overwrite hfit
  rw [hasWritten_eq (store_valid hv₁ le_rfl hfit).1 (by rw [hsize]; exact hroom)] at hwrite
  obtain rfl := Except.ok.inj hwrite
  rw [ensureWritableBytes_eq hv hno] at he
  split_ifs at he with hlen hfull hmax
  · obtain rfl := Except.ok.inj he
    exact le_rfl
  · obtain rfl := Except.ok.inj he
    simp only [store, compacted]
    omega
  · obtain rfl := Except.ok.inj he
    exact le_rfl

/-- Appending several values adds their bytes at the back, or throws because `max_size` leaves
no room for them. -/
theorem appendInts_cases (hv : b.Valid) (o : ByteOrder) (xs : List IntValue) :
    (∃ b', b.appendInts o xs = .ok b' ∧ b'.Valid ∧ b'.content = b.content ++ bytesOf xs) ∨
      (b.appendInts o xs = .error .lengthError ∧
        maxSize < b.writerIndex_ + (bytesOf xs).length) := by
  induction xs generalizing b with
  | nil => exact .inl ⟨b, rfl, hv, (List.append_nil _).symm⟩
  | cons x xs ih =>
    have hbytes : bytesOf (x :: xs) = x.bytes ++ bytesOf xs := List.flatMap_cons ..
    have hno : b.NoOverflow x.bytes.length := by
      refine noOverflow_of_le hv ?_
      rw [IntValue.length_bytes]
      cases x.width <;> decide
    rw [appendInts, appendInt_eq, hbytes, List.length_append]
    rcases append_cases hv hno with ⟨b₁, hb₁, hv₁, hc₁⟩ | ⟨hthrow, hmax⟩
    · have hw₁ := append_writer_le hv hno hb₁
      rw [hb₁, ok_bind]
      rcases ih hv₁ with ⟨b₂, hb₂, hv₂, hc₂⟩ | ⟨hthrow, hmax⟩
      · exact .inl ⟨b₂, hb₂, hv₂, by rw [hc₂, hc₁, List.append_assoc]⟩
      · exact .inr ⟨hthrow, by omega⟩
    · rw [hthrow]
      exact .inr ⟨rfl, by omega⟩

/-- Values whose bytes are readable are read, and exactly their bytes are consumed. -/
theorem readInts_eq (hv : b.Valid) (o : ByteOrder) {xs : List IntValue} {rest : List UInt8}
    (hc : b.content = bytesOf xs ++ rest) :
    ∃ b', b.readInts o (xs.map IntValue.width) = .ok (xs, b') ∧ b'.Valid ∧ b'.content = rest := by
  induction xs generalizing b with
  | nil => exact ⟨b, rfl, hv, hc⟩
  | cons x xs ih =>
    have hfirst : b.content = x.bytes ++ (bytesOf xs ++ rest) := by
      rw [hc, bytesOf, List.flatMap_cons, List.append_assoc]
      rfl
    have hlen : x.width.size ≤ b.content.length := by
      rw [hfirst, List.length_append, IntValue.length_bytes]
      exact Nat.le_add_right _ _
    have htake : b.content.take x.width.size = x.bytes := by
      rw [hfirst, List.take_left' (IntValue.length_bytes x)]
    have hdrop : b.content.drop x.width.size = bytesOf xs ++ rest := by
      rw [hfirst, List.drop_left' (IntValue.length_bytes x)]
    have hpeek : b.peekInt o x.width = .ok x := by
      rw [peekInt_eq hv o hlen, htake, IntValue.decode_bytes]
    obtain ⟨b₁, hb₁⟩ := retrieve_ok hv hlen
    obtain ⟨-, hv₁, hc₁, -⟩ := retrieve_spec hv hb₁
    obtain ⟨b₂, hb₂, hv₂, hc₂⟩ := ih hv₁ (hc₁.trans hdrop)
    refine ⟨b₂, ?_, hv₂, hc₂⟩
    rw [List.map_cons, readInts, readInt_eq o x.width hpeek hb₁]
    simp only [ok_bind, hb₂]
    rfl

/-! ## Both directions -/

/-- A value put in front is read back, and the content before it is restored. -/
theorem prependInt_readInt (hv : b.Valid) (o : ByteOrder) (x : IntValue)
    (h : x.width.size ≤ b.prependableBytes) :
    ∃ b₁ b₂, b.prependInt o x = .ok b₁ ∧ b₁.content = x.bytes ++ b.content ∧
      b₁.readInt o x.width = .ok (x, b₂) ∧ b₂.content = b.content := by
  have hroom : x.bytes.length ≤ b.readerIndex_ := by
    rw [IntValue.length_bytes]
    exact h
  obtain ⟨b₁, hb₁, hv₁, hc₁⟩ := prepend_spec hv hroom
  have hlen : x.width.size ≤ b₁.content.length := by
    rw [hc₁, List.length_append, IntValue.length_bytes]
    exact Nat.le_add_right _ _
  have hpeek : b₁.peekInt o x.width = .ok x := by
    rw [peekInt_eq hv₁ o hlen, hc₁, List.take_left' (IntValue.length_bytes x),
      IntValue.decode_bytes]
  obtain ⟨b₂, hb₂⟩ := retrieve_ok hv₁ hlen
  obtain ⟨-, -, hc₂, -⟩ := retrieve_spec hv₁ hb₂
  refine ⟨b₁, b₂, ?_, hc₁, readInt_eq o x.width hpeek hb₂, ?_⟩
  · rw [prependInt_eq, hb₁]
  · rw [hc₂, hc₁, List.drop_left' (IntValue.length_bytes x)]

/-- On any valid buffer and any host, appended integers are their big-endian bytes at the back,
and once the older content is retrieved reading gives the list and consumes these bytes; whatever
follows the bytes is left; an integer put in front is read back; and values read from any bytes
are appended as these bytes. -/
theorem integers_round_trip (o : ByteOrder) (b : Buffer) (hv : b.Valid) :
    (∀ xs : List IntValue,
      (∃ b', b.appendInts o xs = .ok b' ∧ b'.content = b.content ++ bytesOf xs ∧
        ∃ b₁, b'.retrieve b.content.length = .ok b₁ ∧ b₁.content = bytesOf xs ∧
          ∃ b₂, b₁.readInts o (xs.map IntValue.width) = .ok (xs, b₂) ∧ b₂.content = []) ∨
      (b.appendInts o xs = .error .lengthError ∧
        maxSize < b.writerIndex_ + (bytesOf xs).length)) ∧
    (∀ (xs : List IntValue) (rest : List UInt8), b.content = bytesOf xs ++ rest →
      ∃ b', b.readInts o (xs.map IntValue.width) = .ok (xs, b') ∧ b'.content = rest) ∧
    (∀ x : IntValue, x.width.size ≤ b.prependableBytes →
      ∃ b₁ b₂, b.prependInt o x = .ok b₁ ∧ b₁.content = x.bytes ++ b.content ∧
        b₁.readInt o x.width = .ok (x, b₂) ∧ b₂.content = b.content) ∧
    ∀ ws : List Width, sizeOf ws ≤ b.content.length →
      ∃ xs b₁, b.readInts o ws = .ok (xs, b₁) ∧ xs.map IntValue.width = ws ∧
        b₁.content = b.content.drop (sizeOf ws) ∧
        ∀ c c' : Buffer, c.Valid → c.appendInts o xs = .ok c' →
          c'.content = c.content ++ b.content.take (sizeOf ws) := by
  refine ⟨fun xs => ?_, fun xs rest hc => ?_, prependInt_readInt hv o, fun ws hlen => ?_⟩
  · rcases appendInts_cases hv o xs with ⟨b', hb', hv', hc'⟩ | hthrow
    · have hlen : b.content.length ≤ b'.content.length := by
        rw [hc', List.length_append]
        exact Nat.le_add_right _ _
      obtain ⟨b₁, hb₁⟩ := retrieve_ok hv' hlen
      obtain ⟨-, hv₁, hc₁, -⟩ := retrieve_spec hv' hb₁
      have hbytes : b₁.content = bytesOf xs := by
        rw [hc₁, hc', List.drop_left]
      obtain ⟨b₂, hb₂, -, hc₂⟩ := readInts_eq hv₁ o (hbytes.trans (List.append_nil _).symm)
      exact .inl ⟨b', hb', hc', b₁, hb₁, hbytes, b₂, hb₂, hc₂⟩
    · exact .inr hthrow
  · obtain ⟨b', hb', -, hc'⟩ := readInts_eq hv o hc
    exact ⟨b', hb', hc'⟩
  · have hbytes := bytesOf_decodeAll ws hlen
    have hc : b.content = bytesOf (decodeAll ws b.content) ++ b.content.drop (sizeOf ws) := by
      rw [hbytes, List.take_append_drop]
    obtain ⟨b₁, hb₁, -, hc₁⟩ := readInts_eq hv o hc
    rw [map_width_decodeAll] at hb₁
    refine ⟨_, b₁, hb₁, map_width_decodeAll ws _, hc₁, fun c c' hvc hcall => ?_⟩
    rcases appendInts_cases hvc o (decodeAll ws b.content) with ⟨c₁, hok, -, hcc⟩ | ⟨hthrow, -⟩
    · obtain rfl := Except.ok.inj (hok.symm.trans hcall)
      rw [hcc, hbytes]
    · rw [hthrow] at hcall
      cases hcall

/-- A buffer with the readable bytes 255 and 254: `-2` put in front of them is read back, and
they are the bytes of the value `-2` of 16 bits. -/
theorem integers_round_trip_minus_two :
    (∃ b₁ b₂, prependInt .little ⟨[0, 0, 0, 0, 0, 0, 0, 0, 255, 254], 8, 10⟩ (.int32 (-2)) =
        .ok b₁ ∧ b₁.readInt .little .int32 = .ok (.int32 (-2), b₂) ∧
        b₂.content = [255, 254]) ∧
      ∃ b₁, readInts .little ⟨[0, 0, 0, 0, 0, 0, 0, 0, 255, 254], 8, 10⟩ [.int16] =
        .ok ([.int16 (-2)], b₁) := by
  have hv : Valid ⟨[0, 0, 0, 0, 0, 0, 0, 0, 255, 254], 8, 10⟩ :=
    ⟨by decide, by decide, by decide, by decide⟩
  obtain ⟨-, hread, hprepend, -⟩ := integers_round_trip .little _ hv
  obtain ⟨b₁, b₂, hb₁, -, hb₂, hc₂⟩ := hprepend (.int32 (-2)) (by decide)
  obtain ⟨b₃, hb₃, -⟩ := hread [.int16 (-2)] [] (by decide)
  exact ⟨⟨b₁, b₂, hb₁, hb₂, hc₂⟩, b₃, hb₃⟩

end Buffer

end LibNetToy
