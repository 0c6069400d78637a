import LibNetToy.Base.BufferDeque

/-!
# What an operation does to the indices and to the vector

`BufferDeque` says what the operations of `Buffer` mean for the readable bytes.  Their effect
on the room around these bytes is of four kinds: a request for writable bytes, which may make
space in one of two ways; a retrieval, which moves the front or resets both indices; a prepend,
which uses room in front; and the rest, which leave the front and the vector alone.

`Op.effect` is the kind of an operation and `Moves` lists what an effect can do.  `Op.moves` is
the one case analysis over the operations: the bounds on the size of the vector and on the room
in front follow from `Moves`.
-/

namespace LibNetToy

namespace Buffer

/-- The kinds of effect. -/
inductive Effect
  /-- The operation calls `ensureWritableBytes(len)`. -/
  | requests (len : Nat)
  /-- The operation takes `len` bytes away from the front. -/
  | drops (len : Nat)
  /-- The operation puts `len` bytes in front. -/
  | prepends (len : Nat)
  | leaves
  deriving DecidableEq, Repr

/-- The effect of an operation.  `retrieveAll` drops all there is. -/
def Op.effect (b : Buffer) : Op → Effect
  | .append data => .requests data.length
  | .appendString str => .requests str.length
  | .appendVoid data => .requests data.length
  | .write _ => .leaves
  | .ensureWritableBytes len => .requests len
  | .prepend data => .prepends data.length
  | .retrieve len => .drops len
  | .retrieveUntil last => .drops (last - b.readerIndex_)
  | .retrieveAll => .drops b.readableBytes
  | .retrieveAsString len => .drops len
  | .retrieveAllAsString => .drops b.readableBytes
  | .unwrite _ => .leaves
  | .appendInt x => .requests x.width.size
  | .prependInt x => .prepends x.width.size
  | .peekInt _ => .leaves
  | .readInt w => .drops w.size
  | .retrieveInt w => .drops w.size

/-- `ensureWritableBytes(len)` takes the second branch of `makeSpace`. -/
def compacts (b : Buffer) (len : Nat) : Bool :=
  b.writableBytes < len &&
    !(SizeT.add b.writableBytes b.prependableBytes < SizeT.add len kCheapPrepend)

/-- The effect sets both indices back: the readable bytes are moved to the front, or there
are none left. -/
def Effect.resets (b : Buffer) : Effect → Bool
  | .requests len => b.compacts len
  | .drops len => !(len < b.readableBytes)
  | .prepends _ => false
  | .leaves => false

/-- The number of bytes an effect puts in front. -/
def Effect.prepended : Effect → Nat
  | .prepends len => len
  | _ => 0

/-- What an effect does to `readerIndex_` and to the size of the vector. -/
inductive Moves (b : Buffer) : Effect → Buffer → Prop
  | fits {len : Nat} {b' : Buffer} (hstays : b.compacts len = false)
      (hsize : b'.buffer_.length = b.buffer_.length)
      (hreader : b'.readerIndex_ = b.readerIndex_) : Moves b (.requests len) b'
  | grows {len : Nat} {b' : Buffer} (hstays : b.compacts len = false)
      (hlack : b.buffer_.length - b.writerIndex_ < len)
      (hfull : b.buffer_.length - b.writerIndex_ + b.readerIndex_ < len + kCheapPrepend)
      (hsize : b'.buffer_.length = b.writerIndex_ + len)
      (hreader : b'.readerIndex_ = b.readerIndex_) : Moves b (.requests len) b'
  | compacts {len : Nat} {b' : Buffer} (hmoves : b.compacts len = true)
      (hsize : b'.buffer_.length = b.buffer_.length)
      (hreader : b'.readerIndex_ = kCheapPrepend) : Moves b (.requests len) b'
  | advances {len : Nat} {b' : Buffer} (hlen : len < b.readableBytes)
      (hsize : b'.buffer_.length = b.buffer_.length)
      (hreader : b'.readerIndex_ = b.readerIndex_ + len) : Moves b (.drops len) b'
  | empties {len : Nat} {b' : Buffer} (hlen : b.readableBytes ≤ len)
      (hsize : b'.buffer_.length = b.buffer_.length)
      (hreader : b'.readerIndex_ = kCheapPrepend) : Moves b (.drops len) b'
  | prepends {len : Nat} {b' : Buffer} (hsize : b'.buffer_.length = b.buffer_.length)
      (hreader : b'.readerIndex_ + len = b.readerIndex_) : Moves b (.prepends len) b'
  | leaves {b' : Buffer} (hsize : b'.buffer_.length = b.buffer_.length)
      (hreader : b'.readerIndex_ = b.readerIndex_) : Moves b .leaves b'

variable {b b' : Buffer}

/-! ## Requests -/

theorem compacts_iff (hv : b.Valid) {len : Nat} (hno : b.NoOverflow len) :
    b.compacts len = true ↔ b.buffer_.length - b.writerIndex_ < len ∧
      len + kCheapPrepend ≤ b.buffer_.length - b.writerIndex_ + b.readerIndex_ := by
  have hno' := hno
  unfold NoOverflow at hno'
  rw [writableBytes_eq hv] at hno'
  unfold compacts
  rw [freeBytes_eq hv, writableBytes_eq hv]
  simp only [Bool.and_eq_true, Bool.not_eq_true', decide_eq_true_eq, decide_eq_false_iff_not]
  constructor
  · rintro ⟨hlen, henough⟩
    rw [SizeT.add_of_lt (hno' hlen).1] at henough
    exact ⟨hlen, by omega⟩
  · rintro ⟨hlen, henough⟩
    rw [SizeT.add_of_lt (hno' hlen).1]
    exact ⟨hlen, by omega⟩

/-- The three ways a request for writable bytes is met. -/
theorem ensureWritableBytes_moves (hv : b.Valid) {len : Nat} (hno : b.NoOverflow len)
    (h : b.ensureWritableBytes len = .ok b') : Moves b (.requests len) b' := by
  have hw := hv.writer_le
  have hiff := compacts_iff hv hno
  rw [ensureWritableBytes_eq hv hno] at h
  split_ifs at h with hlen hfull hmax
  · have hstays : b.compacts len = false := Bool.eq_false_iff.2 fun hc => by
      have henough := (hiff.1 hc).2
      omega
    obtain rfl := Except.ok.inj h
    exact .grows hstays hlen hfull (grown_valid hv len (by omega) (by omega)).2.2 rfl
  · obtain rfl := Except.ok.inj h
    exact .compacts (hiff.2 ⟨hlen, by omega⟩) (compacted_valid hv (by omega)).2.2 rfl
  · have hstays : b.compacts len = false :=
      Bool.eq_false_iff.2 fun hc => hlen (hiff.1 hc).1
    obtain rfl := Except.ok.inj h
    exact .fits hstays rfl rfl

/-- Bytes counted by `hasWritten` change neither the front nor the size of the vector. -/
theorem store_hasWritten_same (hv : b.Valid) {data : List UInt8}
    (hroom : data.length ≤ b.buffer_.length - b.writerIndex_)
    (h : (b.store b.writerIndex_ data).hasWritten data.length = .ok b') :
    b'.buffer_.length = b.buffer_.length ∧ b'.readerIndex_ = b.readerIndex_ := by
  have hw := hv.writer_le
  have hfit : b.writerIndex_ + data.length ≤ b.buffer_.length := by omega
  have hsize : (b.store b.writerIndex_ data).buffer_.length = b.buffer_.length :=
    Memory.length_overwrite hfit
  rw [hasWritten_eq (store_valid hv le_rfl hfit).1 (by rw [hsize]; exact hroom)] at h
  obtain rfl := Except.ok.inj h
  exact ⟨hsize, rfl⟩

/-- What follows a request for room keeps the effect of the request. -/
theorem Moves.trans_same {b₁ : Buffer} {len : Nat} (h : Moves b (.requests len) b₁)
    (hsize : b'.buffer_.length = b₁.buffer_.length)
    (hreader : b'.readerIndex_ = b₁.readerIndex_) : Moves b (.requests len) b' := by
  cases h with
  | fits hstays hs hr => exact .fits hstays (hsize.trans hs) (hreader.trans hr)
  | grows hstays hlack hfull hs hr =>
    exact .grows hstays hlack hfull (hsize.trans hs) (hreader.trans hr)
  | compacts hmoves hs hr => exact .compacts hmoves (hsize.trans hs) (hreader.trans hr)

theorem append_moves (hv : b.Valid) {data : List UInt8} (hno : b.NoOverflow data.length)
    (h : b.append data = .ok b') : Moves b (.requests data.length) b' := by
  obtain ⟨b₁, he, hwrite⟩ := bind_eq_ok.1 h
  obtain ⟨hv₁, -, hroom⟩ := ensureWritableBytes_spec hv hno he
  obtain ⟨hsize, hreader⟩ := store_hasWritten_same hv₁ hroom hwrite
  exact (ensureWritableBytes_moves hv hno he).trans_same hsize hreader

/-! ## Retrievals and prepends -/

theorem retrieve_moves (hv : b.Valid) {len : Nat} (h : b.retrieve len = .ok b') :
    Moves b (.drops len) b' := by
  have hlen := (retrieve_spec hv h).1
  rw [length_content hv] at hlen
  rw [retrieve_eq hv hlen] at h
  split_ifs at h with hlt
  · obtain rfl := Except.ok.inj h
    exact .advances (by rw [readableBytes_eq hv]; exact hlt) rfl rfl
  · obtain rfl := Except.ok.inj h
    exact .empties (by rw [readableBytes_eq hv]; omega) rfl rfl

theorem retrieveAsString_moves (hv : b.Valid) {len : Nat} {s : List UInt8}
    (h : b.retrieveAsString len = .ok (s, b')) : Moves b (.drops len) b' := by
  obtain ⟨-, hrest⟩ := check_bind_eq_ok.1 h
  obtain ⟨b₁, hb₁, hpair⟩ := bind_eq_ok.1 hrest
  obtain rfl := congrArg Prod.snd (pure_eq_ok.1 hpair)
  exact retrieve_moves hv hb₁

theorem prepend_moves (hv : b.Valid) {data : List UInt8} (h : b.prepend data = .ok b') :
    Moves b (.prepends data.length) b' := by
  have hrw := hv.reader_le
  have hw := hv.writer_le
  have hs := hv.size_lt
  obtain ⟨hlen, hrest⟩ := check_bind_eq_ok.1 h
  have hsub : SizeT.sub b.readerIndex_ data.length = b.readerIndex_ - data.length :=
    SizeT.sub_of_le hlen (by omega)
  have hlen' : data.length ≤ b.readerIndex_ := hlen
  rw [hsub] at hrest
  obtain rfl := pure_eq_ok.1 hrest
  refine .prepends (Memory.length_overwrite (by omega)) ?_
  simp only
  omega

/-! ## All operations -/

/-- A call that returns nothing leaves the buffer of its member function. -/
theorem void_eq_ok {x : Except Fault Buffer} {r : Result}
    (h : (do pure (.void, ← x)) = Except.ok (r, b')) : x = .ok b' := by
  obtain ⟨b₁, hx, hpair⟩ := bind_eq_ok.1 h
  have hb : b' = b₁ := congrArg Prod.snd (pure_eq_ok.1 hpair)
  rw [hx, hb]

/-- A call that returns a string leaves the buffer of its member function. -/
theorem string_eq_ok {x : Except Fault (List UInt8 × Buffer)} {r : Result}
    (h : (do
      let (s, b') ← x
      pure (.string s, b')) = Except.ok (r, b')) : ∃ s, x = .ok (s, b') := by
  obtain ⟨⟨s, b₁⟩, hx, hpair⟩ := bind_eq_ok.1 h
  have hb : b' = b₁ := congrArg Prod.snd (pure_eq_ok.1 hpair)
  exact ⟨s, by rw [hx, hb]⟩

/-- Every operation that returns on a valid buffer has its effect. -/
theorem Op.moves (hv : b.Valid) (o : ByteOrder) {op : Op} {r : Result}
    (hop : op.Admissible b) (h : op.exec o b = .ok (r, b')) : Moves b (op.effect b) b' := by
  have hread := readableBytes_eq_length hv
  cases op with
  | append data => exact append_moves hv hop (void_eq_ok h)
  | appendString str => exact append_moves hv hop (void_eq_ok h)
  | appendVoid data => exact append_moves hv hop (void_eq_ok h)
  | write data =>
    have hroom : data.length ≤ b.buffer_.length - b.writerIndex_ := by
      rw [← writableBytes_eq hv]
      exact hop
    obtain ⟨hsize, hreader⟩ := store_hasWritten_same hv hroom (void_eq_ok h)
    exact .leaves hsize hreader
  | ensureWritableBytes len => exact ensureWritableBytes_moves hv hop (void_eq_ok h)
  | prepend data => exact prepend_moves hv (void_eq_ok h)
  | retrieve len => exact retrieve_moves hv (void_eq_ok h)
  | retrieveUntil last =>
    obtain ⟨hr, hw⟩ := hop
    have hcall := void_eq_ok h
    rw [retrieveUntil_eq hv hr hw] at hcall
    exact retrieve_moves hv hcall
  | retrieveAll =>
    obtain rfl := congrArg Prod.snd (pure_eq_ok.1 h)
    exact .empties le_rfl rfl rfl
  | retrieveAsString len =>
    obtain ⟨s, hcall⟩ := string_eq_ok h
    exact retrieveAsString_moves hv hcall
  | retrieveAllAsString =>
    obtain ⟨s, hcall⟩ := string_eq_ok h
    exact retrieveAsString_moves hv hcall
  | unwrite len =>
    obtain ⟨-, hrest⟩ := check_bind_eq_ok.1 (void_eq_ok h)
    obtain rfl := pure_eq_ok.1 hrest
    exact .leaves rfl rfl
  | appendInt x =>
    have hcall := void_eq_ok h
    rw [appendInt_eq] at hcall
    rw [Op.effect, ← IntValue.length_bytes]
    exact append_moves hv (by rw [IntValue.length_bytes]; exact hop) hcall
  | prependInt x =>
    have hcall := void_eq_ok h
    rw [prependInt_eq] at hcall
    rw [Op.effect, ← IntValue.length_bytes]
    exact prepend_moves hv hcall
  | peekInt w =>
    obtain ⟨x, -, hpair⟩ := bind_eq_ok.1 h
    obtain rfl := congrArg Prod.snd (pure_eq_ok.1 hpair)
    exact .leaves rfl rfl
  | readInt w =>
    have hw : w.size ≤ b.content.length := hread ▸ hop
    obtain ⟨b₁, hb₁⟩ := retrieve_ok hv hw
    rw [Op.exec, readInt_eq o w (peekInt_eq hv o hw) hb₁] at h
    obtain rfl := congrArg Prod.snd (Except.ok.inj h)
    exact retrieve_moves hv hb₁
  | retrieveInt w => exact retrieve_moves hv (void_eq_ok h)

end Buffer

end LibNetToy
