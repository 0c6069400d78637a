import LibNetToy.Base.Buffer

/-!
# Requests for space

The constructor and `ensureWritableBytes` add sizes that the caller chooses, and `size_t`
wraps.  A request has to throw and leave the object alone, or to end with the room it asked
for, counted in natural numbers.  The functions of `Buffer` return the object after the
call; here `makeSpace` and `ensureWritableBytes` are written once more as statements on the
object, so that the object a throwing call leaves behind is part of the result.

`spaceRequests_iff` says for which sizes the requests are right: exactly for those whose
sums stay below `2 ^ 64`.  Beyond, an assertion fails, or `resize` gets a wrapped size that
lies below `writerIndex_`, and the closing assertion holds by wrapping once more.
-/

namespace LibNetToy

namespace Buffer

/-! ## The statements -/

/-- A member function: it returns or fails, and leaves the object as its statements did. -/
abbrev Member (α : Type) := ExceptT Fault (StateM Buffer) α

/-- A call on other objects, which leaves this one alone. -/
def Member.lift {α : Type} (x : Except Fault α) : Member α :=
  ExceptT.mk (pure x)

/-- The statements of `makeSpace`. -/
def makeSpaceInPlace (len : Nat) : Member Unit := do
  let b ← get
  if SizeT.add b.writableBytes b.prependableBytes < SizeT.add len kCheapPrepend then
    let v ← Member.lift (vectorResize b.buffer_ (SizeT.add b.writerIndex_ len))
    modify fun b => { b with buffer_ := v }
  else
    Member.lift (check (kCheapPrepend < b.readerIndex_) .makeSpaceReader)
    let readable := b.readableBytes
    modify fun b => { b with
      buffer_ := Memory.copyForward b.buffer_ b.readerIndex_ kCheapPrepend
        (b.writerIndex_ - b.readerIndex_) }
    modify fun b => { b with readerIndex_ := kCheapPrepend }
    modify fun b => { b with writerIndex_ := SizeT.add b.readerIndex_ readable }
    let b' ← get
    Member.lift (check (readable = b'.readableBytes) .makeSpaceReadable)

/-- The statements of `ensureWritableBytes`. -/
def ensureWritableBytesInPlace (len : Nat) : Member Unit := do
  let b ← get
  if b.writableBytes < len then
    makeSpaceInPlace len
  let b' ← get
  Member.lift (check (len ≤ b'.writableBytes) .ensureWritableBytes)

namespace Member

variable {α β : Type} {b : Buffer}

/-- How a member function ends, and the object after it. -/
def outcome (m : Member α) (b : Buffer) : Except Fault α × Buffer :=
  m.run.run b

@[simp] theorem outcome_get_bind (f : Buffer → Member β) :
    outcome (get >>= f) b = outcome (f b) b := rfl

@[simp] theorem outcome_modify (g : Buffer → Buffer) :
    outcome (modify g) b = (.ok (), g b) := rfl

@[simp] theorem outcome_modify_bind (g : Buffer → Buffer) (f : Unit → Member β) :
    outcome (modify g >>= f) b = outcome (f ()) (g b) := rfl

@[simp] theorem outcome_lift (x : Except Fault α) : outcome (lift x) b = (x, b) := rfl

/-- What follows a part that returned runs on the object the part left. -/
theorem outcome_bind_of_ok {m : Member α} {b' : Buffer} {a : α}
    (h : outcome m b = (.ok a, b')) (f : α → Member β) :
    outcome (m >>= f) b = outcome (f a) b' := by
  have hrun : m.run.run b = (.ok a, b') := h
  unfold outcome
  rw [ExceptT.run_bind, StateT.run_bind, hrun]
  rfl

/-- Nothing follows a part that failed. -/
theorem outcome_bind_of_error {m : Member α} {b' : Buffer} {e : Fault}
    (h : outcome m b = (.error e, b')) (f : α → Member β) :
    outcome (m >>= f) b = (.error e, b') := by
  have hrun : m.run.run b = (.error e, b') := h
  unfold outcome
  rw [ExceptT.run_bind, StateT.run_bind, hrun]
  rfl

end Member

/-- The outcome of a call on `old` agrees with the result of the function that returns the
object: the call ends in the same way, with the same object when it returns and with the old
one when it throws. -/
def Agrees (old : Buffer) (x : Except Fault Unit × Buffer) (r : Except Fault Buffer) : Prop :=
  (∃ b', r = .ok b' ∧ x = (.ok (), b')) ∨
    ∃ f b', r = .error f ∧ x = (.error f, b') ∧ (f = .lengthError → b' = old)

/-- `makeSpace` throws before its first assignment. -/
theorem makeSpaceInPlace_agrees (b : Buffer) (len : Nat) :
    Agrees b ((makeSpaceInPlace len).outcome b) (b.makeSpace len) := by
  unfold Agrees makeSpace makeSpaceInPlace
  simp only [Member.outcome_get_bind]
  split_ifs with hfull
  · cases hv : vectorResize b.buffer_ (SizeT.add b.writerIndex_ len) with
    | ok v =>
      refine .inl ⟨_, rfl, ?_⟩
      rw [Member.outcome_bind_of_ok (Member.outcome_lift _), Member.outcome_modify]
    | error f => exact .inr ⟨f, b, rfl, Member.outcome_bind_of_error (Member.outcome_lift _) _,
        fun _ => rfl⟩
  · by_cases hr : kCheapPrepend < b.readerIndex_
    · rw [check_of hr, ok_bind, Member.outcome_bind_of_ok (Member.outcome_lift _)]
      simp only [Member.outcome_modify_bind, Member.outcome_get_bind, Member.outcome_lift]
      by_cases hread : b.readableBytes = readableBytes
          { buffer_ := Memory.copyForward b.buffer_ b.readerIndex_ kCheapPrepend
              (b.writerIndex_ - b.readerIndex_)
            readerIndex_ := kCheapPrepend
            writerIndex_ := SizeT.add kCheapPrepend b.readableBytes }
      · rw [check_of hread]
        exact .inl ⟨_, rfl, rfl⟩
      · rw [check, if_neg hread]
        refine .inr ⟨_, _, rfl, rfl, ?_⟩
        rintro ⟨⟩
    · rw [check, if_neg hr]
      exact .inr ⟨_, b, rfl, Member.outcome_bind_of_error (Member.outcome_lift _) _,
        fun _ => rfl⟩

/-- The closing assertion of `ensureWritableBytes`. -/
theorem closing_agrees (old b : Buffer) (len : Nat) :
    Agrees old (check (len ≤ b.writableBytes) .ensureWritableBytes, b) (do
      check (len ≤ b.writableBytes) .ensureWritableBytes
      pure b) := by
  unfold Agrees
  by_cases h : len ≤ b.writableBytes
  · rw [check_of h]
    exact .inl ⟨b, rfl, rfl⟩
  · rw [check, if_neg h]
    refine .inr ⟨_, b, rfl, rfl, ?_⟩
    rintro ⟨⟩

/-- The two forms of `ensureWritableBytes` agree. -/
theorem ensureWritableBytesInPlace_agrees (b : Buffer) (len : Nat) :
    Agrees b ((ensureWritableBytesInPlace len).outcome b) (b.ensureWritableBytes len) := by
  unfold ensureWritableBytesInPlace ensureWritableBytes
  simp only [Member.outcome_get_bind]
  split_ifs with hlen
  · rcases makeSpaceInPlace_agrees b len with ⟨b', hb', hm⟩ | ⟨f, b', hb', hm, hf⟩
    · rw [hb', ok_bind, Member.outcome_bind_of_ok hm]
      exact closing_agrees b b' len
    · rw [hb', Member.outcome_bind_of_error hm]
      exact .inr ⟨f, b', rfl, rfl, hf⟩
  · exact closing_agrees b b len

/-! ## What a request has to do -/

/-- The indices are in order, the readable bytes are `c`, and `len` bytes are writable,
counted in natural numbers. -/
structure RoomFor (b : Buffer) (c : List UInt8) (len : Nat) : Prop where
  reader_le : b.readerIndex_ ≤ b.writerIndex_
  writer_le : b.writerIndex_ ≤ b.buffer_.length
  content : b.content = c
  room : len ≤ b.buffer_.length - b.writerIndex_

/-- The constructor throws, or ends with an empty buffer and the room it was asked for. -/
def ConstructsRoom (initialSize : Nat) : Prop :=
  ofInitialSize initialSize = .error .lengthError ∨
    ∃ b, ofInitialSize initialSize = .ok b ∧ b.RoomFor [] initialSize

/-- `ensureWritableBytes(len)` throws and leaves the buffer exactly as it was, or ends with
the same readable bytes and the room it was asked for. -/
def EnsuresRoom (b : Buffer) (len : Nat) : Prop :=
  (ensureWritableBytesInPlace len).outcome b = (.error .lengthError, b) ∨
    ∃ b', (ensureWritableBytesInPlace len).outcome b = (.ok (), b') ∧ b'.RoomFor b.content len

/-! ## Requests whose sums do not wrap -/

theorem constructsRoom_of_lt {n : Nat} (hn : kCheapPrepend + n < 2 ^ 64) : ConstructsRoom n := by
  unfold ConstructsRoom
  cases h : ofInitialSize n with
  | ok b =>
    obtain ⟨hv, hc⟩ := valid_of_ofInitialSize hn h
    rw [ofInitialSize_eq hn] at h
    split_ifs at h
    obtain rfl := Except.ok.inj h
    refine .inr ⟨_, rfl, hv.reader_le, hv.writer_le, hc, ?_⟩
    rw [List.length_replicate, Nat.add_sub_cancel_left]
  | error f =>
    rw [ofInitialSize_eq hn] at h
    split_ifs at h
    exact .inl h.symm

theorem ensuresRoom_of_noOverflow {b : Buffer} (hv : b.Valid) {len : Nat}
    (hno : b.NoOverflow len) : b.EnsuresRoom len := by
  rcases ensureWritableBytesInPlace_agrees b len with ⟨b', hb', hm⟩ | ⟨f, b', hb', hm, hf⟩
  · obtain ⟨hv', hc', hroom⟩ := ensureWritableBytes_spec hv hno hb'
    exact .inr ⟨b', hm, hv'.reader_le, hv'.writer_le, hc', hroom⟩
  · obtain ⟨rfl, -⟩ := ensureWritableBytes_error hv hno hb'
    obtain rfl := hf rfl
    exact .inl hm

/-! ## Requests that wrap -/

/-- A wrapped size is less than the reserve: the indices of the new buffer lie beyond its
vector, and all assertions of the constructor hold. -/
theorem ofInitialSize_of_wrap {n : Nat} (hn : n < 2 ^ 64) (h : 2 ^ 64 ≤ kCheapPrepend + n) :
    ofInitialSize n =
      .ok ⟨List.replicate (kCheapPrepend + n - 2 ^ 64) 0, kCheapPrepend, kCheapPrepend⟩ := by
  have hadd : SizeT.add kCheapPrepend n = kCheapPrepend + n - 2 ^ 64 :=
    SizeT.add_of_wrap (by decide) hn h
  have hsmall : ¬ maxSize < kCheapPrepend + n - 2 ^ 64 := by
    unfold maxSize kCheapPrepend
    omega
  have hread : SizeT.sub kCheapPrepend kCheapPrepend = 0 := by decide
  have hwrite : SizeT.sub (kCheapPrepend + n - 2 ^ 64) kCheapPrepend = n := by
    have hlt : kCheapPrepend + n - 2 ^ 64 < kCheapPrepend := by omega
    rw [SizeT.sub_of_wrap hlt (by decide)]
    omega
  unfold ofInitialSize vectorOfSize
  rw [hadd, if_neg hsmall, ok_bind]
  refine check_bind_eq_ok.2 ⟨hread, check_bind_eq_ok.2 ⟨?_, check_bind_eq_ok.2 ⟨rfl, rfl⟩⟩⟩
  rw [writableBytes, List.length_replicate, hwrite]

theorem not_constructsRoom_of_wrap {n : Nat} (hn : n < 2 ^ 64)
    (h : 2 ^ 64 ≤ kCheapPrepend + n) : ¬ ConstructsRoom n := by
  unfold ConstructsRoom
  rw [ofInitialSize_of_wrap hn h]
  rintro (hthrow | ⟨b, hb, hroom⟩)
  · cases hthrow
  · obtain rfl := Except.ok.inj hb
    have hw := hroom.writer_le
    simp only [List.length_replicate, kCheapPrepend] at hw
    omega

/-- A request that wraps either takes the first branch of `makeSpace` and cuts the vector
below `writerIndex_`, or takes the second and fails one of its assertions. -/
theorem ensureWritableBytes_of_wrap {b : Buffer} (hv : b.Valid) {len : Nat}
    (hlen : len < 2 ^ 64) (h : ¬ b.NoOverflow len) :
    (∃ a, b.ensureWritableBytes len = .error (.assertion a)) ∨
      ∃ b', b.ensureWritableBytes len = .ok b' ∧ b'.buffer_.length < b'.writerIndex_ := by
  have hrw := hv.reader_le
  have hw := hv.writer_le
  have hres := hv.reserve
  have hs := hv.size_lt
  have hwb := writableBytes_eq hv
  obtain ⟨hsmall, hover⟩ : b.buffer_.length - b.writerIndex_ < len ∧
      (2 ^ 64 ≤ len + kCheapPrepend ∨ 2 ^ 64 ≤ b.writerIndex_ + len) := by
    unfold NoOverflow at h
    omega
  have hmake : b.ensureWritableBytes len = (do
      let b' ← b.makeSpace len
      check (len ≤ b'.writableBytes) .ensureWritableBytes
      pure b') := by
    unfold ensureWritableBytes
    rw [if_pos (by omega)]
  have hfree := freeBytes_eq hv
  rw [hmake]
  by_cases hfull : SizeT.add b.writableBytes b.prependableBytes < SizeT.add len kCheapPrepend
  · -- the free bytes fall short of the request: the sum that wraps is the new size
    have hsum : 2 ^ 64 ≤ b.writerIndex_ + len := by
      rcases hover with h8 | hsum
      · rw [hfree, SizeT.add_of_wrap hlen (by decide) h8] at hfull
        omega
      · exact hsum
    obtain ⟨v, hv', hsize⟩ := vectorResize_length b.buffer_
      (show b.writerIndex_ + len - 2 ^ 64 ≤ maxSize by unfold maxSize; omega)
    unfold makeSpace
    rw [if_pos hfull, SizeT.add_of_wrap (by omega) hlen hsum, hv', ok_bind]
    by_cases hclose : len ≤ writableBytes { b with buffer_ := v }
    · refine .inr ⟨_, check_bind_eq_ok.2 ⟨hclose, rfl⟩, ?_⟩
      simp only [hsize]
      omega
    · exact .inl ⟨_, check_bind_eq_error.2 (.inl ⟨hclose, rfl⟩)⟩
  · -- the free bytes suffice only for the wrapped sum: moving them makes too little room
    have h8 : 2 ^ 64 ≤ len + kCheapPrepend := by
      by_contra hlt
      rw [hfree, SizeT.add_of_lt (by omega)] at hfull
      omega
    have hsizes : kCheapPrepend < 2 ^ 62 := by decide
    by_cases hr : kCheapPrepend < b.readerIndex_
    · obtain ⟨hvc, -, hsize⟩ := compacted_valid hv hr
      have hsc := hvc.size_lt
      rw [makeSpace_of_enough hv hr (by omega), ok_bind]
      refine .inl ⟨_, check_bind_eq_error.2 (.inl ⟨?_, rfl⟩)⟩
      rw [writableBytes_eq hvc]
      omega
    · unfold makeSpace
      rw [if_neg hfull, check, if_neg hr]
      exact .inl ⟨_, rfl⟩

theorem not_ensuresRoom_of_wrap {b : Buffer} (hv : b.Valid) {len : Nat} (hlen : len < 2 ^ 64)
    (h : ¬ b.NoOverflow len) : ¬ b.EnsuresRoom len := by
  rintro (hthrow | ⟨b₁, hreturn, hroom⟩)
  · rcases ensureWritableBytesInPlace_agrees b len with ⟨b', -, hm⟩ | ⟨f, b', hb', hm, -⟩
    · rw [hm] at hthrow
      cases hthrow
    · have hf : f = .lengthError := Except.error.inj (congrArg Prod.fst (hm.symm.trans hthrow))
      rcases ensureWritableBytes_of_wrap hv hlen h with ⟨a, ha⟩ | ⟨b', hok, -⟩
      · rw [hf, ha] at hb'
        cases hb'
      · rw [hok] at hb'
        cases hb'
  · rcases ensureWritableBytesInPlace_agrees b len with ⟨b', hb', hm⟩ | ⟨f, b', hb', hm, -⟩
    · have hsame : b' = b₁ := congrArg Prod.snd (hm.symm.trans hreturn)
      rcases ensureWritableBytes_of_wrap hv hlen h with ⟨a, ha⟩ | ⟨b₂, hok, hcut⟩
      · rw [ha] at hb'
        cases hb'
      · obtain rfl := Except.ok.inj (hok.symm.trans hb')
        have hw := hroom.writer_le
        rw [← hsame] at hw
        omega
    · rw [hm] at hreturn
      cases hreturn

/-! ## Which requests are right -/

/-- For every size, the constructor and `ensureWritableBytes` do what they are asked for, or
throw and change nothing, exactly when the sums they compute do not wrap. -/
theorem spaceRequests_iff (len : UInt64) :
    (ConstructsRoom len.toNat ↔ kCheapPrepend + len.toNat < 2 ^ 64) ∧
    ∀ b : Buffer, b.Valid →
      (b.EnsuresRoom len.toNat ↔ (b.writableBytes < len.toNat →
        len.toNat + kCheapPrepend < 2 ^ 64 ∧ b.writerIndex_ + len.toNat < 2 ^ 64)) := by
  refine ⟨⟨fun h => ?_, constructsRoom_of_lt⟩, fun b hv =>
    ⟨fun h => ?_, ensuresRoom_of_noOverflow hv⟩⟩
  · by_contra hwrap
    exact not_constructsRoom_of_wrap len.toNat_lt (Nat.le_of_not_lt hwrap) h
  · by_contra hwrap
    exact not_ensuresRoom_of_wrap hv len.toNat_lt hwrap h

/-- A buffer of 16 bytes with 4 readable ones, asked for 5 bytes more. -/
theorem spaceRequests_iff_five :
    EnsuresRoom ⟨List.replicate 16 0, 8, 12⟩ (5 : UInt64).toNat :=
  ((spaceRequests_iff 5).2 ⟨List.replicate 16 0, 8, 12⟩
    ⟨by decide, by decide, by decide, by decide⟩).2 (by decide)

/-- The same buffer asked for `2 ^ 64 - 10` bytes: `resize` gets the size 2, the closing
assertion compares with `2 - 12` and holds, and `writerIndex_` lies beyond the vector. -/
theorem not_spaceRequests :
    ¬ ((∀ initialSize : UInt64, ConstructsRoom initialSize.toNat) ∧
      ∀ (b : Buffer) (len : UInt64), b.Valid → b.EnsuresRoom len.toNat) := by
  rintro ⟨-, h⟩
  have hv : Valid ⟨List.replicate 16 0, 8, 12⟩ := ⟨by decide, by decide, by decide, by decide⟩
  exact not_ensuresRoom_of_wrap hv (by decide) (by decide) (h _ 18446744073709551606 hv)

end Buffer

end LibNetToy
