import LibNetToy.Base.BufferMoves

/-!
# The room in front of the readable bytes

A new buffer keeps `kCheapPrepend` bytes in front of its content for `prepend`.  Growth leaves
the front where it is, compaction and an emptied buffer put it back to `kCheapPrepend`, from
above or from below, and a retrieval moves it away from the reserve; only `prepend` uses the
reserve up.  `reservedMachine` counts the bytes put in front since the indices were last set
back, next to the buffer and the deque it stands for.  A prepend is allowed there by the count
alone: that its assertion holds is a result.
-/

namespace LibNetToy

namespace Buffer

/-- The number of bytes put in front since the last reset, after an effect. -/
def Effect.count (b : Buffer) (e : Effect) (prepended : Nat) : Nat :=
  if e.resets b then 0 else prepended + e.prepended

/-- A buffer, the deque it stands for, and the number of bytes put in front since the last
reset or compaction of the indices. -/
structure Reserved where
  buffer : Buffer
  list : List UInt8
  prepended : Nat
  deriving DecidableEq

/-- One operation on the buffer and on the deque; a call that throws leaves both alone. -/
def reservedStep (o : ByteOrder) (op : Op) (s : Reserved) : Except (Halt Fault) Reserved :=
  match op.exec o s.buffer with
  | .ok (_, b') => .ok
    { buffer := b'
      list := (op.spec s.buffer.readerIndex_ s.list).2
      prepended := (op.effect s.buffer).count s.buffer s.prepended }
  | .error .lengthError => .ok s
  | .error f => .error (.fault f)

/-- Runs that start with a buffer of the given initial size. -/
def reservedMachine (o : ByteOrder) (initialSize : Nat) : Machine Reserved Op Fault where
  init s := ofInitialSize initialSize = .ok s.buffer ∧ s.list = [] ∧ s.prepended = 0
  step := reservedStep o

/-- The prepends since the last reset total at most the reserve, this one included; the other
operations meet their assertions without overflow. -/
def Op.WithinReserve (s : Reserved) (op : Op) : Prop :=
  match op.effect s.buffer with
  | .prepends len => s.prepended + len ≤ kCheapPrepend
  | _ => op.Admissible s.buffer

instance (s : Reserved) (op : Op) : Decidable (op.WithinReserve s) := by
  unfold Op.WithinReserve
  split <;> infer_instance

/-! ## One operation -/

variable {b b' : Buffer} {e : Effect}

/-- An effect other than a prepend leaves the room in front, or at least the reserve. -/
theorem Moves.prependableBytes_ge (h : Moves b e b') (hfront : e.prepended = 0) :
    min b.prependableBytes kCheapPrepend ≤ b'.prependableBytes := by
  unfold prependableBytes
  cases h with
  | fits hstays hsize hreader => rw [hreader]; exact min_le_left _ _
  | grows hstays hlack hfull hsize hreader => rw [hreader]; exact min_le_left _ _
  | compacts hmoves hsize hreader => rw [hreader]; exact min_le_right _ _
  | advances hlen hsize hreader => rw [hreader]; omega
  | empties hlen hsize hreader => rw [hreader]; exact min_le_right _ _
  | prepends hsize hreader =>
    simp only [Effect.prepended] at hfront
    omega
  | leaves hsize hreader => rw [hreader]; exact min_le_left _ _

theorem Effect.count_of_stays (h : e.resets b = false) (n : Nat) :
    e.count b n = n + e.prepended := by
  simp [count, h]

/-- The room in front and the bytes put there since the last reset hold the reserve. -/
theorem Moves.reserve (h : Moves b e b') {n : Nat} (hn : kCheapPrepend ≤ b.readerIndex_ + n) :
    kCheapPrepend ≤ b'.readerIndex_ + e.count b n := by
  cases h with
  | fits hstays hsize hreader =>
    rw [hreader, Effect.count_of_stays (e := .requests _) hstays]
    exact hn
  | grows hstays hlack hfull hsize hreader =>
    rw [hreader, Effect.count_of_stays (e := .requests _) hstays]
    exact hn
  | compacts hmoves hsize hreader =>
    rw [hreader]
    exact Nat.le_add_right _ _
  | @advances len _ hlen hsize hreader =>
    have hfront : Effect.prepended (.drops len) = 0 := rfl
    rw [hreader, Effect.count_of_stays (by simp [Effect.resets, hlen]), hfront]
    omega
  | empties hlen hsize hreader =>
    rw [hreader]
    exact Nat.le_add_right _ _
  | prepends hsize hreader =>
    rw [Effect.count_of_stays rfl, Effect.prepended]
    omega
  | leaves hsize hreader =>
    rw [hreader, Effect.count_of_stays rfl]
    exact hn

/-! ## Runs -/

/-- The invariant of the runs. -/
structure Reserved.Agrees (s : Reserved) : Prop where
  valid : s.buffer.Valid
  content : s.buffer.content = s.list
  reserve : kCheapPrepend ≤ s.buffer.readerIndex_ + s.prepended

/-- Within the reserve the assertion of `prepend` holds. -/
theorem Op.WithinReserve.admissible {s : Reserved} {op : Op} (hs : s.Agrees)
    (h : op.WithinReserve s) : op.Admissible s.buffer := by
  have hreserve := hs.reserve
  unfold WithinReserve at h
  cases op with
  | prepend data =>
    have hlen : s.prepended + data.length ≤ kCheapPrepend := h
    show data.length ≤ s.buffer.readerIndex_
    omega
  | prependInt x =>
    have hlen : s.prepended + x.width.size ≤ kCheapPrepend := h
    show x.width.size ≤ s.buffer.readerIndex_
    omega
  | _ => exact h

/-- An operation within the reserve is executed and keeps the invariant. -/
theorem reservedStep_agrees (o : ByteOrder) {s : Reserved} {op : Op} (hs : s.Agrees)
    (hop : op.WithinReserve s) : ∃ s', reservedStep o op s = .ok s' ∧ s'.Agrees := by
  have hadm := hop.admissible hs
  unfold reservedStep
  rcases Op.refines hs.valid o op hadm with ⟨b', hexec, hv', hc'⟩ | ⟨hthrow, -⟩
  · rw [hs.content] at hexec hc'
    simp only [hexec]
    exact ⟨_, rfl, hv', hc', (Op.moves hs.valid o hadm hexec).reserve hs.reserve⟩
  · simp only [hthrow]
    exact ⟨s, rfl, hs⟩

/-- Every operation but a prepend leaves at least the smaller of the room in front and the
reserve.  So in every run in which the prepends since the last reset or compaction total at most
the reserve, no assertion fails, and the readable bytes are those of the deque, with every
prepended byte. -/
theorem reserve_survives (o : ByteOrder) :
    (∀ (b b' : Buffer) (op : Op) (r : Result), b.Valid → op.Admissible b →
      (op.effect b).prepended = 0 → op.exec o b = .ok (r, b') →
      min b.prependableBytes kCheapPrepend ≤ b'.prependableBytes) ∧
    ∀ (initialSize : Nat) (s : Reserved), kCheapPrepend + initialSize < 2 ^ 64 →
      (reservedMachine o initialSize).ReachableUnder (fun s op => op.WithinReserve s) s →
      s.buffer.content = s.list ∧ kCheapPrepend ≤ s.buffer.prependableBytes + s.prepended ∧
        ∀ op : Op, op.WithinReserve s → ∃ s', reservedStep o op s = .ok s' := by
  refine ⟨fun b b' op r hv hop hfront hexec =>
    (Op.moves hv o hop hexec).prependableBytes_ge hfront, fun n s hsize hs => ?_⟩
  have hagree : s.Agrees := by
    induction hs with
    | @init t hinit =>
      obtain ⟨hb, hl, hp⟩ := hinit
      obtain ⟨hv, hc⟩ := valid_of_ofInitialSize hsize hb
      refine ⟨hv, by rw [hc, hl], ?_⟩
      rw [ofInitialSize_eq hsize] at hb
      split_ifs at hb
      obtain h := Except.ok.inj hb
      rw [← h]
      exact Nat.le_add_right _ _
    | step _ hop hstep ih =>
      obtain ⟨t, ht, hagree⟩ := reservedStep_agrees o ih hop
      obtain rfl := Except.ok.inj (ht.symm.trans hstep)
      exact hagree
  refine ⟨hagree.content, hagree.reserve, fun op hop => ?_⟩
  obtain ⟨s', hs', -⟩ := reservedStep_agrees o hagree hop
  exact ⟨s', hs'⟩

/-- A retrieval with 3 bytes of room in front; and a buffer of initial size 4 with 5 bytes in
front of its content: growth keeps them, and after a reset 8 more fit. -/
theorem reserve_survives_thirteen :
    min (prependableBytes ⟨List.replicate 16 0, 3, 5⟩) kCheapPrepend ≤
        prependableBytes ⟨List.replicate 16 0, 4, 5⟩ ∧
      ∃ s : Reserved,
        (reservedMachine .little 4).ReachableUnder (fun s op => op.WithinReserve s) s ∧
          s.list = [1, 2, 3, 4, 5, 6, 7, 8] ∧ s.buffer.content = s.list := by
  have hinit : (reservedMachine .little 4).init ⟨⟨List.replicate 12 0, 8, 8⟩, [], 0⟩ :=
    ⟨by decide, rfl, rfl⟩
  have hrun : ((reservedMachine .little 4).run (fun s op => op.WithinReserve s)
      [.append [9], .prepend [1, 2, 3, 4, 5], .append (List.replicate 9 0), .retrieve 15,
        .prepend [1, 2, 3, 4, 5, 6, 7, 8]]
      ⟨⟨List.replicate 12 0, 8, 8⟩, [], 0⟩).map (fun s => s.list) =
      .ok [1, 2, 3, 4, 5, 6, 7, 8] := by decide +kernel
  obtain ⟨s, hs, hobs⟩ := Machine.exists_of_run hinit hrun
  have hv : Valid ⟨List.replicate 16 0, 3, 5⟩ := ⟨by decide, by decide, by decide, by decide⟩
  exact ⟨(reserve_survives .little).1 _ _ (.retrieve 1) .void hv (by decide) rfl (by decide),
    s, hs, hobs, ((reserve_survives .little).2 4 s (by decide) hs).1⟩

end Buffer

end LibNetToy
