import LibNetToy.Base.BufferMoves

/-!
# The size of a buffer under its peak use

`makeSpace` resizes to `writerIndex_ + len`, which counts the bytes already retrieved in front
of the readable ones.  It does so only when the free bytes of both ends fall short of the
request and the reserve, so the retrieved bytes are fewer than the request and the reserve
together.  `sizedMachine` runs any sequence of operations and records the peak: the largest
number of readable and requested bytes at any call of `ensureWritableBytes`, the calls that
throw included.
-/

namespace LibNetToy

namespace Buffer

/-- The readable and the requested bytes at a call of `ensureWritableBytes`. -/
def Effect.demand (b : Buffer) : Effect → Nat
  | .requests len => b.readableBytes + len
  | _ => 0

/-- A buffer and the largest demand so far. -/
structure Sized where
  buffer : Buffer
  peak : Nat
  deriving DecidableEq

/-- One operation; a call that throws leaves the buffer as it was. -/
def sizedStep (o : ByteOrder) (op : Op) (s : Sized) : Except (Halt Fault) Sized :=
  let peak := max s.peak ((op.effect s.buffer).demand s.buffer)
  match op.exec o s.buffer with
  | .ok (_, b') => .ok ⟨b', peak⟩
  | .error .lengthError => .ok ⟨s.buffer, peak⟩
  | .error f => .error (.fault f)

/-- Runs that start with a buffer of the given initial size. -/
def sizedMachine (o : ByteOrder) (initialSize : Nat) : Machine Sized Op Fault where
  init s := ofInitialSize initialSize = .ok s.buffer ∧ s.peak = 0
  step := sizedStep o

/-! ## One operation -/

variable {b b' : Buffer} {e : Effect}

/-- No effect makes the vector smaller. -/
theorem Moves.size_le (hv : b.Valid) (h : Moves b e b') :
    b.buffer_.length ≤ b'.buffer_.length := by
  have hw := hv.writer_le
  cases h with
  | grows hstays hlack hfull hsize hreader => omega
  | fits hstays hsize hreader => exact hsize.ge
  | compacts hmoves hsize hreader => exact hsize.ge
  | advances hlen hsize hreader => exact hsize.ge
  | empties hlen hsize hreader => exact hsize.ge
  | prepends hsize hreader => exact hsize.ge
  | leaves hsize hreader => exact hsize.ge

/-- A vector that grows gets less than twice the demand and the reserve: what was retrieved in
front of the readable bytes is less than the request and the reserve. -/
theorem Moves.size_le_demand (hv : b.Valid) (h : Moves b e b') :
    b'.buffer_.length ≤ max b.buffer_.length (2 * e.demand b + kCheapPrepend) := by
  have hrw := hv.reader_le
  have hw := hv.writer_le
  cases h with
  | @grows len _ hstays hlack hfull hsize hreader =>
    have hdemand : Effect.demand b (.requests len) = b.writerIndex_ - b.readerIndex_ + len := by
      rw [Effect.demand, readableBytes_eq hv]
    rw [hdemand]
    refine le_max_of_le_right ?_
    omega
  | fits hstays hsize hreader => exact le_max_of_le_left hsize.le
  | compacts hmoves hsize hreader => exact le_max_of_le_left hsize.le
  | advances hlen hsize hreader => exact le_max_of_le_left hsize.le
  | empties hlen hsize hreader => exact le_max_of_le_left hsize.le
  | prepends hsize hreader => exact le_max_of_le_left hsize.le
  | leaves hsize hreader => exact le_max_of_le_left hsize.le

/-! ## Runs -/

/-- The invariant of the runs: the bound on the size, for a buffer in good order. -/
structure Sized.Bounded (initialSize : Nat) (s : Sized) : Prop where
  valid : s.buffer.Valid
  size_le : s.buffer.buffer_.length ≤ max (kCheapPrepend + initialSize)
    (2 * s.peak + kCheapPrepend)

/-- The results of a step: the operation ran and had its effect, or it threw. -/
theorem sizedStep_cases (o : ByteOrder) {s s' : Sized} {op : Op} (hv : s.buffer.Valid)
    (hop : op.Admissible s.buffer) (h : sizedStep o op s = .ok s') :
    s'.peak = max s.peak ((op.effect s.buffer).demand s.buffer) ∧ s'.buffer.Valid ∧
      (Moves s.buffer (op.effect s.buffer) s'.buffer ∨ s'.buffer = s.buffer) := by
  unfold sizedStep at h
  rcases Op.refines hv o op hop with ⟨b', hexec, hv', -⟩ | ⟨hthrow, -⟩
  · simp only [hexec] at h
    obtain rfl := Except.ok.inj h
    exact ⟨rfl, hv', .inl (Op.moves hv o hop hexec)⟩
  · simp only [hthrow] at h
    obtain rfl := Except.ok.inj h
    exact ⟨rfl, hv, .inr rfl⟩

/-- One step keeps the bound and never makes the vector smaller. -/
theorem sizedStep_bounded (o : ByteOrder) {n : Nat} {s s' : Sized} {op : Op}
    (hs : s.Bounded n) (hop : op.Admissible s.buffer) (h : sizedStep o op s = .ok s') :
    s'.Bounded n ∧ s.buffer.buffer_.length ≤ s'.buffer.buffer_.length := by
  obtain ⟨hpeak, hv', hmoves⟩ := sizedStep_cases o hs.valid hop h
  have hle := hs.size_le
  have hgrow : s'.buffer.buffer_.length ≤ max s.buffer.buffer_.length
      (2 * (op.effect s.buffer).demand s.buffer + kCheapPrepend) := by
    rcases hmoves with hmoves | hsame
    · exact hmoves.size_le_demand hs.valid
    · rw [hsame]
      exact le_max_left _ _
  have hkeep : s.buffer.buffer_.length ≤ s'.buffer.buffer_.length := by
    rcases hmoves with hmoves | hsame
    · exact hmoves.size_le hs.valid
    · rw [hsame]
  refine ⟨⟨hv', ?_⟩, hkeep⟩
  rw [hpeak]
  omega

/-- In every run from a buffer of any initial size, the vector never holds more than the larger
of its first size and twice the peak with the reserve, and no step makes it smaller. -/
theorem size_le_peak (o : ByteOrder) (initialSize : Nat)
    (hsize : kCheapPrepend + initialSize < 2 ^ 64) (s : Sized)
    (hs : (sizedMachine o initialSize).ReachableUnder (fun s op => op.Admissible s.buffer) s) :
    s.buffer.buffer_.length ≤ max (kCheapPrepend + initialSize) (2 * s.peak + kCheapPrepend) ∧
      ∀ (op : Op) (s' : Sized), op.Admissible s.buffer → sizedStep o op s = .ok s' →
        s.buffer.buffer_.length ≤ s'.buffer.buffer_.length := by
  have hbounded : s.Bounded initialSize := by
    induction hs with
    | @init t hinit =>
      obtain ⟨hb, -⟩ := hinit
      refine ⟨(valid_of_ofInitialSize hsize hb).1, le_max_of_le_left ?_⟩
      rw [ofInitialSize_eq hsize] at hb
      split_ifs at hb
      obtain h := Except.ok.inj hb
      rw [← h, List.length_replicate]
    | step _ hop hstep ih => exact (sizedStep_bounded o ih hop hstep).1
  exact ⟨hbounded.size_le, fun op s' hop hstep => (sizedStep_bounded o hbounded hop hstep).2⟩

/-- A buffer of initial size 4 grows to 18 bytes for ten; the next six are met by moving the
readable bytes to the front. -/
theorem size_le_peak_eighteen : ∃ s : Sized,
    (sizedMachine .little 4).ReachableUnder (fun s op => op.Admissible s.buffer) s ∧
      s.buffer.buffer_.length = 18 ∧ s.peak = 10 ∧
      s.buffer.buffer_.length ≤ max (kCheapPrepend + 4) (2 * s.peak + kCheapPrepend) := by
  have hinit : (sizedMachine .little 4).init ⟨⟨List.replicate 12 0, 8, 8⟩, 0⟩ :=
    ⟨by decide, rfl⟩
  have hrun : ((sizedMachine .little 4).run (fun s op => op.Admissible s.buffer)
      [.append (List.replicate 10 1), .retrieve 7, .append (List.replicate 6 2)]
      ⟨⟨List.replicate 12 0, 8, 8⟩, 0⟩).map (fun s => (s.buffer.buffer_.length, s.peak)) =
      .ok (18, 10) := by decide +kernel
  obtain ⟨s, hs, hobs⟩ := Machine.exists_of_run hinit hrun
  exact ⟨s, hs, congrArg Prod.fst hobs, congrArg Prod.snd hobs,
    (size_le_peak .little 4 (by decide) s hs).1⟩

end Buffer

end LibNetToy
