import LibNetToy.Base.SpaceRequests
import LibNetToy.Foundations.Splitting

/-!
# Lines taken out of a buffer

A reader of lines appends what it receives and, whenever it likes, looks for a pair `"\r\n"` with
`findCRLF`, takes the bytes before it with `retrieveAsString` and drops the pair with `retrieve`.
What it gets is the split of the whole input at its successive leftmost pairs: chunks may end
between the two bytes of a pair, bytes of earlier contents may follow the readable ones in the
vector, and the indices may be moved, reset or left by growth at any point in between.

`lines_iff` says that this holds for every input, every division of it and every placement of the
attempts exactly for the initial sizes whose sum with the reserve does not wrap: a buffer built
with a wrapped size has both indices beyond its vector, and the first byte is copied outside.
-/

namespace LibNetToy

namespace Buffer

open Splitting

/-! ## The functions -/

/-- `"\r\n"`. -/
def kCRLF : List UInt8 :=
  [13, 10]

/-- `findCRLF()` with the index of its pointer; `std::search` returns the end when it finds
nothing. -/
def findCRLF (b : Buffer) : Option Nat :=
  let crlf := search b.buffer_ kCRLF b.readerIndex_ b.writerIndex_
  if crlf = b.writerIndex_ then none else some crlf

/-- `append(data, len)` with the copy confined to the vector: writing a byte outside has no
defined behaviour. -/
def appendWithin (b : Buffer) (data : List UInt8) : Except Fault Buffer := do
  let b' ← b.ensureWritableBytes data.length
  if data ≠ [] ∧ b'.buffer_.length < b'.writerIndex_ + data.length then
    .error .outOfRange
  else
    (b'.store b'.writerIndex_ data).hasWritten data.length

/-- A line: its bytes, the index after its pair, and `writerIndex_` when it was found. -/
structure Line where
  bytes : List UInt8
  pairEnd : Nat
  writer : Nat
  deriving DecidableEq, Repr

/-- One attempt: `p = findCRLF()`, and when `p` is not `NULL`, `retrieveAsString(p - peek())`
and `retrieve(2)`. -/
def extractLine (b : Buffer) : Except Fault (Option Line × Buffer) :=
  match b.findCRLF with
  | none => pure (none, b)
  | some p => do
    let (bytes, b₁) ← b.retrieveAsString (SizeT.sub p b.readerIndex_)
    let b₂ ← b₁.retrieve 2
    pure (some ⟨bytes, p + 2, b.writerIndex_⟩, b₂)

/-- What a reader of lines does. -/
inductive ReaderCommand
  | append (chunk : StdString)
  | extract
  deriving DecidableEq

/-- A buffer and the lines taken out of it. -/
structure LineReader where
  buffer : Buffer
  lines : List Line
  deriving DecidableEq

/-- One attempt of the reader. -/
def LineReader.extract (r : LineReader) : Except Fault LineReader := do
  let (line, b) ← r.buffer.extractLine
  pure ⟨b, r.lines ++ line.toList⟩

/-- One command of the reader. -/
def LineReader.exec (r : LineReader) : ReaderCommand → Except Fault LineReader
  | .append chunk => do
    let b ← r.buffer.appendWithin chunk.bytes
    pure ⟨b, r.lines⟩
  | .extract => r.extract

/-- The commands one after the other. -/
def LineReader.execAll (r : LineReader) : List ReaderCommand → Except Fault LineReader
  | [] => pure r
  | cmd :: cmds => do
    let r' ← r.exec cmd
    r'.execAll cmds

/-- At most `n` attempts, until `findCRLF()` returns `NULL`. -/
def LineReader.drain (r : LineReader) : Nat → Except Fault LineReader
  | 0 => pure r
  | n + 1 =>
    match r.buffer.findCRLF with
    | none => pure r
    | some _ => do
      let r' ← r.extract
      r'.drain n

/-- A reader with a new buffer executes the commands and then takes out all lines that are
left; every attempt takes bytes away. -/
def readLines (initialSize : Nat) (cmds : List ReaderCommand) : Except Fault LineReader := do
  let b ← ofInitialSize initialSize
  let r ← LineReader.execAll ⟨b, []⟩ cmds
  r.drain r.buffer.readableBytes

/-- The bytes a command appends. -/
def ReaderCommand.bytes : ReaderCommand → List UInt8
  | .append chunk => chunk.bytes
  | .extract => []

/-- The whole input. -/
def inputOf (cmds : List ReaderCommand) : List UInt8 :=
  cmds.flatMap ReaderCommand.bytes

/-- No pair is left, the lines and the remaining bytes are the split of the whole input, and all
pairs lay before `writerIndex_`; or an append or the constructor threw because `max_size` was
exceeded. -/
def ReadsLines (initialSize : Nat) (cmds : List ReaderCommand) : Prop :=
  (∃ r, readLines initialSize cmds = .ok r ∧ r.buffer.findCRLF = none ∧
      (r.lines.map Line.bytes, r.buffer.content) = split kCRLF (inputOf cmds) ∧
      ∀ x ∈ r.lines, x.pairEnd ≤ x.writer) ∨
    (readLines initialSize cmds = .error .lengthError ∧
      (maxSize < kCheapPrepend + initialSize ∨
        maxSize < 2 * (inputOf cmds).length + kCheapPrepend))

/-! ## One attempt -/

variable {b b' : Buffer}

/-- `findCRLF()` finds the first pair of the readable bytes. -/
theorem findCRLF_eq (hv : b.Valid) :
    b.findCRLF = (leftmost kCRLF b.content).map (b.readerIndex_ + ·) := by
  have hlen := length_content hv
  have hrw := hv.reader_le
  unfold findCRLF
  rw [search_eq hv.reader_le hv.writer_le, ← content]
  cases hi : leftmost kCRLF b.content with
  | none => exact if_pos rfl
  | some i =>
    have hle : i + 2 ≤ b.content.length := le_length_of_leftmost hi
    refine if_neg ?_
    simp only
    omega

/-- An attempt takes out the bytes before the first pair and the pair, or changes nothing. -/
theorem extractLine_cases (hv : b.Valid) :
    (leftmost kCRLF b.content = none ∧ b.extractLine = .ok (none, b)) ∨
      ∃ i line b', leftmost kCRLF b.content = some i ∧ b.extractLine = .ok (some line, b') ∧
        line.bytes = b.content.take i ∧ line.pairEnd ≤ line.writer ∧ b'.Valid ∧
        b'.content = b.content.drop (i + kCRLF.length) := by
  have hlen := length_content hv
  have hrw := hv.reader_le
  have hw := hv.writer_le
  have hs := hv.size_lt
  have hfind := findCRLF_eq hv
  cases hi : leftmost kCRLF b.content with
  | none =>
    rw [hi] at hfind
    refine .inl ⟨rfl, ?_⟩
    unfold extractLine
    rw [hfind]
    rfl
  | some i =>
    rw [hi] at hfind
    have hle : i + 2 ≤ b.content.length := le_length_of_leftmost hi
    have hsub : SizeT.sub (b.readerIndex_ + i) b.readerIndex_ = i := by
      rw [SizeT.sub_of_le (Nat.le_add_right _ _) (by omega), Nat.add_sub_cancel_left]
    obtain ⟨b₁, hb₁⟩ := retrieve_ok hv (show i ≤ b.content.length by omega)
    obtain ⟨-, hv₁, hc₁, -⟩ := retrieve_spec hv hb₁
    have hpair : 2 ≤ b₁.content.length := by
      rw [hc₁, List.length_drop]
      omega
    obtain ⟨b₂, hb₂⟩ := retrieve_ok hv₁ hpair
    obtain ⟨-, hv₂, hc₂, -⟩ := retrieve_spec hv₁ hb₂
    refine .inr ⟨i, ⟨b.content.take i, b.readerIndex_ + i + 2, b.writerIndex_⟩, b₂, rfl, ?_, rfl,
      ?_, hv₂, ?_⟩
    · unfold extractLine
      rw [hfind]
      simp only [Option.map_some]
      rw [hsub, retrieveAsString_eq hv (by omega) hb₁]
      simp only [ok_bind, hb₂]
      rfl
    · simp only
      omega
    · rw [hc₂, hc₁, List.drop_drop]
      rfl

/-- On a valid buffer the copy of `append` stays inside the vector. -/
theorem appendWithin_eq (hv : b.Valid) {data : List UInt8} (hno : b.NoOverflow data.length) :
    b.appendWithin data = b.append data := by
  unfold appendWithin append
  cases he : b.ensureWritableBytes data.length with
  | error f => rfl
  | ok b₁ =>
    obtain ⟨hv₁, -, hroom⟩ := ensureWritableBytes_spec hv hno he
    have hw₁ := hv₁.writer_le
    rw [ok_bind, ok_bind, if_neg]
    rintro ⟨-, hout⟩
    omega

/-- A request throws only when twice the readable and requested bytes, with the reserve, pass
`max_size`: the bytes retrieved in front are fewer than the request and the reserve. -/
theorem ensureWritableBytes_throws (hv : b.Valid) {len : Nat} {f : Fault}
    (hno : b.NoOverflow len) (h : b.ensureWritableBytes len = .error f) :
    f = .lengthError ∧ maxSize < 2 * (b.content.length + len) + kCheapPrepend := by
  have hlen := length_content hv
  have hrw := hv.reader_le
  have hw := hv.writer_le
  rw [ensureWritableBytes_eq hv hno] at h
  split_ifs at h with hlack hfull hmax
  exact ⟨(Except.error.inj h).symm, by omega⟩

/-- A chunk is added at the back, or the call throws. -/
theorem appendWithin_cases (hv : b.Valid) (chunk : StdString) :
    (∃ b', b.appendWithin chunk.bytes = .ok b' ∧ b'.Valid ∧
        b'.content = b.content ++ chunk.bytes) ∨
      (b.appendWithin chunk.bytes = .error .lengthError ∧
        maxSize < 2 * (b.content.length + chunk.bytes.length) + kCheapPrepend) := by
  have hno := noOverflow_of_le hv chunk.length_le
  rw [appendWithin_eq hv hno]
  rcases append_cases hv hno with hok | ⟨hthrow, -⟩
  · exact .inl hok
  · rcases bind_eq_error.1 hthrow with hspace | ⟨b₁, hb₁, hwrite⟩
    · exact .inr ⟨hthrow, (ensureWritableBytes_throws hv hno hspace).2⟩
    · exact absurd (hasWritten_fault hwrite) (by decide)

/-! ## Runs -/

/-- The lines so far and the split of the readable bytes are the split of the input so far. -/
structure LineReader.Splits (r : LineReader) (input : List UInt8) : Prop where
  valid : r.buffer.Valid
  split_eq : split kCRLF input = (r.lines.map Line.bytes ++ (split kCRLF r.buffer.content).1,
    (split kCRLF r.buffer.content).2)
  inside : ∀ x ∈ r.lines, x.pairEnd ≤ x.writer
  length_le : r.buffer.content.length ≤ input.length

variable {r : LineReader} {input : List UInt8}

/-- What is appended to the buffer is added to the input. -/
theorem LineReader.Splits.append (hr : r.Splits input) {m : List UInt8} (hv : b'.Valid)
    (hc : b'.content = r.buffer.content ++ m) :
    LineReader.Splits ⟨b', r.lines⟩ (input ++ m) := by
  have hpat : kCRLF ≠ [] := by decide
  have hlen := hr.length_le
  refine ⟨hv, ?_, hr.inside, ?_⟩
  · simp only [hc]
    rw [split_append hpat input, split_append hpat r.buffer.content, hr.split_eq,
      List.append_assoc]
  · simp only [hc, List.length_append]
    omega

/-- An attempt keeps the split, and takes bytes away when there is a pair. -/
theorem LineReader.Splits.extract (hr : r.Splits input) : ∃ r', r.extract = .ok r' ∧
    r'.Splits input ∧ (r.buffer.findCRLF ≠ none →
      r'.buffer.content.length < r.buffer.content.length) := by
  have hpat : kCRLF ≠ [] := by decide
  have hfind := findCRLF_eq hr.valid
  unfold LineReader.extract
  rcases extractLine_cases hr.valid with ⟨hnone, hcall⟩ |
    ⟨i, line, b', hi, hcall, hline, hinside, hv', hc'⟩
  · rw [hcall, ok_bind]
    refine ⟨_, rfl, ?_, fun hsome => ?_⟩
    · rw [Option.toList_none, List.append_nil]
      exact hr
    · rw [hfind, hnone] at hsome
      exact absurd rfl hsome
  · have hle : i + 2 ≤ r.buffer.content.length := le_length_of_leftmost hi
    have htwo : kCRLF.length = 2 := rfl
    have hshort : b'.content.length < r.buffer.content.length := by
      rw [hc', List.length_drop]
      omega
    have hlen := hr.length_le
    rw [hcall, ok_bind]
    refine ⟨_, rfl, ⟨hv', ?_, ?_, ?_⟩, fun _ => hshort⟩
    · rw [hr.split_eq, split_of_some hpat hi]
      simp only [hc', hline, Option.toList_some, List.map_append, List.map_cons, List.map_nil,
        List.append_assoc, List.singleton_append]
    · intro x hx
      rcases List.mem_append.1 hx with hx | hx
      · exact hr.inside x hx
      · rw [Option.toList_some, List.mem_singleton] at hx
        rw [hx]
        exact hinside
    · simp only
      omega

/-- The commands keep the split of the input so far, or an append throws. -/
theorem LineReader.Splits.execAll (hr : r.Splits input) (cmds : List ReaderCommand) :
    (∃ r', r.execAll cmds = .ok r' ∧ r'.Splits (input ++ inputOf cmds)) ∨
      (r.execAll cmds = .error .lengthError ∧
        maxSize < 2 * (input ++ inputOf cmds).length + kCheapPrepend) := by
  induction cmds generalizing r input with
  | nil =>
    refine .inl ⟨r, rfl, ?_⟩
    rw [inputOf, List.flatMap_nil, List.append_nil]
    exact hr
  | cons cmd cmds ih =>
    have hinput : input ++ inputOf (cmd :: cmds) = input ++ cmd.bytes ++ inputOf cmds := by
      rw [inputOf, List.flatMap_cons, List.append_assoc]
      rfl
    have hlen := hr.length_le
    rw [hinput, LineReader.execAll]
    cases cmd with
    | append chunk =>
      rcases appendWithin_cases hr.valid chunk with ⟨b', hb', hv', hc'⟩ | ⟨hthrow, hmax⟩
      · rw [LineReader.exec, hb']
        exact ih (hr.append hv' hc')
      · rw [LineReader.exec, hthrow]
        refine .inr ⟨rfl, ?_⟩
        rw [List.length_append, List.length_append]
        simp only [ReaderCommand.bytes]
        omega
    | extract =>
      obtain ⟨r', hr', hsplits, -⟩ := hr.extract
      rw [LineReader.exec, hr', ok_bind]
      have hnil : input ++ ReaderCommand.extract.bytes = input := List.append_nil _
      rw [hnil]
      exact ih hsplits

/-- As many attempts as there are readable bytes leave no pair. -/
theorem LineReader.Splits.drain (hr : r.Splits input) {n : Nat}
    (hn : r.buffer.content.length ≤ n) :
    ∃ r', r.drain n = .ok r' ∧ r'.Splits input ∧ r'.buffer.findCRLF = none := by
  induction n generalizing r with
  | zero =>
    refine ⟨r, rfl, hr, ?_⟩
    have hfind := findCRLF_eq hr.valid
    cases hi : leftmost kCRLF r.buffer.content with
    | none => rw [hfind, hi]; rfl
    | some i =>
      have hle : i + 2 ≤ r.buffer.content.length := le_length_of_leftmost hi
      omega
  | succ n ih =>
    obtain ⟨r', hr', hsplits, hshort⟩ := hr.extract
    unfold LineReader.drain
    cases hfind : r.buffer.findCRLF with
    | none => exact ⟨r, rfl, hr, hfind⟩
    | some p =>
      have hlt := hshort (by rw [hfind]; exact Option.some_ne_none p)
      simp only [hr', ok_bind]
      exact ih hsplits (by omega)

/-- With a size that does not wrap every input is read as its lines. -/
theorem readsLines_of_lt {initialSize : Nat} (hsize : kCheapPrepend + initialSize < 2 ^ 64)
    (cmds : List ReaderCommand) : ReadsLines initialSize cmds := by
  unfold ReadsLines readLines
  cases hb : ofInitialSize initialSize with
  | error f =>
    rw [ofInitialSize_eq hsize] at hb
    split_ifs at hb with hmax
    obtain rfl := Except.error.inj hb
    exact .inr ⟨rfl, .inl hmax⟩
  | ok b =>
    obtain ⟨hv, hc⟩ := valid_of_ofInitialSize hsize hb
    have hnew : LineReader.Splits ⟨b, []⟩ [] :=
      ⟨hv, by simp only [hc]; rfl, List.forall_mem_nil _, by simp only [hc]; exact le_rfl⟩
    rw [ok_bind]
    rcases hnew.execAll cmds with ⟨r, hr, hsplits⟩ | ⟨hthrow, hmax⟩
    · obtain ⟨r', hr', hsplits', hnone⟩ :=
        hsplits.drain (readableBytes_eq_length hsplits.valid).ge
      have hrest : leftmost kCRLF r'.buffer.content = none := by
        have hfind := findCRLF_eq hsplits'.valid
        rw [hnone] at hfind
        exact Option.map_eq_none_iff.1 hfind.symm
      rw [hr, ok_bind]
      refine .inl ⟨r', hr', hnone, ?_, hsplits'.inside⟩
      have heq := hsplits'.split_eq
      rw [split_of_none hrest, List.append_nil, List.nil_append] at heq
      exact heq.symm
    · rw [hthrow]
      exact .inr ⟨rfl, .inr hmax⟩

/-- With fewer bytes than the reserve and both indices after it, a single byte is copied
outside. -/
theorem appendWithin_outside : ∀ k < kCheapPrepend,
    appendWithin ⟨List.replicate k 0, kCheapPrepend, kCheapPrepend⟩ [0] =
      .error .outOfRange := by
  decide +kernel

/-- A buffer built with a wrapped size does not take the first byte. -/
theorem readLines_of_wrap {initialSize : Nat} (hn : initialSize < 2 ^ 64)
    (h : 2 ^ 64 ≤ kCheapPrepend + initialSize) :
    readLines initialSize [.append ⟨[0], by decide⟩] = .error .outOfRange := by
  have hout := appendWithin_outside (kCheapPrepend + initialSize - 2 ^ 64) (by omega)
  unfold readLines
  rw [ofInitialSize_of_wrap hn h, ok_bind, LineReader.execAll, LineReader.exec]
  simp only [hout]
  rfl

/-- Whatever the input, the chunks and the attempts in between, a reader gets the lines of the
whole input, exactly for the initial sizes whose sum with the reserve does not wrap. -/
theorem lines_iff : ∀ initialSize : UInt64,
    (∀ cmds : List ReaderCommand, ReadsLines initialSize.toNat cmds) ↔
      kCheapPrepend + initialSize.toNat < 2 ^ 64 := by
  intro n
  constructor
  · intro hall
    by_contra hwrap
    have hout := readLines_of_wrap n.toNat_lt (Nat.le_of_not_lt hwrap)
    rcases hall [.append ⟨[0], by decide⟩] with ⟨r, hr, -⟩ | ⟨hthrow, -⟩
    · rw [hout] at hr
      cases hr
    · rw [hout] at hthrow
      cases hthrow
  · exact readsLines_of_lt

/-- The size `2 ^ 64 - 8` gives a vector of no bytes and indices at 8. -/
theorem not_readsLines : ¬ ∀ (initialSize : UInt64) (cmds : List ReaderCommand),
    ReadsLines initialSize.toNat cmds := by
  intro h
  have hout := @readLines_of_wrap 18446744073709551608 (by decide) (by decide)
  rcases h 18446744073709551608 [.append ⟨[0], by decide⟩] with ⟨r, hr, -⟩ | ⟨hthrow, -⟩
  · have hcall := hout.symm.trans hr
    cases hcall
  · have hcall := hout.symm.trans hthrow
    cases hcall

-- the pair is cut by the end of a chunk, and the vector grows in between
example : (readLines 4 [.append ⟨[1, 2, 3, 13], by decide⟩, .extract,
    .append ⟨[10, 4, 5], by decide⟩]).map (fun r => (r.lines.map Line.bytes, r.buffer.content)) =
    .ok ([[1, 2, 3]], [4, 5]) := by decide +kernel

end Buffer

end LibNetToy
