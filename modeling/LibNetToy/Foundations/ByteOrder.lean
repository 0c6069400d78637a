import Mathlib.Tactic

/-!
# Byte orders

The memory image of an unsigned integer of `k` bytes on a little-endian or big-endian
host, and the conversion between the byte order of the host and the network.  The two
facts the rest of the development uses are `image_hton` (storing a converted value writes
its big-endian bytes, whatever the host) and `ntoh_load` (converting a loaded value reads
the big-endian value of the bytes), together with the round trips of the big-endian
encoding itself.
-/

namespace LibNetToy

/-- The byte order of a host. -/
inductive ByteOrder
  | little
  | big
  deriving DecidableEq, Repr

namespace ByteOrder

/-- The `k` lowest base-256 digits of `v`, lowest first. -/
def leBytes : Nat → Nat → List UInt8
  | 0, _ => []
  | k + 1, v => UInt8.ofNat v :: leBytes k (v / 256)

/-- The value of base-256 digits, lowest first. -/
def ofLeBytes : List UInt8 → Nat
  | [] => 0
  | b :: bs => b.toNat + 256 * ofLeBytes bs

/-- The `k` lowest base-256 digits of `v`, highest first. -/
def beBytes (k v : Nat) : List UInt8 :=
  (leBytes k v).reverse

/-- The value of base-256 digits, highest first. -/
def ofBeBytes (bs : List UInt8) : Nat :=
  ofLeBytes bs.reverse

/-- The bytes of an unsigned `k`-byte variable holding `v`, in the order of addresses. -/
def image (o : ByteOrder) (k v : Nat) : List UInt8 :=
  match o with
  | .little => leBytes k v
  | .big => beBytes k v

/-- The value of an unsigned variable whose bytes are `bs`, in the order of addresses. -/
def load (o : ByteOrder) (bs : List UInt8) : Nat :=
  match o with
  | .little => ofLeBytes bs
  | .big => ofBeBytes bs

/-- The value with the `k` bytes of `v` in the opposite order. -/
def byteSwap (k v : Nat) : Nat :=
  ofLeBytes (beBytes k v)

/-- Conversion of a `k`-byte value from the byte order of the host to the one of the
network. -/
def hton (o : ByteOrder) (k v : Nat) : Nat :=
  match o with
  | .little => byteSwap k v
  | .big => v

/-- Conversion of a `k`-byte value from the byte order of the network to the one of the
host. -/
def ntoh (o : ByteOrder) (k v : Nat) : Nat :=
  match o with
  | .little => byteSwap k v
  | .big => v

/-! ## Round trips of the digits -/

@[simp] theorem length_leBytes (k v : Nat) : (leBytes k v).length = k := by
  induction k generalizing v with
  | zero => rfl
  | succ k ih => rw [leBytes, List.length_cons, ih]

@[simp] theorem length_beBytes (k v : Nat) : (beBytes k v).length = k := by
  rw [beBytes, List.length_reverse, length_leBytes]

/-- The value of the lowest `k` digits is the value modulo `256 ^ k`. -/
theorem ofLeBytes_leBytes (k v : Nat) : ofLeBytes (leBytes k v) = v % 256 ^ k := by
  induction k generalizing v with
  | zero => rw [leBytes, ofLeBytes, Nat.pow_zero, Nat.mod_one]
  | succ k ih =>
    have hlow : (UInt8.ofNat v).toNat = v % 256 := UInt8.toNat_ofNat'
    rw [leBytes, ofLeBytes, ih, hlow, Nat.pow_succ, Nat.mul_comm (256 ^ k), Nat.mod_mul]

/-- Digits are recovered from their value. -/
theorem leBytes_ofLeBytes (bs : List UInt8) : leBytes bs.length (ofLeBytes bs) = bs := by
  induction bs with
  | nil => rfl
  | cons b bs ih =>
    have hb : b.toNat < 256 := b.toNat_lt
    have hdiv : (b.toNat + 256 * ofLeBytes bs) / 256 = ofLeBytes bs := by omega
    have hlow : UInt8.ofNat (b.toNat + 256 * ofLeBytes bs) = b := by
      rw [← UInt8.toNat_inj, UInt8.toNat_ofNat']
      omega
    rw [List.length_cons, ofLeBytes, leBytes, hdiv, hlow, ih]

/-- The value of `k` digits is below `256 ^ k`. -/
theorem ofLeBytes_lt (bs : List UInt8) : ofLeBytes bs < 256 ^ bs.length := by
  have h := ofLeBytes_leBytes bs.length (ofLeBytes bs)
  rw [leBytes_ofLeBytes] at h
  rw [h]
  exact Nat.mod_lt _ (Nat.pow_pos (by decide))

theorem ofBeBytes_beBytes (k v : Nat) : ofBeBytes (beBytes k v) = v % 256 ^ k := by
  rw [ofBeBytes, beBytes, List.reverse_reverse, ofLeBytes_leBytes]

theorem beBytes_ofBeBytes (bs : List UInt8) : beBytes bs.length (ofBeBytes bs) = bs := by
  have h := leBytes_ofLeBytes bs.reverse
  rw [List.length_reverse] at h
  rw [beBytes, ofBeBytes, h, List.reverse_reverse]

/-! ## Storing and loading converted values -/

@[simp] theorem length_image (o : ByteOrder) (k v : Nat) : (image o k v).length = k := by
  cases o <;> simp [image]

/-- A converted value is stored as its big-endian bytes on every host. -/
theorem image_hton (o : ByteOrder) (k v : Nat) : image o k (hton o k v) = beBytes k v := by
  cases o with
  | little =>
    have h := leBytes_ofLeBytes (beBytes k v)
    rw [length_beBytes] at h
    exact h
  | big => rfl

/-- Loading and converting reads the big-endian value on every host. -/
theorem ntoh_load (o : ByteOrder) (bs : List UInt8) :
    ntoh o bs.length (load o bs) = ofBeBytes bs := by
  cases o with
  | little =>
    change ofLeBytes (leBytes bs.length (ofLeBytes bs)).reverse = _
    rw [leBytes_ofLeBytes, ofBeBytes]
  | big => rfl

end ByteOrder

end LibNetToy
