import LibNetToy.Net.System

/-!
# The names of the connections of a client

`TcpClient::newConnection` formats the address of the peer and the number of the connection into
a buffer of 32 bytes.  The number comes last, so it is what `snprintf` cuts off.  The 31 bytes
that remain hold a colon, the endpoint, a number sign and the number; a number of an `int` has
up to ten digits, which leaves 19 characters for the endpoint.
-/

namespace LibNetToy

/-- A remote endpoint: the text of its address, as `address().to_string()` gives it for IPv4 and
for IPv6, and its port. -/
structure Endpoint where
  address : List Char
  port : UInt16
  deriving DecidableEq

/-- The address, a colon and the port in decimal. -/
def endPoint2ipPort (listenAddr : Endpoint) : List Char :=
  listenAddr.address ++ [':'] ++ Text.decimal listenAddr.port.toNat

namespace TcpClient

open Process

/-- The largest `int`. -/
def maxId : Int :=
  2 ^ 31 - 1

/-- A call of `newConnection` on a client named `name` whose `nextConnId_` is `i`, for a socket
connected to `peer`, names its connection `connName`. -/
def Names (name : List Char) (peer : Endpoint) (i : Int) (connName : List Char) : Prop :=
  ∃ p q t socket, p.client.name_ = name ∧ p.client.nextConnId_ = i ∧
    newConnection p t socket (endPoint2ipPort peer) = .ok q ∧
      (q.conns p.nextConn).conn.name_ = connName

/-- Connections of different numbers have different names. -/
def NamesUnique (name : List Char) (peer : Endpoint) : Prop :=
  ∀ i j : Int, 1 ≤ i → i ≤ maxId → 1 ≤ j → j ≤ maxId → i ≠ j →
    ∀ m n : List Char, Names name peer i m → Names name peer j n → m ≠ n

/-! ## The text -/

variable {name : List Char} {peer : Endpoint} {i j : Int} {n : List Char}

/-- What the buffer is to hold in front of the number. -/
def nameFront (peer : Endpoint) : List Char :=
  [':'] ++ endPoint2ipPort peer ++ ['#']

/-- The name is cut after 31 characters of the buffer. -/
theorem names_iff : Names name peer i n ↔
    n = name ++ (nameFront peer ++ Text.ofInt i).take 31 := by
  constructor
  · rintro ⟨p, q, t, socket, hname, hid, hcall, rfl⟩
    obtain ⟨-, rfl⟩ := newConnection_eq_ok.1 hcall
    rw [← hname, ← hid]
    show ((Function.update p.conns p.nextConn _) p.nextConn).conn.name_ = _
    rw [Function.update_self]
    rfl
  · intro hn
    let p := initial 0 [] 0 [] [] name false false
    let p' : Process := { p with client := { p.client with nextConnId_ := i } }
    refine ⟨p', _, 0, 0, rfl, rfl, newConnection_eq_ok.2 ⟨⟨rfl, nofun⟩, rfl⟩, ?_⟩
    show ((Function.update p'.conns p'.nextConn _) p'.nextConn).conn.name_ = n
    rw [Function.update_self, hn]
    rfl

/-- The number of a connection has at most ten digits. -/
theorem length_ofInt_le (hi : 1 ≤ i) (hmax : i ≤ maxId) : (Text.ofInt i).length ≤ 10 := by
  unfold maxId at hmax
  rw [Text.ofInt, if_neg (by omega)]
  exact Text.length_decimal_le (by decide) (by omega)

/-- An endpoint of at most 19 characters leaves room for every number. -/
theorem namesUnique_of_le (h : (endPoint2ipPort peer).length ≤ 19) : NamesUnique name peer := by
  have hfront : (nameFront peer).length ≤ 21 := by
    simp only [nameFront, List.length_append, List.length_singleton]
    omega
  intro i j hi himax hj hjmax hne m n hm hn heq
  have hfull : ∀ k, 1 ≤ k → k ≤ maxId →
      (nameFront peer ++ Text.ofInt k).take 31 = nameFront peer ++ Text.ofInt k := by
    intro k hk hkmax
    have hlen := length_ofInt_le hk hkmax
    refine List.take_of_length_le ?_
    rw [List.length_append]
    omega
  rw [names_iff.1 hm, names_iff.1 hn, hfull i hi himax, hfull j hj hjmax] at heq
  have htext := List.append_cancel_left (List.append_cancel_left heq)
  exact hne (Text.ofInt_injOn (by omega) (by omega) htext)

/-- With a longer endpoint the numbers `10 ^ 9` and `10 ^ 9 + 1` give the same name: their last
digit is cut off. -/
theorem names_billion (h : 20 ≤ (endPoint2ipPort peer).length) :
    ∃ n, Names name peer 1000000000 n ∧ Names name peer 1000000001 n := by
  have hfront : 22 ≤ (nameFront peer).length := by
    simp only [nameFront, List.length_append, List.length_singleton]
    omega
  have hdigits : 9 ≤ (Text.decimal 100000000).length :=
    Text.lt_length_decimal (k := 8) (by decide)
  have hzero : Text.ofInt 1000000000 = Text.decimal 100000000 ++ [Text.digitChar 0] :=
    (Text.ofInt_natCast 1000000000).trans (Text.decimal_eq (by decide))
  have hone : Text.ofInt 1000000001 = Text.decimal 100000000 ++ [Text.digitChar 1] :=
    (Text.ofInt_natCast 1000000001).trans (Text.decimal_eq (by decide))
  have hcut : ∀ d, (nameFront peer ++ (Text.decimal 100000000 ++ [d])).take 31 =
      (nameFront peer ++ Text.decimal 100000000).take 31 := by
    intro d
    rw [← List.append_assoc]
    refine List.take_append_of_le_length ?_
    rw [List.length_append]
    omega
  refine ⟨name ++ (nameFront peer ++ Text.decimal 100000000).take 31, names_iff.2 ?_,
    names_iff.2 ?_⟩
  · rw [hzero, hcut]
  · rw [hone, hcut]

/-! ## Which endpoints leave room -/

/-- The names of the connections to an endpoint are unique exactly when its text has at most 19
characters. -/
theorem namesUnique_iff (name : List Char) (peer : Endpoint) :
    NamesUnique name peer ↔ (endPoint2ipPort peer).length ≤ 19 := by
  constructor
  · intro h
    by_contra hlong
    obtain ⟨n, hzero, hone⟩ := @names_billion name peer (by omega)
    exact h 1000000000 1000000001 (by decide) (by decide) (by decide) (by decide) (by decide)
      n n hzero hone rfl
  · exact namesUnique_of_le

/-- The address `2001:db8:85a3:1111:2222:8a2e:370:7334`, port 80. -/
def longEndpoint : Endpoint :=
  ⟨"2001:db8:85a3:1111:2222:8a2e:370:7334".toList, 80⟩

/-- With a full IPv6 address not one digit of the number is left: the first two connections of a
client have the same name. -/
theorem not_namesUnique : ¬ ∀ (name : List Char) (peer : Endpoint), NamesUnique name peer := by
  intro h
  have hsame : (nameFront longEndpoint ++ Text.ofInt 1).take 31 =
      (nameFront longEndpoint ++ Text.ofInt 2).take 31 := by decide +kernel
  exact h [] longEndpoint 1 2 (by decide) (by decide) (by decide) (by decide) (by decide) _ _
    (names_iff.2 rfl) (names_iff.2 rfl) (congrArg ([] ++ ·) hsame)

end TcpClient

end LibNetToy
