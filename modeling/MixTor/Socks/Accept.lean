/-
  MixTor.Socks.Accept

  The SOCKS5 front end (`accept_socks5_connect`, socks.rs): method negotiation, the
  username and password that carry the transport arguments, and the CONNECT request.

  A write to the local Tor succeeds.  The stream is the list of reads it will return;
  what each `read_exact` leaves is what the next one gets, and what the last one leaves
  is tunnelled.
-/

import MixTor.Mux.TruncatedWire
import MixTor.Mux.WireCache
import MixTor.Socks.ClientArgs

namespace MixTor.Socks

open Crypto (Bytes Key StreamRead unread unread_map_bytes)

def socksVersion : UInt8 := 0x05
def noAuth : UInt8 := 0x00
def userpassAuth : UInt8 := 0x02
def userpassVersion : UInt8 := 0x01
def connect : UInt8 := 0x01
def ipv4 : UInt8 := 0x01
def domain : UInt8 := 0x03
def ipv6 : UInt8 := 0x04

/-- Per-connection transport arguments. -/
structure ClientArgs where
  cert : Option Key := none

/-- Kinds of `std::io::Error` that a read ends with. -/
inductive ReadError where
  | unexpectedEof
  | other
  deriving DecidableEq, Repr

inductive SocksError where
  | io (e : ReadError)
  | domainTargetRejected
  | noSupportedAuthMethod
  | unsupportedAddressKind (kind : UInt8)
  | unsupportedCommand (command : UInt8)
  | unsupportedVersion (version : UInt8)
  deriving DecidableEq, Repr

-- ============================================================================
-- Operations on the stream
-- ============================================================================

/-- The stream: reads to come, and what was written. -/
structure TcpStream where
  reads : List StreamRead
  written : List Bytes

/-- An operation on the stream.  `none` is a panic. -/
def StreamOp (α : Type) := TcpStream → Option (Except SocksError α × TcpStream)

namespace StreamOp

/-- Sequencing, with the early return of `?`. -/
def andThen {α β : Type} (x : StreamOp α) (f : α → StreamOp β) : StreamOp β := fun s =>
  match x s with
  | none => none
  | some (.error e, s) => some (.error e, s)
  | some (.ok a, s) => f a s

instance : Monad StreamOp where
  pure a s := some (.ok a, s)
  bind := andThen

def fail {α : Type} (e : SocksError) : StreamOp α := fun s => some (.error e, s)

/-- A computation that may panic. -/
def ofOption {α : Type} (x : Option α) : StreamOp α := fun s => x.map fun a => (.ok a, s)

/-- `read_exact` into a vector of `n` bytes. -/
def readVec (n : Nat) : StreamOp Bytes := fun s =>
  match readExact n [] s.reads with
  | (.full buf, reads) => some (.ok buf, { s with reads })
  | (.unexpectedEof, reads) => some (.error (.io .unexpectedEof), { s with reads })
  | (.ioError, reads) => some (.error (.io .other), { s with reads })

/-- `read_exact` into an array. -/
def readArray (n : Nat) : StreamOp (Vector UInt8 n) := do
  let buf ← readVec n
  return Vector.ofFn fun i => buf.getD i 0

def writeAll (buf : Bytes) : StreamOp Unit := fun s =>
  some (.ok (), { s with written := s.written ++ [buf] })

end StreamOp

open StreamOp

-- ============================================================================
-- The code
-- ============================================================================

/-- RFC 1929 username/password sub-negotiation. -/
def readUserpassArgs : StreamOp ClientArgs := do
  let ver ← readArray 1
  if ver.get 0 ≠ userpassVersion then fail (.unsupportedVersion (ver.get 0))
  else
    let ulen ← readArray 1
    let uname ← readVec (ulen.get 0).toNat
    let plen ← readArray 1
    let passwd ← readVec (plen.get 0).toNat
    writeAll [userpassVersion, 0x00]
    let params := uname ++ passwd
    let cert ← ofOption (extractCert params)
    return { cert }

def negotiate : StreamOp ClientArgs := do
  let header ← readArray 2
  if header.get 0 ≠ socksVersion then fail (.unsupportedVersion (header.get 0))
  else
    let methodCount := (header.get 1).toNat
    if methodCount = 0 then fail .noSupportedAuthMethod
    else
      let methods ← readVec methodCount
      if userpassAuth ∈ methods then
        writeAll [socksVersion, userpassAuth]
        readUserpassArgs
      else if noAuth ∈ methods then
        writeAll [socksVersion, noAuth]
        return {}
      else
        writeAll [socksVersion, 0xff]
        fail .noSupportedAuthMethod

/-- The address of the request, of a given kind. -/
def readIp (kind : UInt8) : StreamOp IpAddr := do
  if kind = ipv4 then
    let octets ← readArray 4
    return .v4 octets
  else if kind = ipv6 then
    let octets ← readArray 16
    return .v6 octets
  else if kind = domain then
    -- the host and the port are drained, then refused
    let len ← readArray 1
    let _ ← readVec ((len.get 0).toNat + 2)
    fail .domainTargetRejected
  else fail (.unsupportedAddressKind kind)

/-- `u16::from_be_bytes`. -/
def fromBeBytes (b : Vector UInt8 2) : UInt16 :=
  UInt16.ofNat ((b.get 0).toNat * 256 + (b.get 1).toNat)

def readConnectTarget : StreamOp SocketAddr := do
  let header ← readArray 4
  if header.get 0 ≠ socksVersion then fail (.unsupportedVersion (header.get 0))
  else if header.get 1 ≠ connect then fail (.unsupportedCommand (header.get 1))
  else
    let ip ← readIp (header.get 3)
    let port ← readArray 2
    return ⟨ip, fromBeBytes port⟩

/-- The reply to a CONNECT that is granted. -/
def successReply : Bytes := [socksVersion, 0x00, 0x00, ipv4, 0, 0, 0, 0, 0, 0]

/-- Accept a SOCKS5 CONNECT from the local Tor. -/
def acceptSocks5Connect : StreamOp (SocketAddr × ClientArgs) := do
  let args ← negotiate
  let target ← readConnectTarget
  writeAll successReply
  return (target, args)

-- ============================================================================
-- The exchange of RFC 1928 and RFC 1929
-- ============================================================================

/-- A vector behind its length in one byte. -/
def prefixed (bytes : Bytes) : Bytes := UInt8.ofNat bytes.length :: bytes

/-- A client's part of the negotiation: the methods it offers and, if username and
    password are among them, these. -/
inductive Negotiation where
  | userpass (methods uname passwd : Bytes) (hmethods : methods.length < 256)
      (hoffer : userpassAuth ∈ methods) (huname : uname.length < 256)
      (hpasswd : passwd.length < 256)
  | bare (methods : Bytes) (hmethods : methods.length < 256) (hno : userpassAuth ∉ methods)
      (hoffer : noAuth ∈ methods)

namespace Negotiation

def encode : Negotiation → Bytes
  | .userpass methods uname passwd .. =>
      socksVersion :: prefixed methods ++ (userpassVersion :: prefixed uname ++ prefixed passwd)
  | .bare methods .. => socksVersion :: prefixed methods

/-- What it is answered. -/
def replies : Negotiation → List Bytes
  | .userpass .. => [[socksVersion, userpassAuth], [userpassVersion, 0x00]]
  | .bare .. => [[socksVersion, noAuth]]

/-- The text of the transport arguments, if one was sent. -/
def params : Negotiation → Option Bytes
  | .userpass _ uname passwd .. => some (uname ++ passwd)
  | .bare .. => none

end Negotiation

/-- A CONNECT request for an address. -/
structure Request where
  reserved : UInt8
  target : SocketAddr

def encodeIp : IpAddr → Bytes
  | .v4 octets => ipv4 :: octets.toList
  | .v6 octets => ipv6 :: octets.toList

def Request.encode (r : Request) : Bytes :=
  [socksVersion, connect, r.reserved] ++ encodeIp r.target.ip
    ++ [UInt8.ofNat (r.target.port.toNat / 256), UInt8.ofNat (r.target.port.toNat % 256)]

-- ============================================================================
-- What an operation does with a stream of bytes
-- ============================================================================

/-- The reads deliver these bytes, in any segmentation, and then the stream ends. -/
def TcpStream.Holds (s : TcpStream) (bytes : Bytes) : Prop :=
  ∃ pieces : List Bytes, (∀ p ∈ pieces, p ≠ []) ∧ s.reads = pieces.map .bytes ∧
    pieces.flatten = bytes

/-- On `bytes` the operation returns `a`, leaves `rest` and writes `w`. -/
def Returns {α : Type} (x : StreamOp α) (bytes : Bytes) (a : α) (rest : Bytes) (w : List Bytes) :
    Prop :=
  ∀ s : TcpStream, s.Holds bytes →
    ∃ s', x s = some (.ok a, s') ∧ s'.Holds rest ∧ s'.written = s.written ++ w

/-- On `bytes` the operation fails, and writes at most `k` bytes. -/
def Fails {α : Type} (x : StreamOp α) (bytes : Bytes) (k : Nat) : Prop :=
  ∀ s : TcpStream, s.Holds bytes →
    ∃ e s' w, x s = some (.error e, s') ∧ s'.written = s.written ++ w ∧ w.flatten.length ≤ k

section Rules

variable {α β : Type} {x : StreamOp α} {f : α → StreamOp β} {bytes mid rest : Bytes} {a : α} {b : β}
  {w w' : List Bytes} {k : Nat}

theorem Returns.bind (hx : Returns x bytes a mid w) (hf : Returns (f a) mid b rest w') :
    Returns (x >>= f) bytes b rest (w ++ w') := by
  intro s hs
  obtain ⟨s', hrun, hs', hw⟩ := hx s hs
  obtain ⟨s'', hrun', hs'', hw'⟩ := hf s' hs'
  refine ⟨s'', ?_, hs'', by rw [hw', hw, List.append_assoc]⟩
  show andThen x f s = _
  rw [andThen, hrun]
  exact hrun'

/-- A step that writes nothing. -/
theorem Returns.read (hx : Returns x bytes a mid []) (hf : Returns (f a) mid b rest w) :
    Returns (x >>= f) bytes b rest w := hx.bind hf

theorem Returns.bind_fails (hx : Returns x bytes a mid w) (hf : Fails (f a) mid k) :
    Fails (x >>= f) bytes (w.flatten.length + k) := by
  intro s hs
  obtain ⟨s', hrun, hs', hw⟩ := hx s hs
  obtain ⟨e, s'', w'', hrun', hw', hlen⟩ := hf s' hs'
  refine ⟨e, s'', w ++ w'', ?_, by rw [hw', hw, List.append_assoc], ?_⟩
  · show andThen x f s = _
    rw [andThen, hrun]
    exact hrun'
  · rw [List.flatten_append, List.length_append]
    exact Nat.add_le_add_left hlen _

theorem Fails.bind (hx : Fails x bytes k) : Fails (x >>= f) bytes k := by
  intro s hs
  obtain ⟨e, s', w, hrun, hw⟩ := hx s hs
  refine ⟨e, s', w, ?_, hw⟩
  show andThen x f s = _
  rw [andThen, hrun]

theorem Fails.mono (hx : Fails x bytes k) {k' : Nat} (hk : k ≤ k') : Fails x bytes k' := by
  intro s hs
  obtain ⟨e, s', w, hrun, hw, hlen⟩ := hx s hs
  exact ⟨e, s', w, hrun, hw, hlen.trans hk⟩

theorem returns_pure (a : α) (bytes : Bytes) : Returns (pure a) bytes a bytes [] :=
  fun s hs => ⟨s, rfl, hs, (List.append_nil s.written).symm⟩

theorem fails_fail (e : SocksError) (bytes : Bytes) (k : Nat) :
    Fails (fail e : StreamOp α) bytes k :=
  fun s _ => ⟨e, s, [], rfl, (List.append_nil s.written).symm, Nat.zero_le k⟩

theorem returns_ofOption {o : Option α} (h : o = some a) (bytes : Bytes) :
    Returns (ofOption o) bytes a bytes [] := by
  subst h
  exact returns_pure a bytes

theorem returns_writeAll (buf bytes : Bytes) : Returns (writeAll buf) bytes () bytes [buf] :=
  fun _ hs => ⟨_, rfl, hs, rfl⟩

/-- A stream that starts with as many bytes gives them up. -/
theorem returns_readVec (buf rest : Bytes) :
    Returns (readVec buf.length) (buf ++ rest) buf rest [] := by
  rintro s ⟨pieces, hne, hreads, hflat⟩
  obtain ⟨left, hleft, hrest, hread⟩ := readExact_full (n := buf.length) [] hne (Nat.zero_le _) (by
    rw [hflat, List.length_append]
    omega)
  rw [hflat] at hrest hread
  rw [List.length_nil, Nat.sub_zero, List.drop_left] at hrest
  rw [List.length_nil, Nat.sub_zero, List.take_left, List.nil_append] at hread
  refine ⟨⟨left.map .bytes, s.written⟩, ?_, ⟨left, hleft, rfl, hrest⟩, (List.append_nil _).symm⟩
  rw [readVec, hreads, hread]

/-- A shorter stream ends unexpectedly. -/
theorem fails_readVec {n : Nat} (h : bytes.length < n) (k : Nat) : Fails (readVec n) bytes k := by
  rintro s ⟨pieces, hne, hreads, hflat⟩
  have hread := readExact_short (n := n) [] hne (by rwa [hflat, List.length_nil, Nat.zero_add])
  refine ⟨.io .unexpectedEof, ⟨[], s.written⟩, [], ?_, (List.append_nil _).symm, Nat.zero_le k⟩
  rw [readVec, hreads, hread]

theorem toArray_toList {n : Nat} (v : Vector UInt8 n) :
    (Vector.ofFn fun i : Fin n => v.toList.getD i 0) = v := by
  ext i hi
  simp

theorem returns_readArray {n : Nat} (v : Vector UInt8 n) (rest : Bytes) :
    Returns (readArray n) (v.toList ++ rest) v rest [] := by
  have hread := returns_readVec v.toList rest
  rw [Vector.length_toList] at hread
  have := hread.bind (f := fun buf => pure (Vector.ofFn fun i : Fin n => buf.getD i 0))
    (returns_pure _ rest)
  rwa [toArray_toList] at this

end Rules

-- ============================================================================
-- Either a stream starts as it should, or the operation fails
-- ============================================================================

/-- Sequencing is associative. -/
theorem bind_assoc {α β γ : Type} (x : StreamOp α) (g : α → StreamOp β) (f : β → StreamOp γ) :
    (x >>= g) >>= f = x >>= fun a => g a >>= f := by
  funext s
  show andThen (andThen x g) f s = andThen x (fun a => andThen (g a) f) s
  unfold andThen
  rcases x s with _ | ⟨_ | _, s'⟩ <;> rfl

section Parse

variable {α β : Type} {P : Prop} {bytes : Bytes} {k : Nat}

theorem parse_readVec {n : Nat} {f : Bytes → StreamOp β}
    (h : ∀ buf rest : Bytes, buf.length = n → bytes = buf ++ rest → P ∨ Fails (f buf) rest k) :
    P ∨ Fails (readVec n >>= f) bytes k := by
  rcases Nat.lt_or_ge bytes.length n with hlt | hle
  · exact .inr (fails_readVec hlt k).bind
  · have hsplit := (List.take_append_drop n bytes).symm
    have hlen : (bytes.take n).length = n := List.length_take_of_le hle
    refine (h _ _ hlen hsplit).imp_right fun hfail => ?_
    have hread := returns_readVec (bytes.take n) (bytes.drop n)
    rw [hlen, ← hsplit] at hread
    have := hread.bind_fails hfail
    rwa [List.flatten_nil, List.length_nil, Nat.zero_add] at this

theorem parse_readArray {n : Nat} {f : Vector UInt8 n → StreamOp β}
    (h : ∀ (v : Vector UInt8 n) rest, bytes = v.toList ++ rest → P ∨ Fails (f v) rest k) :
    P ∨ Fails (readArray n >>= f) bytes k := by
  rw [readArray, bind_assoc]
  refine parse_readVec fun buf rest hlen hbytes => ?_
  have hbuf : buf = (⟨buf.toArray, by simpa using hlen⟩ : Vector UInt8 n).toList := rfl
  rw [hbuf, toArray_toList]
  exact h _ rest hbytes

theorem parse_writeAll {buf : Bytes} {f : Unit → StreamOp β} (h : P ∨ Fails (f ()) bytes k) :
    P ∨ Fails (writeAll buf >>= f) bytes (buf.length + k) := by
  refine h.imp_right fun hfail => ?_
  have := (returns_writeAll buf bytes).bind_fails hfail
  rwa [List.flatten_cons, List.flatten_nil, List.append_nil] at this

end Parse


-- ============================================================================
-- Username and password
-- ============================================================================

theorem toNat_length {bytes : Bytes} (h : bytes.length < 256) :
    (UInt8.ofNat bytes.length).toNat = bytes.length := by
  rw [UInt8.toNat_ofNat', Nat.mod_eq_of_lt h]

/-- The entries of an array, one by one. -/
theorem toList_eq_ofFn {n : Nat} (v : Vector UInt8 n) : v.toList = List.ofFn v.get := by
  apply List.ext_getElem
  · simp
  · intro i hi hi'
    simp [Vector.get]

/-- A vector behind its length is read as one. -/
theorem returns_prefixed {β : Type} {f : Bytes → StreamOp β} {bytes rest left : Bytes}
    (h : bytes.length < 256) {b : β} {w : List Bytes} (hf : Returns (f bytes) rest b left w) :
    Returns (readArray 1 >>= fun len => readVec (len.get 0).toNat >>= f)
      (prefixed bytes ++ rest) b left w := by
  have hvec := returns_readVec bytes rest
  rw [← toNat_length h] at hvec
  have hlen := returns_readArray #v[UInt8.ofNat bytes.length] (bytes ++ rest)
  exact hlen.read (hvec.read hf)

theorem parse_prefixed {β : Type} {P : Prop} {f : Bytes → StreamOp β} {bytes : Bytes} {k : Nat}
    (h : ∀ buf rest : Bytes, buf.length < 256 → bytes = prefixed buf ++ rest →
      P ∨ Fails (f buf) rest k) :
    P ∨ Fails (readArray 1 >>= fun len => readVec (len.get 0).toNat >>= f) bytes k := by
  refine parse_readArray fun len mid hbytes => parse_readVec fun buf rest hlen hmid => ?_
  refine h buf rest (by rw [hlen]; exact (len.get 0).toNat_lt) ?_
  rw [hbytes, hmid, prefixed, hlen, UInt8.ofNat_toNat, toList_eq_ofFn]
  rfl

theorem readUserpassArgs_returns {uname passwd : Bytes} (huname : uname.length < 256)
    (hpasswd : passwd.length < 256) {cert : Option Key}
    (hcert : extractCert (uname ++ passwd) = some cert) (rest : Bytes) :
    Returns readUserpassArgs (userpassVersion :: (prefixed uname ++ (prefixed passwd ++ rest)))
      { cert } rest [[userpassVersion, 0x00]] := by
  unfold readUserpassArgs
  refine (returns_readArray #v[userpassVersion] _).read ?_
  have hver : #v[userpassVersion].get 0 = userpassVersion := rfl
  rw [if_neg (not_not.mpr hver)]
  refine returns_prefixed huname (returns_prefixed hpasswd ?_)
  exact (returns_writeAll _ rest).bind
    ((returns_ofOption hcert rest).read (returns_pure (ClientArgs.mk cert) rest))

theorem parse_readUserpassArgs {P : Prop} {bytes : Bytes}
    (h : ∀ uname passwd rest : Bytes, uname.length < 256 → passwd.length < 256 →
      bytes = userpassVersion :: (prefixed uname ++ (prefixed passwd ++ rest)) → P) :
    P ∨ Fails readUserpassArgs bytes 0 := by
  unfold readUserpassArgs
  refine parse_readArray fun ver mid hbytes => ?_
  by_cases hver : ver.get 0 = userpassVersion
  · rw [if_neg (not_not.mpr hver)]
    refine parse_prefixed fun uname mid' huname hmid => ?_
    refine parse_prefixed fun passwd rest hpasswd hmid' => ?_
    refine .inl (h uname passwd rest huname hpasswd ?_)
    rw [hbytes, hmid, hmid', toList_eq_ofFn, ← hver]
    rfl
  · rw [if_pos hver]
    exact .inr (fails_fail _ mid 0)

-- ============================================================================
-- Methods
-- ============================================================================

/-- The arguments that a negotiation carries, as they are read. -/
def Negotiation.Carries (neg : Negotiation) (args : ClientArgs) : Prop :=
  match neg.params with
  | some params => extractCert params = some args.cert
  | none => args.cert = none

theorem Negotiation.exists_carries (neg : Negotiation) : ∃ args, neg.Carries args := by
  cases neg with
  | userpass _ uname passwd =>
      obtain ⟨cert, hcert⟩ := exists_extractCert (uname ++ passwd)
      exact ⟨⟨cert⟩, hcert⟩
  | bare => exact ⟨{}, rfl⟩

/-- The header and the methods, up to the choice. -/
theorem returns_methods {methods rest left : Bytes} (hmethods : methods.length < 256)
    (hne : methods ≠ []) {choose : Bytes → StreamOp ClientArgs} {args : ClientArgs} {w : List Bytes}
    (h : Returns (choose methods) rest args left w) :
    Returns (do
      let header ← readArray 2
      if header.get 0 ≠ socksVersion then fail (.unsupportedVersion (header.get 0))
      else
        let methodCount := (header.get 1).toNat
        if methodCount = 0 then fail .noSupportedAuthMethod
        else
          let methods ← readVec methodCount
          choose methods) (socksVersion :: (prefixed methods ++ rest)) args left w := by
  refine (returns_readArray #v[socksVersion, UInt8.ofNat methods.length] (methods ++ rest)).read ?_
  have hver : #v[socksVersion, UInt8.ofNat methods.length].get 0 = socksVersion := rfl
  have hcount : (#v[socksVersion, UInt8.ofNat methods.length].get 1).toNat = methods.length :=
    toNat_length hmethods
  rw [if_neg (not_not.mpr hver)]
  dsimp only
  rw [hcount, if_neg (mt List.length_eq_zero_iff.mp hne)]
  exact (returns_readVec methods rest).read h

theorem negotiate_returns {neg : Negotiation} {args : ClientArgs} (hargs : neg.Carries args)
    (rest : Bytes) : Returns negotiate (neg.encode ++ rest) args rest neg.replies := by
  cases neg with
  | userpass methods uname passwd hmethods hoffer huname hpasswd =>
      have hbytes : (Negotiation.userpass methods uname passwd hmethods hoffer huname hpasswd).encode
          ++ rest = socksVersion :: (prefixed methods ++
            (userpassVersion :: (prefixed uname ++ (prefixed passwd ++ rest)))) := by
        simp only [Negotiation.encode, List.cons_append, List.append_assoc]
      rw [hbytes]
      refine returns_methods hmethods (List.ne_nil_of_mem hoffer) ?_
      rw [if_pos hoffer]
      exact (returns_writeAll _ _).bind (readUserpassArgs_returns huname hpasswd hargs rest)
  | bare methods hmethods hno hoffer =>
      have hbytes : (Negotiation.bare methods hmethods hno hoffer).encode ++ rest
          = socksVersion :: (prefixed methods ++ rest) := by
        simp only [Negotiation.encode, List.cons_append]
      have hdefault : args = {} := congrArg ClientArgs.mk hargs
      rw [hbytes, hdefault]
      refine returns_methods hmethods (List.ne_nil_of_mem hoffer) ?_
      rw [if_neg hno, if_pos hoffer]
      exact (returns_writeAll _ _).bind (returns_pure _ rest)

theorem parse_negotiate {P : Prop} {bytes : Bytes}
    (h : ∀ (neg : Negotiation) rest, bytes = neg.encode ++ rest → P) :
    P ∨ Fails negotiate bytes 2 := by
  unfold negotiate
  refine parse_readArray fun header mid hbytes => ?_
  by_cases hver : header.get 0 = socksVersion
  · rw [if_neg (not_not.mpr hver)]
    dsimp only
    by_cases hcount : (header.get 1).toNat = 0
    · rw [if_pos hcount]
      exact .inr (fails_fail _ mid 2)
    · rw [if_neg hcount]
      refine parse_readVec fun methods mid' hlen hmid => ?_
      have hmethods : methods.length < 256 := hlen ▸ (header.get 1).toNat_lt
      have hstart : bytes = socksVersion :: (prefixed methods ++ mid') := by
        rw [hbytes, hmid, prefixed, hlen, UInt8.ofNat_toNat, toList_eq_ofFn, ← hver]
        rfl
      by_cases hoffer : userpassAuth ∈ methods
      · rw [if_pos hoffer]
        refine parse_writeAll (k := 0) (parse_readUserpassArgs fun uname passwd rest hu hp hm => ?_)
        refine h (.userpass methods uname passwd hmethods hoffer hu hp) rest ?_
        rw [hstart, hm]
        simp only [Negotiation.encode, List.cons_append, List.append_assoc]
      · rw [if_neg hoffer]
        by_cases hopen : noAuth ∈ methods
        · rw [if_pos hopen]
          exact .inl (h (.bare methods hmethods hoffer hopen) mid' hstart)
        · rw [if_neg hopen]
          exact parse_writeAll (k := 0) (.inr (fails_fail _ mid' 0))
  · rw [if_pos hver]
    exact .inr (fails_fail _ mid 2)

-- ============================================================================
-- The request
-- ============================================================================

theorem readIp_returns (ip : IpAddr) (rest : Bytes) :
    ∃ kind octets, encodeIp ip = kind :: octets ∧
      Returns (readIp kind) (octets ++ rest) ip rest [] := by
  cases ip with
  | v4 octets =>
      refine ⟨ipv4, octets.toList, rfl, ?_⟩
      rw [readIp, if_pos rfl]
      exact (returns_readArray octets rest).read (returns_pure _ rest)
  | v6 octets =>
      refine ⟨ipv6, octets.toList, rfl, ?_⟩
      rw [readIp, if_neg (by decide), if_pos rfl]
      exact (returns_readArray octets rest).read (returns_pure _ rest)

/-- A domain is drained and refused, an unknown kind refused. -/
theorem parse_readIp {β : Type} {P : Prop} {kind : UInt8} {f : IpAddr → StreamOp β} {bytes : Bytes}
    {k : Nat}
    (h : ∀ ip rest, kind :: bytes = encodeIp ip ++ rest → P ∨ Fails (f ip) rest k) :
    P ∨ Fails (readIp kind >>= f) bytes k := by
  unfold readIp
  by_cases h4 : kind = ipv4
  · rw [if_pos h4, bind_assoc]
    refine parse_readArray fun octets rest hbytes => h (.v4 octets) rest ?_
    rw [hbytes, h4]
    rfl
  · rw [if_neg h4]
    by_cases h6 : kind = ipv6
    · rw [if_pos h6, bind_assoc]
      refine parse_readArray fun octets rest hbytes => h (.v6 octets) rest ?_
      rw [hbytes, h6]
      rfl
    · rw [if_neg h6]
      by_cases hdomain : kind = domain
      · rw [if_pos hdomain, bind_assoc]
        refine parse_readArray fun len mid _ => ?_
        rw [bind_assoc]
        exact parse_readVec fun _ rest _ _ => .inr (fails_fail _ rest k).bind
      · rw [if_neg hdomain]
        exact .inr (fails_fail _ bytes k).bind

/-- A port is its two bytes, the higher one first. -/
theorem fromBeBytes_port (port : UInt16) :
    fromBeBytes #v[UInt8.ofNat (port.toNat / 256), UInt8.ofNat (port.toNat % 256)] = port := by
  have hport := port.toNat_lt
  show UInt16.ofNat ((UInt8.ofNat (port.toNat / 256)).toNat * 256
    + (UInt8.ofNat (port.toNat % 256)).toNat) = port
  rw [UInt8.toNat_ofNat', UInt8.toNat_ofNat', Nat.mod_eq_of_lt (by omega),
    Nat.mod_eq_of_lt (by omega), Nat.div_add_mod', UInt16.ofNat_toNat]

theorem port_fromBeBytes (b : Vector UInt8 2) :
    [UInt8.ofNat ((fromBeBytes b).toNat / 256), UInt8.ofNat ((fromBeBytes b).toNat % 256)]
      = b.toList := by
  have h0 := (b.get 0).toNat_lt
  have h1 := (b.get 1).toNat_lt
  have hvalue : (fromBeBytes b).toNat = (b.get 0).toNat * 256 + (b.get 1).toNat := by
    rw [fromBeBytes, UInt16.toNat_ofNat', Nat.mod_eq_of_lt (by omega)]
  have hdiv : ((b.get 0).toNat * 256 + (b.get 1).toNat) / 256 = (b.get 0).toNat := by omega
  have hmod : ((b.get 0).toNat * 256 + (b.get 1).toNat) % 256 = (b.get 1).toNat := by omega
  rw [hvalue, hdiv, hmod, UInt8.ofNat_toNat, UInt8.ofNat_toNat, toList_eq_ofFn]
  rfl

theorem readConnectTarget_returns (req : Request) (rest : Bytes) :
    Returns readConnectTarget (req.encode ++ rest) req.target rest [] := by
  obtain ⟨reserved, ip, port⟩ := req
  obtain ⟨kind, octets, hip, hread⟩ := readIp_returns ip
    ([UInt8.ofNat (port.toNat / 256), UInt8.ofNat (port.toNat % 256)] ++ rest)
  have hbytes : (Request.mk reserved ⟨ip, port⟩).encode ++ rest
      = #v[socksVersion, connect, reserved, kind].toList ++ (octets ++
        ([UInt8.ofNat (port.toNat / 256), UInt8.ofNat (port.toNat % 256)] ++ rest)) := by
    rw [Request.encode, hip]
    simp
  rw [hbytes]
  unfold readConnectTarget
  refine (returns_readArray _ _).read ?_
  have hver : #v[socksVersion, connect, reserved, kind].get 0 = socksVersion := rfl
  have hcmd : #v[socksVersion, connect, reserved, kind].get 1 = connect := rfl
  rw [if_neg (not_not.mpr hver), if_neg (not_not.mpr hcmd)]
  refine hread.read ?_
  have hport := returns_readArray
    #v[UInt8.ofNat (port.toNat / 256), UInt8.ofNat (port.toNat % 256)] rest
  refine hport.read ?_
  rw [fromBeBytes_port]
  exact returns_pure _ rest

theorem parse_readConnectTarget {P : Prop} {bytes : Bytes}
    (h : ∀ (req : Request) rest, bytes = req.encode ++ rest → P) :
    P ∨ Fails readConnectTarget bytes 0 := by
  unfold readConnectTarget
  refine parse_readArray fun header mid hbytes => ?_
  by_cases hver : header.get 0 = socksVersion
  · rw [if_neg (not_not.mpr hver)]
    by_cases hcmd : header.get 1 = connect
    · rw [if_neg (not_not.mpr hcmd)]
      refine parse_readIp fun ip mid' hmid => parse_readArray fun port rest hmid' => .inl ?_
      refine h ⟨header.get 2, ip, fromBeBytes port⟩ rest ?_
      have hheader : bytes = [socksVersion, connect, header.get 2] ++ (header.get 3 :: mid) := by
        rw [hbytes, toList_eq_ofFn, ← hver, ← hcmd]
        rfl
      rw [hheader, hmid, hmid', Request.encode, port_fromBeBytes]
      simp only [List.append_assoc]
    · rw [if_pos hcmd]
      exact .inr (fails_fail _ mid 0)
  · rw [if_pos hver]
    exact .inr (fails_fail _ mid 0)

-- ============================================================================
-- The whole exchange
-- ============================================================================

theorem accept_returns {neg : Negotiation} {args : ClientArgs} (hargs : neg.Carries args)
    (req : Request) (rest : Bytes) :
    Returns acceptSocks5Connect (neg.encode ++ (req.encode ++ rest)) (req.target, args) rest
      (neg.replies ++ [successReply]) :=
  (negotiate_returns hargs _).bind
    ((readConnectTarget_returns req rest).read
      ((returns_writeAll successReply rest).bind (returns_pure _ rest)))

theorem length_replies_le (neg : Negotiation) : neg.replies.flatten.length ≤ 4 := by
  cases neg with
  | userpass => exact (by decide : 4 ≤ 4)
  | bare => exact (by decide : 2 ≤ 4)

/-- The stream starts with a well-formed exchange, and goes on with `rest`. -/
def Exchange (bytes : Bytes) (neg : Negotiation) (req : Request) (rest : Bytes) : Prop :=
  bytes = neg.encode ++ (req.encode ++ rest)

theorem accept_fails {bytes : Bytes} (h : ¬ ∃ neg req rest, Exchange bytes neg req rest) :
    Fails acceptSocks5Connect bytes 4 := by
  rcases parse_negotiate (P := ∃ neg mid, bytes = Negotiation.encode neg ++ mid)
    (fun neg mid hmid => ⟨neg, mid, hmid⟩) with ⟨neg, mid, rfl⟩ | hfail
  · obtain ⟨args, hargs⟩ := neg.exists_carries
    rcases parse_readConnectTarget (P := ∃ req rest, mid = Request.encode req ++ rest)
      (fun req rest hrest => ⟨req, rest, hrest⟩) with ⟨req, rest, rfl⟩ | hfail
    · exact absurd ⟨neg, req, rest, rfl⟩ h
    · exact ((negotiate_returns hargs mid).bind_fails hfail.bind).mono (length_replies_le neg)
  · exact hfail.bind.mono (by decide)

/-- **The SOCKS5 exchange.** For every byte stream, cut into reads in any way, the front end
    accepts exactly the streams that start with a well-formed exchange.  It returns the
    address and the port of the request and the arguments of the negotiation, leaves the
    bytes behind the request unread, and has written the choice of the method, the reply
    to username and password if there were some, and one reply to the request.  On every
    other stream it returns an error and has not written that reply. -/
theorem acceptSocks5Connect_iff (pieces : List Bytes) (hne : ∀ p ∈ pieces, p ≠ []) :
    (∀ neg req rest, Exchange pieces.flatten neg req rest →
      ∃ args s, neg.Carries args ∧
        acceptSocks5Connect ⟨pieces.map .bytes, []⟩ = some (.ok (req.target, args), s) ∧
        unread s.reads = rest ∧ s.written = neg.replies ++ [successReply]) ∧
    ((¬ ∃ neg req rest, Exchange pieces.flatten neg req rest) →
      ∃ e s, acceptSocks5Connect ⟨pieces.map .bytes, []⟩ = some (.error e, s) ∧
        ¬ successReply <:+: s.written.flatten) := by
  have hstart : TcpStream.Holds ⟨pieces.map .bytes, []⟩ pieces.flatten := ⟨pieces, hne, rfl, rfl⟩
  constructor
  · intro neg req rest hexchange
    obtain ⟨args, hargs⟩ := neg.exists_carries
    obtain ⟨s, hrun, ⟨left, -, hreads, hleft⟩, hwritten⟩ :=
      accept_returns hargs req rest _ (hexchange ▸ hstart)
    exact ⟨args, s, hargs, hrun, by rw [hreads, unread_map_bytes, hleft], hwritten⟩
  · intro hno
    obtain ⟨e, s, w, hrun, hwritten, hlen⟩ := accept_fails hno _ hstart
    refine ⟨e, s, hrun, fun hin => ?_⟩
    have hlong := hin.length_le
    rw [hwritten, List.nil_append] at hlong
    exact absurd (hlong.trans hlen) (by decide)

/-- A client that offers both methods, in two segments, with three bytes of payload behind the
    request. -/
def sampleExchange : List Bytes :=
  [[5, 2, 0, 2, 1, 1], [0x61, 0, 5, 1, 0, 1, 127, 0, 0, 1, 0x23, 0x29, 7, 8, 9]]

theorem acceptSocks5Connect_iff_sample :
    (∀ p ∈ sampleExchange, p ≠ []) ∧
      ∃ args s, acceptSocks5Connect ⟨sampleExchange.map .bytes, []⟩
          = some (.ok (⟨.v4 #v[127, 0, 0, 1], 9001⟩, args), s) ∧
        unread s.reads = [7, 8, 9] ∧ s.written = [[5, 2], [1, 0], successReply] := by
  have hne : ∀ p ∈ sampleExchange, p ≠ [] := by decide
  refine ⟨hne, ?_⟩
  obtain ⟨args, s, -, h⟩ := (acceptSocks5Connect_iff sampleExchange hne).1
    (.userpass [0, 2] [0x61] [] (by decide) (by decide) (by decide) (by decide))
    ⟨0, .v4 #v[127, 0, 0, 1], 9001⟩ [7, 8, 9] rfl
  exact ⟨args, s, h⟩

end MixTor.Socks
