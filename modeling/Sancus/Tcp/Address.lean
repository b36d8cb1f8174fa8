import Sancus.CModel.CString
import Sancus.CModel.Bytes

namespace Sancus.Tcp

open CModel

/-!
# TCP set-up — socket addresses

Servers and connections are told their address as a string, which a helper for each family turns
into a socket address: an IPv4 or IPv6 address with `inet_pton(3)`, a path by copying it.  The
helpers of a server know ways to write any address, those of a connection do not.

* `Sockaddr` — the three kinds of address, field by field as they lie in memory;
* `InetPton` — what `inet_pton` makes of a string, which is not for us to know;
* `initIpv4` / `initIpv6` / `initLocal` — the helpers;
* `anyIpv4_iff` / `anyIpv6_iff` — the ways to write any address;
* `initLocal_path` — which paths are taken, and that one that is can be read back.
-/

def AF_LOCAL : Int := 1
def AF_INET : Int := 2
def AF_INET6 : Int := 10

/-- `htons`, as the two bytes it makes the port lie in. -/
def htons (port : UInt16) : List UInt8 := (leBytes 2 port.toNat).reverse

/-- A socket address, its fields as they lie in memory. -/
inductive Sockaddr where
  | in4 (sin_port sin_addr : List UInt8)
  | in6 (sin6_port sin6_addr : List UInt8)
  | un (sun_path : List UInt8)
  deriving DecidableEq

def Sockaddr.family : Sockaddr → Int
  | in4 .. => AF_INET
  | in6 .. => AF_INET6
  | un ..  => AF_LOCAL

/-- What `inet_pton` does: it stores an address and returns 1, or returns 0 for a string that is
    none, or -1. -/
inductive Pton where
  | stored (addr : List UInt8)
  | invalid
  | unsupported
  deriving DecidableEq

/-- `inet_pton`, for a family and a string. -/
abbrev InetPton : Type := Int → CString → Pton

def INADDR_ANY : List UInt8 := [0, 0, 0, 0]
def in6addr_any : List UInt8 := List.replicate 16 0

/-- What a helper makes of its string: the address that is set up, or what it returns instead. -/
abbrev Init : Type := Except Int Sockaddr

/-- What `inet_pton` returns is what its caller does. -/
def Pton.init (mk : List UInt8 → Sockaddr) : Pton → Init
  | stored addr => .ok (mk addr)
  | invalid     => .error 0
  | unsupported => .error (-1)

/-! ### The helpers -/

/-- `init_ipv4` of a connection.  Its string is not looked at before `inet_pton` is called. -/
def connInitIpv4 (pton : InetPton) (addr : CString) (port : UInt16) : Init :=
  (pton AF_INET addr).init (.in4 (htons port))

/-- `init_ipv6` of a connection. -/
def connInitIpv6 (pton : InetPton) (addr : CString) (port : UInt16) : Init :=
  (pton AF_INET6 addr).init (.in6 (htons port))

/-- The strings that mean any IPv4 address, besides `NULL`: `""`, `"0"` and `"*"`. -/
def anyIpv4 (addr : CString) : Bool :=
  addr.byte 0 = 0 ∨ ((addr.byte 0 = 48 ∨ addr.byte 0 = 42) ∧ addr.byte 1 = 0)

/-- The strings that mean any IPv6 address, besides `NULL`: `""`, `"*"` and `"::"`. -/
def anyIpv6 (addr : CString) : Bool :=
  addr.byte 0 = 0 ∨ (addr.byte 0 = 42 ∧ addr.byte 1 = 0) ∨
    (addr.byte 0 = 58 ∧ addr.byte 1 = 58 ∧ addr.byte 2 = 0)

/-- `init_ipv4` of a server. -/
def serverInitIpv4 (pton : InetPton) (addr : Option CString) (port : UInt16) : Init :=
  match addr with
  | none      => .ok (.in4 (htons port) INADDR_ANY)
  | some addr =>
    if anyIpv4 addr then .ok (.in4 (htons port) INADDR_ANY)
    else (pton AF_INET addr).init (.in4 (htons port))

/-- `init_ipv6` of a server. -/
def serverInitIpv6 (pton : InetPton) (addr : Option CString) (port : UInt16) : Init :=
  match addr with
  | none      => .ok (.in6 (htons port) in6addr_any)
  | some addr =>
    if anyIpv6 addr then .ok (.in6 (htons port) in6addr_any)
    else (pton AF_INET6 addr).init (.in6 (htons port))

/-- `sizeof(sun->sun_path)`. -/
def SUN_PATH_SIZE : Nat := 108

/-- `memcpy(sun->sun_path, path, n)`, on a field that is zero. -/
def copyPath (path : CString) (n : Nat) : List UInt8 :=
  path.read n ++ List.replicate (SUN_PATH_SIZE - n) 0

/-- `init_local` of either.  `NULL` is the empty path. -/
def initLocal (path : Option CString) : Init :=
  match path with
  | none      => .ok (.un (copyPath .empty 1))
  | some path =>
    let l := path.strlen
    if SUN_PATH_SIZE - 1 < l then .error 0 else .ok (.un (copyPath path (l + 1)))

/-! ### What they take -/

variable {addr : CString}

theorem anyIpv4_iff : anyIpv4 addr = true ↔
    addr.bytes = [] ∨ addr.bytes = [48] ∨ addr.bytes = [42] := by
  have h : ∀ c : UInt8, c ≠ 0 →
      (addr.bytes = [c] ↔ addr.byte 0 = c ∧ addr.byte 1 = 0) := by
    intro c hc
    rw [CString.bytes_eq_iff (by simpa using hc.symm)]
    simp
  rw [h 48 (by decide), h 42 (by decide), CString.bytes_eq_iff (by simp)]
  simp [anyIpv4, or_and_right]

theorem anyIpv6_iff : anyIpv6 addr = true ↔
    addr.bytes = [] ∨ addr.bytes = [42] ∨ addr.bytes = [58, 58] := by
  have hpair : (∀ i, (hi : i < ([58, 58] : List UInt8).length) →
      addr.byte i = ([58, 58] : List UInt8)[i]) ↔ addr.byte 0 = 58 ∧ addr.byte 1 = 58 := by
    constructor
    · intro h
      exact ⟨h 0 (by decide), h 1 (by decide)⟩
    · rintro ⟨h0, h1⟩ i hi
      match i, hi with
      | 0, _ => exact h0
      | 1, _ => exact h1
  rw [CString.bytes_eq_iff (by simp), CString.bytes_eq_iff (by simp),
    CString.bytes_eq_iff (by simp),
    hpair]
  simp [anyIpv6, and_assoc]

/-- **Paths.**  A path is taken exactly if it and its NUL fit the field; it can be read back from
    there, and the field is filled. -/
theorem initLocal_path (path : CString) :
    ((∃ sa, initLocal (some path) = .ok sa) ↔ path.strlen < SUN_PATH_SIZE) ∧
      ∀ sun_path, initLocal (some path) = .ok (.un sun_path) →
        sun_path.length = SUN_PATH_SIZE ∧ (CString.ofBytes sun_path).bytes = path.bytes := by
  unfold initLocal
  dsimp only
  by_cases hlong : SUN_PATH_SIZE - 1 < path.strlen
  · rw [if_pos hlong]
    refine ⟨iff_of_false nofun ?_, nofun⟩
    exact fun hlt => absurd hlong (by omega)
  · rw [if_neg hlong]
    have hlt : path.strlen < SUN_PATH_SIZE := by
      have hpos : 0 < SUN_PATH_SIZE := by decide
      omega
    refine ⟨iff_of_true ⟨_, rfl⟩ hlt, ?_⟩
    rintro _ ⟨⟩
    refine ⟨?_, ?_⟩
    · simp only [copyPath, List.length_append, CString.read_length, List.length_replicate]
      omega
    · rw [copyPath, CString.read_succ_strlen, List.append_assoc]
      exact CString.bytes_ofBytes_append path.not_mem_bytes _

end Sancus.Tcp
