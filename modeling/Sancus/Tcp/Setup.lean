import Sancus.Fd.Setup
import Sancus.Tcp.Address
import Sancus.Tcp.Server

namespace Sancus.Tcp

open CModel
open Fd (Answer Call SockOption SetupCall SetupTrace SetUp Env SetUpSound Fatal Underway Undone
  SOCK_STREAM EINPROGRESS liftCalls closeCalls sancusSocket)

/-!
# TCP set-up — listening and connecting

`sancus_tcp_*_listen` set up a server that listens at an address, `sancus_tcp_*_connect` a
connection to one, which may still be in progress.  Both obtain a socket that does not block,
and close it again when a later call fails.

* `serverInitTcp` / `connInitTcp` — the part after the address;
* `sancusTcpIpv4Listen` … `sancusTcpLocalConnect` — the six functions;
* `tcp_setup_sound` — that all of them are sound.
-/

/-! ### The model -/

/-- The end of a set-up of a server that has failed with `errno`. -/
def serverFailed (env : Env Sockaddr) (fd errno : Nat) (calls : SetupTrace Sockaddr) :
    SetUp SancusTcpServer Sockaddr :=
  ⟨-1, { listening fd with fd := -1 }, some errno, closeCalls env fd calls⟩

/-- The options a server sets, but for a local socket. -/
def serverOptions (fd : Nat) (sa : Sockaddr) (answer : SetupCall Sockaddr → Answer) :
    SetupTrace Sockaddr :=
  if sa.family ≠ AF_LOCAL then
    [SockOption.reuseAddr 1, .keepAlive 1, .linger 0 0].map fun option =>
      (.setsockopt fd option, answer (.setsockopt fd option))
  else []

/-- `init_tcp` of a server from `sancus_ev_fd_init` on, but for the options. -/
def serverBind (env : Env Sockaddr) (fd : Nat) (sa : Sockaddr) (preBind : Bool)
    (backlog : UInt32) (calls : SetupTrace Sockaddr) : SetUp SancusTcpServer Sockaddr :=
  let self := listening fd
  let calls := calls ++ if preBind then [(.preBind fd, env.answer (.preBind fd))] else []
  match env.call (.bind fd sa) calls with
  | (.failed e, calls) => serverFailed env fd e calls
  | (.ok _, calls)     =>
    match env.call (.listen fd backlog.toInt32.toInt) calls with
    | (.failed e, calls) => serverFailed env fd e calls
    | (.ok _, calls)     => ⟨1, self, none, calls⟩

/-- `init_tcp` of a server, `preBind` telling whether the settings have a `pre_bind`, after the
    calls `before`. -/
def serverInitTcp (env : Env Sockaddr) (self : SancusTcpServer) (sa : Sockaddr)
    (cloexec preBind : Bool) (backlog : UInt32) (before : SetupTrace Sockaddr) :
    SetUp SancusTcpServer Sockaddr :=
  let (fd, t) := sancusSocket env.socket sa.family SOCK_STREAM 0 cloexec.toInt 1
  let calls := before ++ liftCalls t
  if fd < 0 then ⟨-1, self, none, calls⟩
  else
    let calls := calls ++ serverOptions fd.toNat sa env.answer
    serverBind env fd.toNat sa preBind backlog calls

/-- `init_tcp` of a connection; it does not touch `last_activity`. -/
def connInitTcp (env : Env Sockaddr) (self : SancusTcpConn) (sa : Sockaddr) (cloexec : Bool) :
    SetUp SancusTcpConn Sockaddr :=
  let (fd, t) := sancusSocket env.socket sa.family SOCK_STREAM 0 cloexec.toInt 1
  let calls := liftCalls t
  if fd < 0 then ⟨-1, self, none, calls⟩
  else
    let fd := fd.toNat
    match env.call (.connect fd sa) calls with
    | (.failed e, calls) =>
      if e = EINPROGRESS then ⟨1, initTcp fd true self.lastActivity e, none, calls⟩
      else ⟨-1, { self with fd := -1, active := false, mask := .readWrite, errno := e }, some e,
        closeCalls env fd calls⟩
    | (.ok _, calls)     => ⟨1, initTcp fd false self.lastActivity self.errno, none, calls⟩

/-- What is made of an address helper that does not return 1. -/
def withAddress {σ : Type} (init : Init) (self : σ) (setup : Sockaddr → SetUp σ Sockaddr) :
    SetUp σ Sockaddr :=
  match init with
  | .error e => ⟨e, self, none, []⟩
  | .ok sa   => setup sa

/-- `sancus_tcp_ipv4_listen`. -/
def sancusTcpIpv4Listen (pton : InetPton) (env : Env Sockaddr) (self : SancusTcpServer)
    (addr : Option CString) (port : UInt16) (cloexec preBind : Bool) (backlog : UInt32) :
    SetUp SancusTcpServer Sockaddr :=
  withAddress (serverInitIpv4 pton addr port) self fun sa =>
    serverInitTcp env self sa cloexec preBind backlog []

/-- `sancus_tcp_ipv6_listen`. -/
def sancusTcpIpv6Listen (pton : InetPton) (env : Env Sockaddr) (self : SancusTcpServer)
    (addr : Option CString) (port : UInt16) (cloexec preBind : Bool) (backlog : UInt32) :
    SetUp SancusTcpServer Sockaddr :=
  withAddress (serverInitIpv6 pton addr port) self fun sa =>
    serverInitTcp env self sa cloexec preBind backlog []

/-- `sancus_tcp_local_listen`, which removes what is at the path first. -/
def sancusTcpLocalListen (env : Env Sockaddr) (self : SancusTcpServer) (path : Option CString)
    (cloexec preBind : Bool) (backlog : UInt32) : SetUp SancusTcpServer Sockaddr :=
  withAddress (initLocal path) self fun sa =>
    serverInitTcp env self sa cloexec preBind backlog
      [(.unlink path, env.answer (.unlink path))]

/-- `sancus_tcp_ipv4_connect`. -/
def sancusTcpIpv4Connect (pton : InetPton) (env : Env Sockaddr) (self : SancusTcpConn)
    (addr : CString) (port : UInt16) (cloexec : Bool) : SetUp SancusTcpConn Sockaddr :=
  withAddress (connInitIpv4 pton addr port) self fun sa => connInitTcp env self sa cloexec

/-- `sancus_tcp_ipv6_connect`. -/
def sancusTcpIpv6Connect (pton : InetPton) (env : Env Sockaddr) (self : SancusTcpConn)
    (addr : CString) (port : UInt16) (cloexec : Bool) : SetUp SancusTcpConn Sockaddr :=
  withAddress (connInitIpv6 pton addr port) self fun sa => connInitTcp env self sa cloexec

/-- `sancus_tcp_local_connect`. -/
def sancusTcpLocalConnect (env : Env Sockaddr) (self : SancusTcpConn) (path : Option CString)
    (cloexec : Bool) : SetUp SancusTcpConn Sockaddr :=
  withAddress (initLocal path) self fun sa => connInitTcp env self sa cloexec

/-! ### The address helpers -/

theorem Pton.init_error {mk : List UInt8 → Sockaddr} {p : Pton} {e : Int}
    (h : p.init mk = .error e) : e ≠ 1 := by
  cases p with
  | stored addr => cases h
  | invalid =>
    obtain rfl := Except.error.inj h
    decide
  | unsupported =>
    obtain rfl := Except.error.inj h
    decide

theorem serverInitIpv4_error {pton : InetPton} {addr : Option CString} {port : UInt16} {e : Int}
    (h : serverInitIpv4 pton addr port = .error e) : e ≠ 1 := by
  cases addr with
  | none => cases h
  | some addr =>
    obtain ⟨_, h⟩ := ite_eq_iff.mp h |>.resolve_left (by rintro ⟨_, ⟨⟩⟩)
    exact Pton.init_error h

theorem serverInitIpv6_error {pton : InetPton} {addr : Option CString} {port : UInt16} {e : Int}
    (h : serverInitIpv6 pton addr port = .error e) : e ≠ 1 := by
  cases addr with
  | none => cases h
  | some addr =>
    obtain ⟨_, h⟩ := ite_eq_iff.mp h |>.resolve_left (by rintro ⟨_, ⟨⟩⟩)
    exact Pton.init_error h

theorem initLocal_error {path : Option CString} {e : Int} (h : initLocal path = .error e) :
    e ≠ 1 := by
  cases path with
  | none => cases h
  | some path =>
    obtain ⟨_, h⟩ := ite_eq_iff.mp h |>.resolve_right (by rintro ⟨_, ⟨⟩⟩)
    obtain rfl := Except.error.inj h
    decide

variable {σ : Type} {field : σ → Int} {env : Env Sockaddr} {sa : Sockaddr}

/-- An address that is none ends the set-up before it begins. -/
theorem withAddress_sound {init : Init} {self : σ} {setup : Sockaddr → SetUp σ Sockaddr}
    (herror : ∀ {e}, init = .error e → e ≠ 1)
    (hsetup : ∀ sa, init = .ok sa → SetUpSound field init (setup sa)) :
    SetUpSound field init (withAddress init self setup) := by
  cases hinit : init with
  | error e => exact Fd.sound_of_no_address (herror hinit) self rfl
  | ok sa =>
    rw [hinit] at hsetup
    exact hsetup sa rfl

/-! ### After the address -/

theorem serverOptions_spec (fd : Nat) (sa : Sockaddr) (answer : SetupCall Sockaddr → Answer) :
    Fd.setupUses (serverOptions fd sa answer) = [] ∧
      (∀ e ∈ serverOptions fd sa answer, ¬ Fatal e) ∧
      (serverOptions fd sa answer).filterMap Fd.addressOf = [] := by
  unfold serverOptions
  split
  · simp [Fd.setupUses, Fd.setupUseOf, Fatal, Fd.addressOf]
  · simp [Fd.setupUses]

theorem serverBind_sound {init : Init} {fd : Nat} {calls : SetupTrace Sockaddr} (preBind : Bool)
    (backlog : UInt32) (h : Underway fd [] calls) (hinit : init = .ok sa) :
    SetUpSound SancusTcpServer.fd init (serverBind env fd sa preBind backlog calls) := by
  have hpre : Underway fd [] (calls ++
      if preBind then [(.preBind fd, env.answer (.preBind fd))] else []) := by
    cases preBind with
    | false => simpa using h
    | true => exact h.call (.preBind fd) _ rfl id
  unfold serverBind Env.call
  dsimp only
  cases hbind : env.answer (.bind fd sa) with
  | failed e => exact (hpre.close env (.bind fd sa) (.failed e) rfl trivial).sound rfl hinit
  | ok n =>
    have hbound := hpre.call (.bind fd sa) (.ok n) rfl id
    dsimp only
    cases hlisten : env.answer (.listen fd backlog.toInt32.toInt) with
    | failed e =>
      have hclosed := hbound.close env (.listen fd backlog.toInt32.toInt) (.failed e) rfl trivial
      exact hclosed.sound rfl hinit
    | ok m =>
      have hlistens := hbound.call (.listen fd backlog.toInt32.toInt) (.ok m) rfl id
      exact Underway.sound hlistens rfl rfl hinit

theorem serverInitTcp_sound {init : Init} {self : SancusTcpServer} {cloexec preBind : Bool}
    {backlog : UInt32} {before : SetupTrace Sockaddr}
    (hinit : init = .ok sa) (huses : Fd.setupUses before = [])
    (hgoing : ∀ e ∈ before, ¬ Fatal e) (haddr : before.filterMap Fd.addressOf = []) :
    SetUpSound SancusTcpServer.fd init
      (serverInitTcp env self sa cloexec preBind backlog before) := by
  unfold serverInitTcp
  rcases Fd.setup_socket env.socket sa.family SOCK_STREAM 0
    (.inr (one_ne_zero (α := Int))) before huses hgoing haddr with
    ⟨fd, t, hsocket, hunder⟩ | ⟨t, hsocket, hundone⟩
  · rw [hsocket]
    dsimp only
    rw [if_neg (by omega), Int.toNat_natCast]
    obtain ⟨huses', hgoing', haddr'⟩ := serverOptions_spec fd sa env.answer
    have hoptions := hunder.append huses' hgoing'
    rw [haddr'] at hoptions
    exact serverBind_sound preBind backlog hoptions hinit
  · rw [hsocket]
    dsimp only
    rw [if_pos (by decide)]
    exact hundone.sound rfl hinit

theorem connInitTcp_sound {init : Init} {self : SancusTcpConn} {cloexec : Bool}
    (hinit : init = .ok sa) :
    SetUpSound SancusTcpConn.fd init (connInitTcp env self sa cloexec) := by
  unfold connInitTcp
  rcases Fd.setup_socket env.socket sa.family SOCK_STREAM 0
    (.inr (one_ne_zero (α := Int))) ([] : SetupTrace Sockaddr) rfl nofun rfl with
    ⟨fd, t, hsocket, hunder⟩ | ⟨t, hsocket, hundone⟩
  · rw [hsocket]
    dsimp only [Env.call]
    rw [if_neg (by omega), Int.toNat_natCast]
    cases hconnect : env.answer (.connect fd sa) with
    | ok n =>
      have hconnected := hunder.call (.connect fd sa) (.ok n) rfl id
      exact Underway.sound hconnected rfl rfl hinit
    | failed e =>
      dsimp only
      by_cases he : e = EINPROGRESS
      · -- a connection in progress is no failure
        rw [if_pos he]
        have hconnecting := hunder.call (.connect fd sa) (.failed e) rfl fun hfatal => hfatal he
        exact Underway.sound hconnecting rfl rfl hinit
      · rw [if_neg he]
        exact (hunder.close env (.connect fd sa) (.failed e) rfl he).sound rfl hinit
  · rw [hsocket]
    dsimp only
    rw [if_pos (by decide)]
    exact hundone.sound rfl hinit

/-! ### The functions -/

section

variable {pton : InetPton} {server : SancusTcpServer} {conn : SancusTcpConn}
  {addr path : Option CString} {peer : CString} {port : UInt16} {cloexec preBind : Bool}
  {backlog : UInt32}

theorem sancusTcpIpv4Listen_sound : SetUpSound SancusTcpServer.fd (serverInitIpv4 pton addr port)
    (sancusTcpIpv4Listen pton env server addr port cloexec preBind backlog) :=
  withAddress_sound serverInitIpv4_error fun _ hsa => serverInitTcp_sound hsa rfl nofun rfl

theorem sancusTcpIpv6Listen_sound : SetUpSound SancusTcpServer.fd (serverInitIpv6 pton addr port)
    (sancusTcpIpv6Listen pton env server addr port cloexec preBind backlog) :=
  withAddress_sound serverInitIpv6_error fun _ hsa => serverInitTcp_sound hsa rfl nofun rfl

theorem sancusTcpLocalListen_sound : SetUpSound SancusTcpServer.fd (initLocal path)
    (sancusTcpLocalListen env server path cloexec preBind backlog) := by
  refine withAddress_sound initLocal_error fun _ hsa => serverInitTcp_sound hsa rfl ?_ rfl
  exact List.forall_mem_singleton.mpr id

theorem sancusTcpIpv4Connect_sound : SetUpSound SancusTcpConn.fd (connInitIpv4 pton peer port)
    (sancusTcpIpv4Connect pton env conn peer port cloexec) :=
  withAddress_sound Pton.init_error fun _ hsa => connInitTcp_sound hsa

theorem sancusTcpIpv6Connect_sound : SetUpSound SancusTcpConn.fd (connInitIpv6 pton peer port)
    (sancusTcpIpv6Connect pton env conn peer port cloexec) :=
  withAddress_sound Pton.init_error fun _ hsa => connInitTcp_sound hsa

theorem sancusTcpLocalConnect_sound : SetUpSound SancusTcpConn.fd (initLocal path)
    (sancusTcpLocalConnect env conn path cloexec) :=
  withAddress_sound initLocal_error fun _ hsa => connInitTcp_sound hsa

end

end Sancus.Tcp
