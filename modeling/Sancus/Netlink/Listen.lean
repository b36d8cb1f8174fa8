import Sancus.Fd.Setup
import Sancus.Netlink.RecvCb

namespace Sancus.Netlink

open CModel
open Fd (Answer SetupCall SetUp Env SetUpSound SOCK_RAW liftCalls closeCalls sancusSocket)

/-!
# Netlink — listening

`sancus_nl_receiver_listen` sets a receiver up on a bus.  Its socket is never told to close on
`exec`, and does not block.

* `SockaddrNl` — the address that is bound;
* `sancusNlReceiverListenOn` — the function;
* `sancusNlReceiverListenOn_sound` — that it is sound.
-/

def AF_NETLINK : Int := 16

/-- `struct sockaddr_nl`. -/
structure SockaddrNl where
  nl_groups : UInt32
  nl_pid : UInt32
  deriving DecidableEq

/-- `sancus_nl_receiver_listen`. -/
def sancusNlReceiverListenOn (env : Env SockaddrNl) (self : NlReceiver) (bus : Int)
    (groups : UInt32) (portid : Int) : SetUp NlReceiver SockaddrNl :=
  let sa : SockaddrNl := ⟨groups, .ofInt portid⟩
  let (fd, t) := sancusSocket env.socket AF_NETLINK SOCK_RAW bus 0 1
  let calls := liftCalls t
  if fd < 0 then ⟨-1, self, none, calls⟩
  else
    match env.call (.bind fd.toNat sa) calls with
    | (.failed e, calls) =>
      ⟨-1, { sancusNlReceiverListen fd portid with fd := -1 }, some e,
        closeCalls env fd.toNat calls⟩
    | (.ok _, calls)     => ⟨1, sancusNlReceiverListen fd portid, none, calls⟩

/-- **Listening on a bus is sound.**  Whatever the bus, the groups and the port, and whatever the
    calls answer: a receiver is set up exactly if no call has failed, and holds the one
    descriptor that is open; otherwise every descriptor obtained has been closed again, once. -/
theorem sancusNlReceiverListenOn_sound (env : Env SockaddrNl) (self : NlReceiver) (bus : Int)
    (groups : UInt32) (portid : Int) :
    SetUpSound NlReceiver.fd (.ok ⟨groups, .ofInt portid⟩)
      (sancusNlReceiverListenOn env self bus groups portid) := by
  unfold sancusNlReceiverListenOn
  rcases Fd.setup_socket env.socket AF_NETLINK SOCK_RAW bus
    (.inr (one_ne_zero (α := Int))) ([] : Fd.SetupTrace SockaddrNl) rfl nofun rfl with
    ⟨fd, t, hsocket, hunder⟩ | ⟨t, hsocket, hundone⟩
  · rw [hsocket]
    dsimp only [Env.call]
    rw [if_neg (by omega), Int.toNat_natCast]
    cases hbind : env.answer (.bind fd ⟨groups, .ofInt portid⟩) with
    | failed e =>
      exact (hunder.close env (.bind fd _) (.failed e) rfl trivial).sound rfl rfl
    | ok n =>
      have hbound := hunder.call (.bind fd ⟨groups, .ofInt portid⟩) (.ok n) rfl id
      exact Fd.Underway.sound hbound rfl rfl rfl
  · rw [hsocket]
    dsimp only
    rw [if_pos (by decide)]
    exact hundone.sound rfl rfl

end Sancus.Netlink
