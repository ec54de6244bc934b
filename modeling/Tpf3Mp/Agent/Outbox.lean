import Tpf3Mp.Agent.Follower
import Tpf3Mp.Agent.Playout
import Tpf3Mp.Bridge.Gate

/-!
What the bridge keeps for the hook, and how turns become messages (`tpf3mp-agent`, `bridge.rs`:
`Outbox` and `pump`).
-/

namespace Tpf3Mp.Agent
open Proto Tpf3Mp.Bridge
open Server (Instant)

structure Outbox where
  messages : List ToHook
  bytes : Nat
  deriving DecidableEq

def outboxBytes : Nat := 2 ^ 24

namespace Outbox

def empty : Outbox := { messages := [], bytes := 0 }

def weight (message : ToHook) : Nat :=
  let carried := match message with
    | .apply event => match event.body with
      | .command _ _ payload => payload.1.length
      | _ => 0
    | .load file _ => file.elim 0 (·.1.utf8ByteSize)
    | .begin rules _ _ saves => rules.1.utf8ByteSize + saves.1.utf8ByteSize
    | .diverged _ lanes => lanes.length * 2
    | .chat sender text => sender.1.utf8ByteSize + text.1.utf8ByteSize
    | .end reason => reason.1.utf8ByteSize
    | _ => 0
  carried + 64

def pushBack (o : Outbox) (message : ToHook) : Outbox where
  messages := o.messages ++ [message]
  bytes := o.bytes + weight message

def pushFront (o : Outbox) (message : ToHook) : Outbox where
  messages := message :: o.messages
  bytes := o.bytes + weight message

def popFront (o : Outbox) : Option (ToHook × Outbox) :=
  match o.messages with
  | [] => none
  | message :: messages => some (message, { messages, bytes := o.bytes - weight message })

def retain (o : Outbox) (keep : ToHook → Bool) : Outbox where
  messages := o.messages.filter keep
  bytes := ((o.messages.filter keep).map weight).sum

def isFull (o : Outbox) : Bool := outboxBytes ≤ o.bytes

def release (o : Outbox) : Option Nat → Outbox
  | some through => o.pushBack (.release through)
  | none => o

end Outbox

/-- Why `pump` stops; what it returns is the time of `notDue`. -/
inductive Pause where
  | full
  | notDue (due : Instant)
  | drained
  deriving DecidableEq

structure Pumping where
  follower : TurnFollower
  playout : Playout
  out : Outbox
  released : Option Nat

def Pumping.turn (p : Pumping) (now : Instant) : Except Pause Pumping :=
  if p.out.isFull then .error .full
  else match p.follower.nextStep with
    | some step =>
      let due := (p.playout.due step now).getD now
      if due > now then .error (.notDue due)
      else .ok { p with
        follower := p.follower.nextAction.2
        playout := p.playout.play step due
        released := some step }
    | none => match p.follower.nextAction with
      | (some (.apply event), follower) =>
        .ok { p with follower, out := (p.out.release p.released).pushBack (.apply event), released := none }
      | (some (.execute step), follower) => .ok { p with follower, released := some step }
      | (none, _) => .error .drained

def Pumping.loop (now : Instant) : Nat → Pumping → Option (Pause × Pumping)
  | 0, _ => none
  | fuel + 1, p => match p.turn now with
    | .error pause => some (pause, p)
    | .ok p => loop now fuel p

def pump (fuel : Nat) (follower : TurnFollower) (playout : Playout) (now : Instant) (out : Outbox) :
    Option (Pause × TurnFollower × Playout × Outbox) :=
  (Pumping.loop now fuel { follower, playout, out, released := none }).map fun (pause, p) =>
    (pause, p.follower, p.playout, p.out.release p.released)

end Tpf3Mp.Agent
