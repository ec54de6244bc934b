import Tpf3Mp.Proto.Control

/-!
What the agent and the hook inside the game tell each other (`tpf3mp-bridge`, `lib.rs`), and the
hook's side of the step gate (`gate.rs`).
-/

namespace Tpf3Mp.Bridge
open Proto

def bridgeVersion : UInt32 := 3

def maxPath : Nat := 1024

abbrev PathText := Text maxPath

inductive ToHook where
  | hello (version : UInt32)
  | begin (rules : RulesName) (stepsPerSecond : UInt16) (checkpointInterval : UInt32) (saves : PathText)
  | apply (event : Event)
  | release (through : Nat)
  | speed (speed : Speed)
  | diverged (step : Nat) (lanes : List UInt16)
  | refused (command : Nat) (reason : IntentRejection)
  | end (reason : Text 128)
  | load (file : Option PathText) (nextStep : Nat)
  | chat (sender : Text 32) (text : ChatText)
  deriving DecidableEq

def ToHook.isEnd : ToHook → Bool
  | .end _ => true
  | _ => false

inductive ToAgent where
  | hello (version : UInt32) (build : Text 64)
  | loaded (nextStep : Nat)
  | command (payload : Payload)
  | ran (step : Nat)
  | checkpoint (step : Nat) (lanes : List LaneDigest)
  | log (message : Text 256)
  | saved (event : Nat) (lanes : List LaneDigest) (file : Option PathText)
  | chat (text : ChatText)
  deriving DecidableEq

structure Gate where
  nextStep : Nat
  released : Nat
  ended : Bool
  loading : Bool
  deriving DecidableEq

inductive Gated where
  | apply (event : Event)
  | speed (speed : Speed)
  | diverged (step : Nat) (lanes : List UInt16)
  | refused (command : Nat) (reason : IntentRejection)
  | ended (reason : Text 128)
  | load (file : Option PathText) (nextStep : Nat)
  | chat (sender : Text 32) (text : ChatText)
  | nothing
  deriving DecidableEq

inductive GateError where
  | eventStep (expected got : Nat)
  | eventAfterRelease (step : Nat)
  | releaseBackwards (before after : Nat)
  | unexpected (what : String)
  | loading
  | overflow
  deriving DecidableEq

namespace Gate

def new (nextStep : Nat) : Gate :=
  { nextStep, released := nextStep - 1, ended := false, loading := false }

def loaded (g : Gate) (nextStep : Nat) : Gate :=
  { g with nextStep, released := nextStep - 1, loading := false }

def mayRun (g : Gate) : Bool := !g.ended && !g.loading && g.nextStep ≤ g.released

def onMessage (g : Gate) (message : ToHook) : Except GateError (Gated × Gate) :=
  if g.loading && !message.isEnd then .error .loading
  else match message with
    | .apply event =>
      if event.step ≠ g.nextStep then .error (.eventStep g.nextStep event.step)
      else if g.nextStep ≤ g.released then .error (.eventAfterRelease event.step)
      else .ok (.apply event, g)
    | .release through =>
      if through < g.released then .error (.releaseBackwards g.released through)
      else .ok (.nothing, { g with released := through })
    | .speed speed => .ok (.speed speed, g)
    | .diverged step lanes => .ok (.diverged step lanes, g)
    | .refused command reason => .ok (.refused command reason, g)
    | .end reason => .ok (.ended reason, { g with ended := true })
    | .load file nextStep => .ok (.load file nextStep, { g with loading := true })
    | .chat sender text => .ok (.chat sender text, g)
    | .hello _ => .error (.unexpected "a hello")
    | .begin .. => .error (.unexpected "the start of a game")

def ran (g : Gate) : Except GateError (Nat × Gate) :=
  if g.nextStep < u64Max then .ok (g.nextStep, { g with nextStep := g.nextStep + 1 }) else .error .overflow

end Gate

end Tpf3Mp.Bridge
