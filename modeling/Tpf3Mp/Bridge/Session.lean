import Tpf3Mp.Bridge.Gate

/-!
The game's side of a session with the agent (`tpf3mp-bridge`, `session.rs`). What the hook sends goes
on the link in the order it is listed.
-/

namespace Tpf3Mp.Bridge
open Proto List

inductive Notice where
  | speed (speed : Speed)
  | diverged (step : Nat) (lanes : List UInt16)
  | refused (command : Nat) (reason : IntentRejection)
  | ended (reason : Text 128)
  | chat (sender : Text 32) (text : ChatText)
  deriving DecidableEq

/-- What the session needs from the game. `save` gives the file it wrote for the event, or the line
for the log. -/
structure Game (γ : Type) where
  apply : γ → Event → γ
  lanes : γ → List LaneDigest
  save : γ → Nat → Except (Text 256) PathText
  notice : γ → Notice → γ

structure Load where
  file : Option PathText
  nextStep : Nat
  deriving DecidableEq

inductive StepGate where
  | run
  | wait
  | ended
  | load (load : Load)
  deriving DecidableEq

inductive SessionError where
  | version (version : UInt32)
  | gate (error : GateError)
  | unexpected (what : String)
  | loadedElsewhere (expected got : Nat)
  | notLoading
  deriving DecidableEq

structure Session where
  gate : Gate
  pendingLoad : Option Load
  checkpointInterval : Nat
  commands : Nat
  deriving DecidableEq

namespace Session
variable {γ : Type} (game : Game γ)

def attached : Session where
  gate := .new 1
  pendingLoad := none
  checkpointInterval := u64Max
  commands := 0

def greeted : ToHook → Except SessionError Unit
  | .hello version => if version = bridgeVersion then .ok () else .error (.version version)
  | _ => .error (.unexpected "something before its hello")

/-- One message read by `wait_for_begin`: the session of the game that began, or nothing yet. -/
def waitForBegin (s : Session) : ToHook → Except SessionError (Option Session)
  | .begin _ _ checkpointInterval _ => .ok (some { s with checkpointInterval := max checkpointInterval.toNat 1 })
  | .chat .. => .ok none
  | _ => .error (.unexpected "something before the game began")

/-- What `poll_step` finds before it reads another message. -/
def stepGate (s : Session) : StepGate :=
  if s.gate.ended then .ended
  else match s.pendingLoad with
    | some load => .load load
    | none => if s.gate.mayRun then .run else .wait

def save (world : γ) (event : Nat) : List ToAgent :=
  match game.save world event with
  | .ok file => [.saved event (game.lanes world) (some file)]
  | .error line => [.log line, .saved event (game.lanes world) none]

def handle (s : Session) (world : γ) (message : ToHook) : Except SessionError (Session × γ × List ToAgent) :=
  match s.gate.onMessage message with
  | .error error => .error (.gate error)
  | .ok (.apply event, gate) =>
    if event.body = .save then .ok ({ s with gate }, world, save game world event.seq)
    else .ok ({ s with gate }, game.apply world event, [])
  | .ok (.load file nextStep, gate) => .ok ({ s with gate, pendingLoad := some { file, nextStep } }, world, [])
  | .ok (.speed speed, gate) => .ok ({ s with gate }, game.notice world (.speed speed), [])
  | .ok (.diverged step lanes, gate) => .ok ({ s with gate }, game.notice world (.diverged step lanes), [])
  | .ok (.refused command reason, gate) => .ok ({ s with gate }, game.notice world (.refused command reason), [])
  | .ok (.ended reason, gate) => .ok ({ s with gate }, game.notice world (.ended reason), [])
  | .ok (.chat sender text, gate) => .ok ({ s with gate }, game.notice world (.chat sender text), [])
  | .ok (.nothing, gate) => .ok ({ s with gate }, world, [])

/-- The world the gate ordered is loaded, and `nextStep` is the first step it will run. -/
def loaded (s : Session) (nextStep : Nat) : Except SessionError (Session × List ToAgent) :=
  match s.pendingLoad with
  | none => .error .notLoading
  | some load =>
    if load.nextStep ≠ nextStep then .error (.loadedElsewhere load.nextStep nextStep)
    else .ok ({ s with pendingLoad := none, gate := s.gate.loaded nextStep }, [.loaded nextStep])

def afterStep (s : Session) (world : γ) : Except SessionError (Session × List ToAgent) :=
  match s.gate.ran with
  | .error error => .error (.gate error)
  | .ok (step, gate) =>
    .ok ({ s with gate },
      .ran step :: if step % s.checkpointInterval = 0 then [.checkpoint step (game.lanes world)] else [])

def command (s : Session) (payload : Payload) : Nat × Session × List ToAgent :=
  (s.commands, { s with commands := s.commands + 1 }, [.command payload])

end Session

def loadOf : ToHook → Option Nat
  | .load _ nextStep => some nextStep
  | _ => none

def loadedOf : ToAgent → Option Nat
  | .loaded nextStep => some nextStep
  | _ => none

def commandOf : ToAgent → Option Payload
  | .command payload => some payload
  | _ => none

/-- Neither the answer to a load nor a command. -/
structure ToAgent.Plain (message : ToAgent) : Prop where
  unloaded : loadedOf message = none
  uncommanded : commandOf message = none

namespace Session
variable {γ : Type} {game : Game γ}

theorem save_plain (world : γ) (event : Nat) : ∀ reply ∈ save game world event, reply.Plain := by
  intro reply member
  unfold save at member
  split at member
  · obtain rfl := mem_singleton.mp member
    exact ⟨rfl, rfl⟩
  simp only [mem_cons, not_mem_nil, or_false] at member
  rcases member with rfl | rfl
  · exact ⟨rfl, rfl⟩
  · exact ⟨rfl, rfl⟩

variable {s : Session} {message : ToHook} {t : Session} {replies : List ToAgent}

theorem onMessage_load {gate gate' : Gate} {gated : Gated} (taken : gate.onMessage message = .ok (gated, gate')) :
    loadOf message = match gated with
      | .load _ nextStep => some nextStep
      | _ => none := by
  unfold Gate.onMessage at taken
  split at taken
  · cases taken
  cases message <;> dsimp only at taken
  case apply event =>
    repeat' split at taken
    all_goals cases taken
    rfl
  case release through =>
    split at taken
    all_goals cases taken
    rfl
  all_goals cases taken
  all_goals rfl

theorem handle_ok {world world' : γ} (handled : s.handle game world message = .ok (t, world', replies)) :
    t.commands = s.commands ∧ (∀ reply ∈ replies, reply.Plain) ∧
    t.pendingLoad.map Load.nextStep = (loadOf message).or (s.pendingLoad.map Load.nextStep) := by
  unfold handle at handled
  split at handled
  · cases handled
  · next event gate gated =>
    have plain := onMessage_load gated
    split at handled
    · cases handled
      exact ⟨rfl, save_plain _ _, by rw [plain]; rfl⟩
    · cases handled
      exact ⟨rfl, by simp, by rw [plain]; rfl⟩
  · next file nextStep gate gated =>
    cases handled
    exact ⟨rfl, by simp, by rw [onMessage_load gated]; rfl⟩
  all_goals
    next gated =>
      cases handled
      exact ⟨rfl, by simp, by rw [onMessage_load gated]; rfl⟩

theorem loaded_ok {nextStep : Nat} (loaded : s.loaded nextStep = .ok (t, replies)) :
    s.pendingLoad.map Load.nextStep = some nextStep ∧ t.pendingLoad = none ∧ t.commands = s.commands ∧
      replies = [.loaded nextStep] := by
  unfold Session.loaded at loaded
  split at loaded
  · cases loaded
  rename_i load pending
  split at loaded
  · cases loaded
  · next same =>
    cases loaded
    exact ⟨by rw [pending, Option.map_some, not_not.mp same], rfl, rfl, rfl⟩

theorem afterStep_ok {world : γ} (stepped : s.afterStep game world = .ok (t, replies)) :
    t.pendingLoad = s.pendingLoad ∧ t.commands = s.commands ∧ ∀ reply ∈ replies, reply.Plain := by
  unfold afterStep at stepped
  split at stepped
  · cases stepped
  cases stepped
  refine ⟨rfl, rfl, ?_⟩
  intro reply member
  rcases mem_cons.mp member with rfl | member
  · exact ⟨rfl, rfl⟩
  split at member
  · obtain rfl := mem_singleton.mp member
    exact ⟨rfl, rfl⟩
  · cases member

theorem waitForBegin_ok {begun : Option Session} (waited : s.waitForBegin message = .ok begun) :
    loadOf message = none ∧ (begun.getD s).pendingLoad = s.pendingLoad ∧ (begun.getD s).commands = s.commands := by
  cases message <;> cases waited
  all_goals exact ⟨rfl, rfl, rfl⟩

theorem greeted_ok (greeted : Session.greeted message = .ok ()) : loadOf message = none := by
  cases message <;> first | rfl | cases greeted

theorem stepGate_wait (waits : s.stepGate = .wait) : s.pendingLoad = none := by
  unfold stepGate at waits
  split at waits
  · cases waits
  · split at waits
    · cases waits
    · next none => exact none

end Session

end Tpf3Mp.Bridge
